import Rango.Server.Routes

/-!
# The sync client

`SyncClient` sends requests over HTTP. Whatever answers them is a `SyncServer`; that a request
or its response is lost on the way is one of its replies. `Observed` keeps the requests that
a server was sent, and `Remote` is the server of this repository behind the client's
connection.
-/

namespace Rango

/-- How a request over HTTP ends: its response does not arrive or cannot be read, it carries a
status that is no success, or it is read. -/
inductive HttpReply (α : Type) where
  | failed (error : String)
  | status (code : String)
  | success (resp : α)
deriving DecidableEq

/-- What answers at `server_url`, with state `ν`. -/
class SyncServer (ν : Type) where
  push : PushRequest → ν → HttpReply PushResponse × ν
  pull : PullRequest → ν → HttpReply PullResponse × ν

/-! ## The client -/

namespace SyncClient

/-- The response, or an error with the text that the client gives it. -/
def receive {α : Type} (what : String) : HttpReply α → Except RangoError α
  | .failed err => .error (.sync err)
  | .status code => .error (.sync (what ++ " failed: " ++ code))
  | .success resp => .ok resp

variable {ν : Type} [SyncServer ν]

/-- `SyncClient::push_scoped`. -/
def pushScoped (nodeId tenantId nameSpace : String) (mutations : List Mutation)
    (checkpoint : ℕ) (server : ν) : Except RangoError PushResponse × ν :=
  let (reply, server) := SyncServer.push
    { nodeId, tenantId, nameSpace, mutations, lastCheckpoint := checkpoint } server
  (receive "Push" reply, server)

/-- `SyncClient::push`. -/
def push (nodeId : String) (mutations : List Mutation) (checkpoint : ℕ) (server : ν) :
    Except RangoError PushResponse × ν :=
  pushScoped nodeId "default" "default" mutations checkpoint server

/-- `SyncClient::pull_scoped`. -/
def pullScoped (nodeId tenantId nameSpace : String) (checkpoint : ℕ) (server : ν) :
    Except RangoError PullResponse × ν :=
  let (reply, server) := SyncServer.pull
    { nodeId, tenantId, nameSpace, sinceCheckpoint := checkpoint } server
  (receive "Pull" reply, server)

/-- `SyncClient::pull`. -/
def pull (nodeId : String) (checkpoint : ℕ) (server : ν) : Except RangoError PullResponse × ν :=
  pullScoped nodeId "default" "default" checkpoint server

end SyncClient

/-! ## Observed requests -/

/-- A server with the requests that it was sent. -/
structure Observed (ν : Type) where
  server : ν
  pushes : List PushRequest
  pulls : List PullRequest

instance {ν : Type} [SyncServer ν] : SyncServer (Observed ν) where
  push req o :=
    let (reply, server) := SyncServer.push req o.server
    (reply, { o with server, pushes := o.pushes ++ [req] })
  pull req o :=
    let (reply, server) := SyncServer.pull req o.server
    (reply, { o with server, pulls := o.pulls ++ [req] })

/-- A server that gives fixed replies. -/
structure Scripted where
  pushReply : HttpReply PushResponse
  pullReply : HttpReply PullResponse

instance : SyncServer Scripted where
  push _ server := (server.pushReply, server)
  pull _ server := (server.pullReply, server)

/-! ## The server behind the connection -/

/-- A server with its control plane, as the holder of a registered token reaches it. -/
structure Remote (ω η : Type) where
  cp : ControlPlane η
  principal : AuthPrincipal
  state : ServerState ω η

namespace Remote

/-- The reply to a request that ended with a response or a fault. A handler that panics closes
the connection. -/
def reply {α : Type} : Except RequestFault α → HttpReply α
  | .ok resp => .success resp
  | .error .internalServerError => .status "500 Internal Server Error"
  | .error .forbidden => .status "403 Forbidden"
  | .error .panic => .failed "error sending request"

variable {ω η : Type} [Formatting] [Surroundings] [Oplog ω] [Arithmetic]

/-- The client sends no read tier, for which the server takes `State`. -/
instance : SyncServer (Remote ω η) where
  push req server :=
    let (outcome, state) := server.state.processPush server.cp req server.principal
    (reply outcome, { server with state })
  pull req server :=
    let (outcome, state) := server.state.processPull server.cp req server.principal .state
    (reply outcome, { server with state })

end Remote
end Rango
