import Rango.Sync.Workspace

/-!
# A fleet of workspaces

Several workspaces write locally and sync with one server, each under its own principal and over
a network that loses requests and responses (`Link`). The server answers other clients in
between, and restarts.
-/

namespace Rango

/-! ## The network -/

/-- What becomes of a request on the network. -/
inductive Delivery where
  | delivered
  | requestLost
  | responseLost
deriving DecidableEq

/-- A server behind a network, with what becomes of the next requests. All later ones are
delivered. -/
structure Link (ν : Type) where
  server : ν
  deliveries : List Delivery

namespace Link

variable {ν α : Type}

/-- A request over the link. The client cannot tell a lost request from a lost response. -/
def send (request : ν → HttpReply α × ν) (l : Link ν) : HttpReply α × Link ν :=
  match l.deliveries.headD .delivered with
  | .delivered => ((request l.server).1, ⟨(request l.server).2, l.deliveries.tail⟩)
  | .requestLost => (.failed "error sending request", ⟨l.server, l.deliveries.tail⟩)
  | .responseLost =>
    (.failed "error sending request", ⟨(request l.server).2, l.deliveries.tail⟩)

instance [SyncServer ν] : SyncServer (Link ν) where
  push req := send (SyncServer.push req)
  pull req := send (SyncServer.pull req)

/-- Over a link, the server gets the request or does not. -/
lemma send_server (request : ν → HttpReply α × ν) (l : Link ν) :
    (send request l).2.server = l.server ∨ (send request l).2.server = (request l.server).2 := by
  unfold send
  split
  · exact Or.inr rfl
  · exact Or.inl rfl
  · exact Or.inr rfl

end Link

/-! ## The fleet -/

/-- The workspaces and their server. -/
structure Fleet (ι ω ω' η : Type) where
  nodes : ι → Workspace ω
  server : ServerState ω' η

/-- What happens in a fleet: something in a workspace, with what becomes of the requests that it
sends, or a request of another client and a restart of the server. -/
inductive FleetEvent (ι η : Type) where
  | node (i : ι) (ev : Workspace.Event) (deliveries : List Delivery)
  | server (ev : ServerEvent η)

namespace Fleet

variable {ι ω ω' η : Type} [DecidableEq ι] [DurableOplog ω] [QueueCodec] [JsonCodec] [Arithmetic]
  [Formatting] [Surroundings] [Oplog ω'] (cp : ControlPlane η) (principals : ι → AuthPrincipal)
  (fuel : ℕ)

/-- The fleet after one event. -/
def step (f : Fleet ι ω ω' η) : FleetEvent ι η → Fleet ι ω ω' η
  | .node i ev deliveries =>
    let link : Link (Remote ω' η) := ⟨⟨cp, principals i, f.server⟩, deliveries⟩
    let (ws, link) := Workspace.step fuel (f.nodes i, link) ev
    { nodes := Function.update f.nodes i ws, server := link.server.state }
  | .server ev => { f with server := f.server.step cp ev }

/-- The fleet after a sequence of events. -/
def run (f : Fleet ι ω ω' η) (events : List (FleetEvent ι η)) : Fleet ι ω ω' η :=
  events.foldl (step cp principals fuel) f

end Fleet
end Rango
