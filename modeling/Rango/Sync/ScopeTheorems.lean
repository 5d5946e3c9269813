import Rango.Server.AcceptanceTheorems
import Rango.Server.IsolationTheorems
import Rango.Core.WriteTheorems
import Rango.Sync.BatchTheorems

/-!
# The scope of a local write

Three places name the scope of a local write: the engine stamps the collection's name as the
namespace of its mutation, the sync client pushes under the namespace `"default"`, and the server
compares the two. `local_write_accepted_iff`: they agree for the collection of that name.
-/

namespace Rango

namespace ServerState

/-- A push accepts the mutation that it carries behind `before`: the token is for its node and
tenant, and the loop comes to the mutation and accepts it, whatever follows. -/
def AcceptsAt {ω η : Type} [Formatting] [Surroundings] [Oplog ω] (cp : ControlPlane η)
    (st : ServerState ω η) (req : PushRequest) (principal : AuthPrincipal)
    (before : List Mutation) (m : Mutation) : Prop :=
  (∃ after, req.mutations = before ++ m :: after) ∧
    (req.nodeId = principal.nodeId ∧ req.tenantId = principal.tenantId) ∧
    ∃ outcomes st₁, pushLoop cp st req before = (.ok outcomes, st₁) ∧
      ∃ pushed st₂, st₁.pushMutation cp req m = (.ok pushed, st₂) ∧ pushed.accepted ≠ none

/-- A push accepts what the server takes at its turn. -/
lemma acceptsAt_iff {ω η : Type} [Formatting] [Surroundings] [Oplog ω] {cp : ControlPlane η}
    {st : ServerState ω η} {req : PushRequest} {principal : AuthPrincipal}
    {before : List Mutation} {m : Mutation} :
    AcceptsAt cp st req principal before m ↔
      (∃ after, req.mutations = before ++ m :: after) ∧
        (req.nodeId = principal.nodeId ∧ req.tenantId = principal.tenantId) ∧
        ∃ outcomes st₁, pushLoop cp st req before = (.ok outcomes, st₁) ∧
          ∃ seq st₂, Takes cp req st₁ m seq st₂ := by
  refine and_congr_right fun _ => and_congr_right fun _ => exists_congr fun outcomes =>
    exists_congr fun st₁ => and_congr_right fun _ => ⟨?_, ?_⟩
  · rintro ⟨pushed, st₂, hpushed, haccepted⟩
    obtain ⟨seq, hseq⟩ := Option.ne_none_iff_exists'.mp haccepted
    exact ⟨seq, st₂, takes_of_pushMutation hpushed hseq⟩
  · rintro ⟨seq, st₂, htakes⟩
    exact ⟨_, st₂, htakes.pushMutation, Option.some_ne_none seq⟩

end ServerState

open SyncScheduler (runOnce)
open ServerState (pushLoop AcceptsAt)

section
variable {σ ω ω' ω'' κ χ ν : Type} [StorageEngine σ] [LogOplog ω] [Oplog ω'] [Oplog ω'']
  [SyncQueue κ] [CheckpointStore χ] [SyncServer ν] [Formatting] [Surroundings] [BsonCodec]
  [MutationHasher] [Arithmetic] {e : RangoEngine σ ω} {s : EngineStep} {entry : OplogEntry}

omit [Surroundings] in
/-- The scope that a local write stamps on its mutation. -/
lemma local_write_scope (hs : s.clock.isSome)
    (hentry : toEntries (e.step s).oplog = toEntries e.oplog ++ [entry]) :
    entry.mutation.validateMetadata = .ok () ∧
      entry.mutation.metadata.nameSpace = s.collection.name ∧
      entry.mutation.metadata.tenantId = "default" ∧
      entry.mutation.metadata.trustScore = F64.one := by
  rcases RangoEngine.step_logged e hs with h | ⟨op, id, patch, t, seq, hvalid, h⟩
  · rw [h] at hentry
    exact absurd hentry.symm (by simp)
  · rw [h] at hentry
    have hlast := List.append_cancel_left hentry
    rw [← (List.cons.inj hlast).1]
    exact ⟨hvalid, rfl, rfl, rfl⟩

variable {config : SyncConfig} {nodeId : String} {log : ω''} {sync : SyncState κ χ (Observed ν)}
  {req : PushRequest} {before after : List Mutation} {st : ServerState ω' Unit}

/-- **The scope of a local write.** When a cycle pushes a local write to a server with the default
control plane, under a token for tenant `"default"` and while the scope is not contained, the
server accepts it exactly when its collection is called `"default"`, provided that its log stores
what it is given. -/
theorem local_write_accepted_iff (hs : s.clock.isSome)
    (hentry : toEntries (e.step s).oplog = toEntries e.oplog ++ [entry])
    (hnew : sync.server.pushes = [])
    (hreq : req ∈ (runOnce config nodeId log sync).2.server.pushes)
    (hmutations : req.mutations = before ++ entry.mutation :: after)
    (hcalm : ∀ outcomes st', pushLoop .default st req before = (.ok outcomes, st') →
      st'.Calm "default" "default") :
    AcceptsAt .default st req ⟨nodeId, "default"⟩ before entry.mutation ↔
      s.collection.name = "default" ∧
        ∃ outcomes st', pushLoop .default st req before = (.ok outcomes, st') ∧
          (st'.decided .default req entry.mutation).Stores entry.mutation := by
  obtain ⟨hvalid, hnamespace, htenant, htrust⟩ := local_write_scope hs hentry
  have hsent : req.nodeId = nodeId ∧ req.tenantId = "default" ∧ req.nameSpace = "default" := by
    rcases SyncScheduler.runOnce_pushes config nodeId log sync with h | ⟨_, _, _, -, h⟩
    · rw [h, hnew] at hreq
      cases hreq
    · rw [h, hnew, List.nil_append, List.mem_singleton] at hreq
      rw [hreq]
      exact ⟨rfl, rfl, rfl⟩
  obtain ⟨hnode, hreqtenant, hreqnamespace⟩ := hsent
  have htrusted : F64.quarter.le entry.mutation.metadata.trustScore = true := by
    rw [htrust]
    decide
  have hturn : ∀ outcomes st', pushLoop .default st req before = (.ok outcomes, st') →
      ((∃ seq st₂, ServerState.Takes .default req st' entry.mutation seq st₂) ↔
        s.collection.name = "default" ∧
          (st'.decided .default req entry.mutation).Stores entry.mutation) := by
    intro outcomes st' hloop
    have hcalm' : st'.Calm req.tenantId req.nameSpace := by
      rw [hreqtenant, hreqnamespace]
      exact hcalm outcomes st' hloop
    rw [ServerState.takes_default_iff hcalm' hvalid htrusted, htenant, hnamespace, hreqtenant,
      hreqnamespace]
    simp
  rw [ServerState.acceptsAt_iff]
  constructor
  · rintro ⟨-, -, outcomes, st', hloop, htakes⟩
    obtain ⟨hname, hstores⟩ := (hturn outcomes st' hloop).mp htakes
    exact ⟨hname, outcomes, st', hloop, hstores⟩
  · rintro ⟨hname, outcomes, st', hloop, hstores⟩
    exact ⟨⟨after, hmutations⟩, ⟨hnode, hreqtenant⟩, outcomes, st', hloop,
      (hturn outcomes st' hloop).mpr ⟨hname, hstores⟩⟩

end

/-! ## Two collections -/

section
attribute [local instance] Formatting.sample MutationHasher.sample Arithmetic.sample
  Surroundings.sample sampleWriteCodec sampleQueueCodec sampleJsonCodec

/-- The first insert of a node, into a collection. -/
def sampleScopedInsert (c : String) : EngineStep := .insert ⟨c⟩ sampleDoc (.sample 1 0)

/-- The entry that it appends. -/
def sampleScopedEntry (c : String) : OplogEntry :=
  (localEntry (sampleWriter.insertWrite ⟨c⟩ sampleDoc (.sample 1 0)).mutation
    (.sample 1 0)).withSeq 1

/-- A cycle of that node, with the write in its queue. -/
def sampleScopeCycle (c : String) :
    SyncState FileSyncQueue FileCheckpointStore (Observed Scripted) :=
  (runOnce .default "a" (sampleWriter.step (sampleScopedInsert c)).oplog
    (sampleClient [1] (by decide))).2

/-- What it pushes. -/
def sampleScopePush (c : String) : PushRequest :=
  ⟨"a", "default", "default", [(sampleScopedEntry c).mutation], 0⟩

lemma sampleServer_calm (req : PushRequest) {outcomes : List Pushed} {st' : ServerState MemLog Unit}
    (h : pushLoop .default sampleServer req [] = (.ok outcomes, st')) :
    st'.Calm "default" "default" := by
  rw [← (Prod.mk.inj h).2]
  exact nofun

/-- An insert into collection `"default"` is accepted. -/
theorem local_write_accepted_iff_default :
    AcceptsAt .default sampleServer (sampleScopePush "default") ⟨"a", "default"⟩ []
      (sampleScopedEntry "default").mutation := by
  have hentry : toEntries (sampleWriter.step (sampleScopedInsert "default")).oplog =
      toEntries sampleWriter.oplog ++ [sampleScopedEntry "default"] := by decide +kernel
  have hreq : sampleScopePush "default" ∈ (sampleScopeCycle "default").server.pushes := by
    decide +kernel
  refine (local_write_accepted_iff rfl hentry rfl hreq (List.nil_append _).symm
    fun _ _ h => sampleServer_calm _ h).mpr ⟨rfl, [], sampleServer, rfl, Or.inr ?_⟩
  exact ⟨2, _, Prod.fst_eq_iff.mp (by decide +kernel)⟩

/-- An insert into collection `"c"` is not. -/
theorem local_write_out_of_scope :
    toEntries (sampleWriter.step (sampleScopedInsert "c")).oplog =
        toEntries sampleWriter.oplog ++ [sampleScopedEntry "c"] ∧
      sampleScopePush "c" ∈ (sampleScopeCycle "c").server.pushes ∧
      sampleServer.Calm "default" "default" ∧
      (sampleServer.processPush .default (sampleScopePush "c") ⟨"a", "default"⟩).1 =
        .ok ⟨[], 0, 0, 1, [⟨.reject, "cross_tenant_or_namespace_mutation"⟩]⟩ ∧
      ¬ AcceptsAt .default sampleServer (sampleScopePush "c") ⟨"a", "default"⟩ []
        (sampleScopedEntry "c").mutation := by
  refine ⟨by decide +kernel, by decide +kernel, nofun, by decide +kernel, ?_⟩
  rintro ⟨-, -, outcomes, st₁, hloop, pushed, st₂, hpushed, haccepted⟩
  obtain rfl : sampleServer = st₁ := (Prod.mk.inj hloop).2
  have hrejected : (sampleServer.pushMutation .default (sampleScopePush "c")
      (sampleScopedEntry "c").mutation).1 =
        .ok ⟨none, true, ⟨.reject, "cross_tenant_or_namespace_mutation"⟩⟩ := by decide +kernel
  rw [hpushed] at hrejected
  rw [Except.ok.inj hrejected] at haccepted
  exact haccepted rfl

end
end Rango
