import Rango.Core.ApplyTheorems
import Rango.Server.IsolationTheorems

/-!
# Where the server and the engine agree

The server checks a mutation before it stores it, the engine checks it again before it applies it,
and the two were written separately. `apply_pulled_iff`: what the server hands out may lack an
`_id`, and the engine stops there. `apply_stored_iff`: the server tells write ids apart by tenant
and namespace, the engine does not.
-/

namespace Rango

open ServerState (withControlPlane)
open RangoEngine (CanonicalLe)

section
variable {ω ω' η σ : Type} [LogOplog ω] [Formatting] [Surroundings] [Arithmetic] [MapStorage σ]
  {cp : ControlPlane η} {oplog : ω} {hooks : η} {tick : ℕ} {events : List (ServerEvent η)}

/-! ## What a pull hands out -/

/-- What a pull returns has valid metadata, in every run from an empty log. -/
lemma pulled_valid (hempty : toEntries oplog = []) {req : PullRequest}
    {principal : AuthPrincipal} {readTier : MemoryTier} {resp : PullResponse}
    {st' : ServerState ω η}
    (hpull : ((withControlPlane oplog hooks tick).run cp events).processPull cp req principal
      readTier = (.ok resp, st')) {m : Mutation} (hm : m ∈ resp.mutations) :
    m.validateMetadata = .ok () := by
  obtain ⟨-, e, he, -, -, rfl⟩ := ServerState.mem_processPull hpull hm
  have hvalid := ServerState.run_valid cp hempty hooks tick events he
  rw [Mutation.validateMetadata, annotateMutationForReadTier_metadata]
  exact hvalid

/-- **What the server hands out.** In every run from an empty log, an engine applies the mutations
of a pull without an error exactly when each of them that has no `_id` carries a write id that the
engine has recorded, or that an earlier one of the sorted batch carries. -/
theorem apply_pulled_iff (hempty : toEntries oplog = []) {req : PullRequest}
    {principal : AuthPrincipal} {readTier : MemoryTier} {resp : PullResponse}
    {st' : ServerState ω η}
    (hpull : ((withControlPlane oplog hooks tick).run cp events).processPull cp req principal
      readTier = (.ok resp, st')) (e : RangoEngine σ ω') (default : CollectionName) :
    (e.applyMutationsDeterministic default resp.mutations).1.isOk = true ↔
      ∀ pre m post, resp.mutations.insertionSort CanonicalLe = pre ++ m :: post →
        m.target = none →
        m.writeId ≠ "" ∧
          (m.writeId ∈ e.appliedWriteIds ∨ m.writeId ∈ pre.map Mutation.writeId) := by
  rw [RangoEngine.applyMutationsDeterministic_isOk_iff]
  refine forall₃_congr fun pre m post => forall_congr' fun hsplit => ?_
  have hm : m ∈ resp.mutations := by
    rw [← List.mem_insertionSort CanonicalLe, hsplit]
    exact List.mem_append_right _ List.mem_cons_self
  have hvalid := pulled_valid hempty hpull hm
  rw [Passes, and_iff_right hvalid]
  cases m.target with
  | none => simp
  | some b => simp

/-! ## Duplicates -/

/-- The engine applies both mutations when it is given them in one batch, and when it is given
them one after the other. -/
structure AppliesBoth (default : CollectionName) (e : RangoEngine σ ω') (m m' : Mutation) :
    Prop where
  together : (e.applyMutationsDeterministic default [m, m']).1 = .ok 2
  first : (e.applyMutationsDeterministic default [m]).1 = .ok 1
  second : ((e.applyMutationsDeterministic default [m]).2.applyMutationsDeterministic default
    [m']).1 = .ok 1

omit [LogOplog ω] [Surroundings] [Arithmetic] in
/-- What an engine has recorded after it applied a single mutation. -/
lemma mem_applied_one {e : RangoEngine σ ω'} {default : CollectionName} {m : Mutation}
    (hval : m.validateMetadata = .ok ()) (htarget : m.target.isSome)
    (hnew : m.writeId ∉ e.appliedWriteIds) (w : String) :
    w ∈ (e.applyMutationsDeterministic default [m]).2.appliedWriteIds ↔
      (w ≠ "" ∧ w = m.writeId) ∨ w ∈ e.appliedWriteIds := by
  have hfresh : ¬ (m.writeId ≠ "" ∧ m.writeId ∈ e.appliedWriteIds) := fun h => hnew h.2
  have hids := (RangoEngine.applyMutationsDeterministic_eq e default [m]).2.ids
  have hsorted : [m].insertionSort CanonicalLe = [m] := rfl
  rw [hsorted, plan_cons_keep ⟨hval, htarget⟩ hfresh] at hids
  rw [hids]
  exact mem_record

omit [LogOplog ω] [Surroundings] [Arithmetic] in
/-- An engine applies one valid mutation with a write id exactly when that has an `_id` and is not
recorded. -/
lemma applies_one_iff {e : RangoEngine σ ω'} {default : CollectionName} {m : Mutation}
    (hval : m.validateMetadata = .ok ()) (hne : m.writeId ≠ "") :
    (e.applyMutationsDeterministic default [m]).1 = .ok 1 ↔
      m.target.isSome ∧ m.writeId ∉ e.appliedWriteIds := by
  have hone : (e.applyMutationsDeterministic default [m]).1 = .ok [m].length ↔ _ :=
    e.applyMutationsDeterministic_all_iff default (by simpa using hval) (by simpa using hne)
  simpa using hone

/-- **Duplicates.** Of two entries that the server stores, both with a write id, an engine applies
both, in one batch and in two, exactly when the two write ids differ, the engine has recorded
neither, and both mutations have an `_id`. The tenants and namespaces have no part in it. -/
theorem apply_stored_iff (hempty : toEntries oplog = []) {a b : OplogEntry}
    (ha : a ∈ toEntries ((withControlPlane oplog hooks tick).run cp events).oplog)
    (hb : b ∈ toEntries ((withControlPlane oplog hooks tick).run cp events).oplog)
    (hane : a.mutation.writeId ≠ "") (hbne : b.mutation.writeId ≠ "") (e : RangoEngine σ ω')
    (default : CollectionName) :
    AppliesBoth default e a.mutation b.mutation ↔
      a.mutation.writeId ≠ b.mutation.writeId ∧
        (a.mutation.writeId ∉ e.appliedWriteIds ∧ b.mutation.writeId ∉ e.appliedWriteIds) ∧
        a.mutation.target.isSome ∧ b.mutation.target.isSome := by
  have hva := ServerState.run_valid cp hempty hooks tick events ha
  have hvb := ServerState.run_valid cp hempty hooks tick events hb
  constructor
  · rintro ⟨-, hfirst, hsecond⟩
    obtain ⟨hatarget, hanew⟩ := (applies_one_iff hva hane).mp hfirst
    obtain ⟨hbtarget, hbnew⟩ := (applies_one_iff hvb hbne).mp hsecond
    rw [mem_applied_one hva hatarget hanew, not_or, not_and] at hbnew
    exact ⟨fun heq => hbnew.1 hbne heq.symm, ⟨hanew, hbnew.2⟩, hatarget, hbtarget⟩
  · rintro ⟨hdiff, ⟨hanew, hbnew⟩, hatarget, hbtarget⟩
    refine ⟨?_, (applies_one_iff hva hane).mpr ⟨hatarget, hanew⟩, ?_⟩
    · have hboth : (e.applyMutationsDeterministic default [a.mutation, b.mutation]).1 =
          .ok [a.mutation, b.mutation].length ↔ _ :=
        e.applyMutationsDeterministic_all_iff default (by simp [hva, hvb]) (by simp [hane, hbne])
      exact hboth.mpr (by simp [hdiff, hanew, hbnew, hatarget, hbtarget])
    · refine (applies_one_iff hvb hbne).mpr ⟨hbtarget, ?_⟩
      rw [mem_applied_one hva hatarget hanew, not_or, not_and]
      exact ⟨fun _ heq => hdiff heq.symm, hbnew⟩

end

/-! ## Two requests and an engine -/

section
attribute [local instance] Formatting.sample Surroundings.sample Arithmetic.sample

/-- A new engine. -/
def sampleApplier : RangoEngine MemoryStorage NullOplog := .openEngine MemoryStorage.new ⟨0⟩ "a"

/-- An insert into a namespace of tenant `"tenant"`. -/
def sampleTwin (nameSpace id writeId : String) : Mutation :=
  .sample nameSpace "tenant" id .insert (some ⟨[("_id", .string id)]⟩) 1 "1-0-aaaa" writeId

/-- Two inserts that were pushed are pulled and applied. -/
theorem apply_pulled_iff_sample :
    (sampleApplier.applyMutationsDeterministic ⟨"c"⟩
      [sampleTwin "c" "d" "w1", sampleTwin "c" "e" "w2"]).1.isOk = true := by
  have hpull : ((sampleServer.run ControlPlane.default
      [.push (samplePush [sampleTwin "c" "d" "w1", sampleTwin "c" "e" "w2"])
        samplePrincipal]).processPull
      ControlPlane.default samplePull samplePrincipal .state).1 =
        .ok ⟨[sampleTwin "c" "d" "w1", sampleTwin "c" "e" "w2"], 4,
          [⟨.allow, "retrieval_allowed"⟩]⟩ := by decide +kernel
  refine (apply_pulled_iff MemLog.toEntries_new (Prod.fst_eq_iff.mp hpull) sampleApplier
    ⟨"c"⟩).mpr fun pre m post hsplit htarget => ?_
  have hm : m ∈ [sampleTwin "c" "d" "w1", sampleTwin "c" "e" "w2"] := by
    apply (List.mem_insertionSort CanonicalLe).mp
    rw [show List.insertionSort CanonicalLe _ = pre ++ m :: post from hsplit]
    exact List.mem_append_right _ List.mem_cons_self
  simp only [List.mem_cons, List.not_mem_nil, or_false] at hm
  rcases hm with rfl | rfl
  · cases htarget
  · cases htarget

/-- An update whose patch names the changed field alone. -/
def sampleIdless : Mutation :=
  .sample "c" "tenant" "a" .update (some ⟨[("v", .int32 1)]⟩) 1 "1-0-aaaa" "w0"

/-- The server stores it and hands it out; the engine stops there, and does not apply the insert
behind it. -/
theorem pulled_not_applied :
    (sampleServer.processPush ControlPlane.default (samplePush [sampleIdless, sampleClientInsert])
        samplePrincipal).1 =
        .ok ⟨[2, 4], 4, 0, 0, [⟨.allow, "trust_score:1.00"⟩, ⟨.allow, "trust_score:1.00"⟩]⟩ ∧
      ((sampleServer.run ControlPlane.default
        [.push (samplePush [sampleIdless, sampleClientInsert]) samplePrincipal]).processPull
          ControlPlane.default samplePull samplePrincipal .state).1 =
        .ok ⟨[sampleIdless, sampleClientInsert], 4, [⟨.allow, "retrieval_allowed"⟩]⟩ ∧
      (sampleApplier.applyMutationsDeterministic ⟨"c"⟩ [sampleIdless, sampleClientInsert]).1 =
        .error (.documentNotFound "missing _id") ∧
      docMap (sampleApplier.applyMutationsDeterministic ⟨"c"⟩
        [sampleIdless, sampleClientInsert]).2.storage ⟨"c"⟩ "\"d\"" = none := by
  decide +kernel

/-- A server to which two such inserts were pushed, in two namespaces. -/
def sampleTwins (writeId writeId' : String) : ServerState MemLog Unit :=
  sampleServer.run ControlPlane.default
    [.push ⟨"node", "tenant", "c", [sampleTwin "c" "d" writeId], 0⟩ samplePrincipal,
      .push ⟨"node", "tenant", "n", [sampleTwin "n" "e" writeId'], 0⟩ samplePrincipal]

/-- With a write id each, both are applied. -/
theorem apply_stored_iff_sample :
    AppliesBoth ⟨"c"⟩ sampleApplier (sampleTwin "c" "d" "w1") (sampleTwin "n" "e" "w2") := by
  obtain ⟨a, ha, hma⟩ : ∃ a ∈ toEntries (sampleTwins "w1" "w2").oplog,
      a.mutation = sampleTwin "c" "d" "w1" := by decide +kernel
  obtain ⟨b, hb, hmb⟩ : ∃ b ∈ toEntries (sampleTwins "w1" "w2").oplog,
      b.mutation = sampleTwin "n" "e" "w2" := by decide +kernel
  have happlies := apply_stored_iff MemLog.toEntries_new ha hb (by rw [hma]; decide)
    (by rw [hmb]; decide) sampleApplier ⟨"c"⟩
  rw [hma, hmb] at happlies
  exact happlies.mpr ⟨by decide, ⟨List.not_mem_nil, List.not_mem_nil⟩, rfl, rfl⟩

/-- With one write id, the server stores both, since their namespaces differ, and the engine drops
the second. -/
theorem stored_twin_dropped :
    (∃ a ∈ toEntries (sampleTwins "w1" "w1").oplog, a.mutation = sampleTwin "c" "d" "w1") ∧
      (∃ b ∈ toEntries (sampleTwins "w1" "w1").oplog, b.mutation = sampleTwin "n" "e" "w1") ∧
      writeKey (sampleTwin "c" "d" "w1") ≠ writeKey (sampleTwin "n" "e" "w1") ∧
      sampleApplier.appliedWriteIds = [] ∧
      (sampleApplier.applyMutationsDeterministic ⟨"c"⟩
        [sampleTwin "c" "d" "w1", sampleTwin "n" "e" "w1"]).1 = .ok 1 ∧
      docMap (sampleApplier.applyMutationsDeterministic ⟨"c"⟩
        [sampleTwin "c" "d" "w1", sampleTwin "n" "e" "w1"]).2.storage ⟨"n"⟩ "\"e\"" = none ∧
      ¬ AppliesBoth ⟨"c"⟩ sampleApplier (sampleTwin "c" "d" "w1") (sampleTwin "n" "e" "w1") := by
  have hone : (sampleApplier.applyMutationsDeterministic ⟨"c"⟩
      [sampleTwin "c" "d" "w1", sampleTwin "n" "e" "w1"]).1 = .ok 1 := by decide +kernel
  refine ⟨by decide +kernel, by decide +kernel, by decide, rfl, hone, by decide +kernel, ?_⟩
  intro h
  rw [h.together] at hone
  cases Except.ok.inj hone

end
end Rango
