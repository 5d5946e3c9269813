import Rango.Server.IndexTheorems
import Rango.Server.IsolationTheorems
import Rango.Server.AcceptanceTheorems

/-!
# Mutations that are sent again

A response gives a number for each mutation it accepts. Behind every such number stands an indexed
entry with the mutation's key (`accepted_stored`), and a key has one entry, so a mutation that is
accepted again gets its number again, also after restarts (`run_tracksLog`). Mutations that a
client sends to the audit collection are the exception: these are not indexed.
-/

namespace Rango

namespace ServerState

section
variable {ω η : Type} [LogOplog ω]

/-- An indexed entry has the key of the mutation, and the number. -/
def Stored (st : ServerState ω η) (m : Mutation) (s : ℕ) : Prop :=
  ∃ e ∈ toEntries st.oplog, e.Indexable ∧ writeKey e.mutation = writeKey m ∧ e.seq = s

variable {st st' : ServerState ω η} {m m' : Mutation} {s s' : ℕ}

lemma Stored.mono {P : Mutation → Prop} (h : st.Stored m s) (hext : Extends P st st') :
    st'.Stored m s := by
  obtain ⟨e, he, hrest⟩ := h
  exact ⟨e, hext.mono he, hrest⟩

lemma Stored.unique (h : st.Stored m s) (h' : st.Stored m' s')
    (hkeys : KeysUnique (toEntries st.oplog)) (hkey : writeKey m = writeKey m') : s = s' := by
  obtain ⟨e, he, hix, hem, rfl⟩ := h
  obtain ⟨e', he', hix', hem', rfl⟩ := h'
  rw [hkeys.eq he he' hix hix' (hem.trans (hkey.trans hem'.symm))]

end

/-! ## Accepted mutations -/

section
variable {ω η : Type} [Formatting] [Surroundings] [Oplog ω] (cp : ControlPlane η)

/-- The mutations that the response to an event accepts, with their numbers. -/
def accepted (st : ServerState ω η) : ServerEvent η → List (Mutation × ℕ)
  | .push req principal =>
    if req.nodeId ≠ principal.nodeId ∨ req.tenantId ≠ principal.tenantId then []
    else
      match (pushLoop cp st req req.mutations).1 with
      | .error _ => []
      | .ok outcomes =>
        (req.mutations.zip outcomes).filterMap fun p => p.2.accepted.map fun s => (p.1, s)
  | .promote req principal =>
    match (st.processPromote cp req principal).1 with
    | .error _ => []
    | .ok resp => resp.acceptedSeqs.map fun s => (req.mutation, s)
  | _ => []

/-- The same for a run. -/
def runAccepted [Arithmetic] (st : ServerState ω η) : List (ServerEvent η) → List (Mutation × ℕ)
  | [] => []
  | ev :: rest => st.accepted cp ev ++ runAccepted (st.step cp ev) rest

end

section
variable {ω η : Type} [Formatting] [Surroundings] [LogOplog ω] {cp : ControlPlane η}
  {st st' : ServerState ω η}

omit [Formatting] in
/-- The number that `append_mutation` returns is that of an entry with the mutation's key. -/
lemma appendMutation_stored (h : st.Indexed) {m : Mutation} (hm : m.collection ≠ auditCollection)
    {tenantId nameSpace : String} {s : ℕ}
    (hout : st.appendMutation m tenantId nameSpace = (.ok s, st')) : st'.Stored m s := by
  rcases appendMutation_cases hout with ⟨hkey, rfl⟩ | ⟨-, e, hentries, rfl, hs⟩
  · exact (h.reflects.writeIds _ _).mp hkey
  · rw [Stored, hentries]
    exact ⟨e, List.mem_append_right _ (List.mem_singleton_self e), hm, rfl, hs⟩

/-- The same for one mutation of a push. -/
lemma pushMutation_stored (h : st.Indexed) {req : PushRequest} {m : Mutation}
    (hm : m.collection ≠ auditCollection) {pushed : Pushed} {s : ℕ}
    (hout : st.pushMutation cp req m = (.ok pushed, st')) (hs : pushed.accepted = some s) :
    st'.Stored m s := by
  have htakes := takes_of_pushMutation hout hs
  have hsame : SameLog st (st.decisionOn cp req m).2 := ⟨rfl, rfl, rfl⟩
  have hindexed : (st.decided cp req m).Indexed :=
    (h.sameLog hsame).grows (settle_grows (P := fun _ => True) (fun _ _ _ _ _ _ => trivial)
      (st.decisionOn cp req m).2 "write" (some m.writeId) (st.decisionOn cp req m).1)
  exact appendMutation_stored hindexed hm htakes.appended

/-- The same for the mutations of a push. -/
lemma pushLoop_stored (h : st.Indexed) {req : PushRequest} {ms : List Mutation}
    {outcomes : List Pushed} (hout : pushLoop cp st req ms = (.ok outcomes, st')) {m : Mutation}
    {pushed : Pushed} (hmem : (m, pushed) ∈ ms.zip outcomes)
    (hm : m.collection ≠ auditCollection) {s : ℕ} (hs : pushed.accepted = some s) :
    st'.Stored m s := by
  induction ms generalizing st outcomes with
  | nil => simp at hmem
  | cons m₁ rest ih =>
    have hfirst : Grows (fun _ => True) st (st.pushMutation cp req m₁).2 :=
      pushMutation_grows cp (fun _ _ _ _ _ _ => trivial) (fun _ => trivial) st
    simp only [pushLoop] at hout
    split at hout
    · cases (Prod.mk.inj hout).1
    · next pushed₁ st₁ hpush =>
      rw [hpush] at hfirst
      have hrest : Grows (fun _ => True) st₁ (pushLoop cp st₁ req rest).2 :=
        pushLoop_grows cp (fun _ _ _ _ _ _ => trivial) (fun _ _ _ => trivial) st₁
      split at hout
      · cases (Prod.mk.inj hout).1
      · next outcomes₁ st₂ hloop =>
        obtain ⟨houtcomes, rfl⟩ := Prod.mk.inj hout
        rw [hloop] at hrest
        rw [← Except.ok.inj houtcomes, List.zip_cons_cons] at hmem
        rcases List.mem_cons.mp hmem with heq | hmem
        · obtain ⟨rfl, rfl⟩ := Prod.mk.inj heq
          exact (pushMutation_stored h hm hpush hs).mono hrest.extends
        · exact ih (h.grows hfirst) hloop hmem

/-- The same for a promotion. -/
lemma processPromote_stored (h : st.Indexed) {req : PromoteRequest} {principal : AuthPrincipal}
    {resp : PromoteResponse} (hout : st.processPromote cp req principal = (.ok resp, st'))
    (hm : req.mutation.collection ≠ auditCollection) {s : ℕ} (hs : s ∈ resp.acceptedSeqs) :
    st'.Stored req.mutation s := by
  have hpromotes := promotes_of_processPromote hout hs
  have hindexed : ((st.promotionDecision cp req (promotionRequest req)).2.settle "promotion"
      req.tenantId req.nameSpace (some req.mutation.writeId)
        (st.promotionDecision cp req (promotionRequest req)).1).Indexed :=
    (h.sameLog (promotionDecision_sameLog cp st req (promotionRequest req))).grows
      (settle_grows (P := fun _ => True) (fun _ _ _ _ _ _ => trivial) _ "promotion"
        (some req.mutation.writeId) _)
  exact appendMutation_stored hindexed hm hpromotes.appended

variable [Arithmetic]

/-- **Behind every number is an entry.** What an event's response accepts outside the audit
collection is stored under the mutation's key with the number of the response. -/
theorem accepted_stored (h : st.Indexed) {ev : ServerEvent η} {p : Mutation × ℕ}
    (hp : p ∈ st.accepted cp ev) (hm : p.1.collection ≠ auditCollection) :
    (st.step cp ev).Stored p.1 p.2 := by
  cases ev with
  | push req principal =>
    simp only [accepted] at hp
    split_ifs at hp with hprincipal
    · cases hp
    · cases hloop : pushLoop cp st req req.mutations with
      | mk result st₁ =>
        rw [hloop] at hp
        cases result with
        | error fault => cases hp
        | ok outcomes =>
          obtain ⟨⟨m, pushed⟩, hmem, heq⟩ := List.mem_filterMap.mp hp
          obtain ⟨s, hs, rfl⟩ := Option.map_eq_some_iff.mp heq
          have hstored := pushLoop_stored h hloop hmem hm hs
          rw [not_or, not_not, not_not] at hprincipal
          have hstep : st.step cp (.push req principal) = st₁ := by
            rw [step, processPush, if_neg (not_not.mpr hprincipal.1),
              if_neg (not_not.mpr hprincipal.2), hloop]
          rw [hstep]
          exact hstored
  | promote req principal =>
    simp only [accepted] at hp
    cases hout : st.processPromote cp req principal with
    | mk result st₁ =>
      rw [hout] at hp
      cases result with
      | error fault => cases hp
      | ok resp =>
        obtain ⟨s, hs, rfl⟩ := List.mem_map.mp hp
        rw [step, hout]
        exact processPromote_stored h hout hm hs
  | pull req principal readTier => cases hp
  | retrieve req principal => cases hp
  | restart hooks => cases hp

end

/-! ## Runs -/

section
variable {ω η : Type} [Formatting] [Surroundings] [ReadableOplog ω] [Arithmetic]
  {cp : ControlPlane η}

/-- What was accepted in the course of a run is stored at its end. -/
lemma runAccepted_stored {st : ServerState ω η} (h : st.Indexed) {events : List (ServerEvent η)}
    {p : Mutation × ℕ} (hp : p ∈ st.runAccepted cp events)
    (hm : p.1.collection ≠ auditCollection) : (st.run cp events).Stored p.1 p.2 := by
  induction events generalizing st with
  | nil => cases hp
  | cons ev rest ih =>
    rcases List.mem_append.mp hp with hp | hp
    · have hrest : Extends (fun _ => True) (st.step cp ev) ((st.step cp ev).run cp rest) :=
        run_extends cp (fun _ _ _ _ _ _ _ _ => trivial) (fun _ _ _ _ => trivial) _
      exact (accepted_stored h hp hm).mono hrest
    · exact ih (step_indexed cp h ev) hp

/-- A state that keeps track of its log, where `answers` lists the accepted mutations: the
checkpoint of a scope is the greatest number of its entries, the index of write ids holds the keys
of the entries, each of which has one, a restart would build the same two indexes, and a key gets
one number only. Entries and mutations of the audit collection do not count. -/
structure TracksLog (st : ServerState ω η) (answers : List (Mutation × ℕ)) : Prop where
  checkpoint : ∀ tenantId nameSpace,
    (∀ e ∈ toEntries st.oplog, e.Indexable → scopeOf e.mutation = (tenantId, nameSpace) →
      e.seq ≤ st.scopedLatestCheckpoint tenantId nameSpace) ∧
    ((∃ e ∈ toEntries st.oplog, e.Indexable ∧ scopeOf e.mutation = (tenantId, nameSpace) ∧
        e.seq = st.scopedLatestCheckpoint tenantId nameSpace) ∨
      (∀ e ∈ toEntries st.oplog, e.Indexable → scopeOf e.mutation ≠ (tenantId, nameSpace)) ∧
        st.scopedLatestCheckpoint tenantId nameSpace = 0)
  writeIds : ∀ key s, st.scopedWriteIds key = some s ↔
    ∃ e ∈ toEntries st.oplog, e.Indexable ∧ writeKey e.mutation = key ∧ e.seq = s
  unique : ∀ e ∈ toEntries st.oplog, ∀ e' ∈ toEntries st.oplog, e.Indexable → e'.Indexable →
    writeKey e.mutation = writeKey e'.mutation → e = e'
  rebuilt : ∀ hooks tick,
    st.scopedLatest = (withControlPlane st.oplog hooks tick : ServerState ω η).scopedLatest ∧
      st.scopedWriteIds = (withControlPlane st.oplog hooks tick : ServerState ω η).scopedWriteIds
  resubmitted : ∀ p ∈ answers, ∀ q ∈ answers, p.1.collection ≠ auditCollection →
    q.1.collection ≠ auditCollection → writeKey p.1 = writeKey q.1 → p.2 = q.2

/-- **The indexes are those of the log.** In every run of a server on an empty log that can be
read, with any hooks, after every event, restarts included. -/
theorem run_tracksLog (cp : ControlPlane η) {w : ω} (hempty : toEntries w = []) (hooks : η)
    (tick : ℕ) (events : List (ServerEvent η)) :
    ((withControlPlane w hooks tick).run cp events).TracksLog
      ((withControlPlane w hooks tick).runAccepted cp events) := by
  have hstart : (withControlPlane w hooks tick : ServerState ω η).Indexed :=
    run_indexed cp hempty hooks tick []
  have hindexed := run_indexed cp hempty hooks tick events
  refine ⟨hindexed.scopedLatestCheckpoint, hindexed.reflects.writeIds, ?_, ?_, ?_⟩
  · intro e he e' he' hix hix' hkey
    exact hindexed.keys.eq he he' hix hix' hkey
  · intro hooks' tick'
    have hrebuilt := (withControlPlane_indexed hindexed.keys hooks' tick').reflects
    rw [withControlPlane_oplog] at hrebuilt
    exact hindexed.reflects.unique hrebuilt
  · intro p hp q hq hpm hqm hkey
    have hstored := runAccepted_stored hstart hp hpm
    have hstored' := runAccepted_stored hstart hq hqm
    exact hstored.unique hstored' hindexed.keys hkey

end
end ServerState

section
attribute [local instance] Formatting.sample Surroundings.sample Arithmetic.sample

/-- The same push before and after a restart. -/
def sampleRetryEvents (m : Mutation) : List (ServerEvent Unit) :=
  [.push (samplePush [m]) samplePrincipal, .restart (),
    .push (samplePush [m]) samplePrincipal]

/-- The state after the run of `sampleClientInsert`. -/
theorem ServerState.run_tracksLog_sample :
    (sampleServer.run ControlPlane.default (sampleRetryEvents sampleClientInsert)).TracksLog
      (sampleServer.runAccepted ControlPlane.default (sampleRetryEvents sampleClientInsert)) :=
  run_tracksLog ControlPlane.default MemLog.toEntries_new () 0
    (sampleRetryEvents sampleClientInsert)

example : sampleServer.runAccepted ControlPlane.default (sampleRetryEvents sampleClientInsert) =
    [(sampleClientInsert, 2), (sampleClientInsert, 2)] := by decide +kernel

/-- A client's insert into the audit collection. -/
def sampleAuditInsert : Mutation :=
  { sampleClientInsert with collection := auditCollection }

/-- It is accepted under a new number each time. -/
theorem audit_collection_renumbered :
    sampleServer.runAccepted ControlPlane.default (sampleRetryEvents sampleAuditInsert) =
      [(sampleAuditInsert, 2), (sampleAuditInsert, 4)] := by decide +kernel

end
end Rango
