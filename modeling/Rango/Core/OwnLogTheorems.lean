import Rango.Core.HistoryTheorems
import Rango.Core.RollbackTheorems
import Rango.Oplog.FileLog

/-!
# Rolling back along the engine's own log

A local write reports a mutation with `seq` zero; the number that it gets in the log is the
entry's. A rollback cuts its window at `mutation.seq`, so a window read from the engine's own log
passes as a whole, whatever the target. `rollback_own_log_iff` says where that rollback lands.
-/

namespace Rango

/-! ## Documents under their ids -/

section
variable [Formatting]

/-- The last of the documents that carries the printed id. -/
def lastWith (docs : List Document) (k : String) : Option Document :=
  (docs.filter fun d => d.printedId = some k).getLast?

/-- What a reader sees of a place: nothing of a deleted document, and no `_conflicts`. -/
def shown (found : Option Document) : Option Document :=
  (found.filter fun d => !isDeleted d).map (·.remove "_conflicts")

lemma lastWith_append (docs docs' : List Document) (k : String) :
    lastWith (docs ++ docs') k = (lastWith docs' k).or (lastWith docs k) := by
  rw [lastWith, List.filter_append, List.getLast?_append]
  rfl

lemma mem_of_lastWith {docs : List Document} {k : String} {d : Document}
    (h : lastWith docs k = some d) : d ∈ docs ∧ d.printedId = some k := by
  have hmem := List.mem_of_getLast? h
  rw [List.mem_filter, decide_eq_true_eq] at hmem
  exact hmem

lemma shown_eq_visible (found : Option Document) :
    shown found = Register.visible (found.map version) := by
  cases found with
  | none => rfl
  | some d =>
    cases hdel : isDeleted d with
    | false => simp [shown, version, hdel]
    | true => simp [shown, version, hdel]

/-- A place of the map after the listed documents were put to their own ids. -/
lemma placeAll_some_apply (c : CollectionName) (D : DocMap) (docs : List Document) (k : String) :
    placeAll c some D docs c k = (lastWith docs k).or (D c k) := by
  induction docs using List.reverseRecOn with
  | nil => rfl
  | append_singleton docs d ih =>
    have hlast : placeAll c some D (docs ++ [d]) =
        placeAll c some (placeAll c some D docs) [d] := List.foldl_append
    rw [hlast, lastWith_append]
    by_cases hd : d.printedId = some k
    · have hwith : lastWith [d] k = some d := by simp [lastWith, hd]
      rw [placeAll_cons_some c some _ hd, hwith]
      exact DocMap.set_self _ _ _ _
    · have hwith : lastWith [d] k = none := by simp [lastWith, hd]
      have hone : ∀ x ∈ [d], x.printedId ≠ some k := by
        intro x hx
        rw [List.mem_singleton.mp hx]
        exact hd
      rw [placeAll_of_not_mem c some hone, ih, hwith]
      rfl

/-- On a new engine a restore starts from the documents of the snapshot alone. -/
lemma restored_empty (c : CollectionName) (state : List Document) :
    restored DocMap.empty c state = placeAll c some DocMap.empty state := by
  have hcleared : cleared DocMap.empty c = DocMap.empty := by
    funext c' k
    rw [cleared]
    exact ite_self _
  rw [restored, hcleared]

/-! ## Writes to one collection -/

/-- Local writes to a collection, each at a later time and under a later revision than those
before it. -/
structure OwnWrites (nodeId : String) (c : CollectionName) (steps : List EngineStep) : Prop where
  collection : ∀ s ∈ steps, s.collection = c
  clocked : ∀ s ∈ steps, ∃ t, s.clock = some t ∧ t.revisionMs < 2 ^ 64 ∧
    t.revisionCounter < 2 ^ 16
  later : steps.Pairwise fun a b => ∀ t ∈ a.clock, ∀ t' ∈ b.clock,
    t.mutationAt < t'.mutationAt ∧ (t.revision nodeId).key < (t'.revision nodeId).key

lemma OwnWrites.sublist {nodeId : String} {c : CollectionName} {steps steps' : List EngineStep}
    (h : OwnWrites nodeId c steps) (hsub : steps'.Sublist steps) : OwnWrites nodeId c steps' where
  collection x hx := h.collection x (hsub.subset hx)
  clocked x hx := h.clocked x (hsub.subset hx)
  later := h.later.sublist hsub

lemma OwnWrites.tail {nodeId : String} {c : CollectionName} {s : EngineStep}
    {rest : List EngineStep} (h : OwnWrites nodeId c (s :: rest)) : OwnWrites nodeId c rest :=
  h.sublist (List.sublist_cons_self s rest)

lemma OwnWrites.laterRun {nodeId : String} {c : CollectionName} {steps : List EngineStep}
    (h : OwnWrites nodeId c steps) (hkeep : ∀ s ∈ steps, s.KeepsIds) : LaterRun nodeId steps where
  keepsIds := hkeep
  clocked := h.clocked
  later := h.later.imp fun hab t ht t' ht' => (hab t ht t' ht').2

/-- A mutation as a local write to the collection reports it. -/
structure Mutation.Own (c : CollectionName) (m : Mutation) : Prop where
  metadata : m.validateMetadata = .ok ()
  collection : m.collection = c.name
  named : c.name ≠ ""
  seq : m.seq = 0
  rev : Revision.fromStr m.rev.text = .ok m.rev
  patch_rev : ∀ doc ∈ m.patch, doc.get "_rev" = some (.string m.rev.text)

omit [Formatting] in
/-- It is replayed into that collection. -/
lemma Mutation.Own.mutationCollection_eq {c : CollectionName} {m : Mutation} (h : m.Own c)
    (default : CollectionName) : RangoEngine.mutationCollection default m = c := by
  rw [RangoEngine.mutationCollection, h.collection, if_neg h.named]

namespace RangoEngine

variable {σ ω : Type} [MapStorage σ] [CountingOplog ω]

/-- What a local write that reaches the log has done: its document is in its collection, and its
mutation is the next entry. -/
structure Appended (c : CollectionName) (e e' : RangoEngine σ ω) (m : Mutation)
    (t : WriteClock) : Prop where
  nodeId : e'.nodeId = e.nodeId
  own : m.Own c
  rev : m.rev = t.revision e.nodeId
  timestamp : m.timestamp = t.mutationAt
  counter : CountingOplog.counter e'.oplog = CountingOplog.counter e.oplog + 1
  entry : toEntries e'.oplog =
    toEntries e.oplog ++ [(localEntry m t).withSeq (CountingOplog.counter e.oplog + 1)]
  docs : ∃ k d, docMap e'.storage = (docMap e.storage).set c k (some d) ∧ docRevision d = m.rev

variable [MutationHasher] [BsonCodec] [Arithmetic]

omit [CountingOplog ω] [BsonCodec] in
/-- What the mutation of a planned write is. -/
lemma Plans.reports {e : RangoEngine σ ω} {s : EngineStep} {w : Write} {t : WriteClock}
    (h : Plans e s w) (hclock : s.clock = some t) :
    w.clock = t ∧ w.collection = s.collection ∧
      w.doc.get "_rev" = some (.string (t.revision e.nodeId).text) ∧
      ∃ op patch, w.mutation =
          e.localMutation op s.collection w.id patch (t.revision e.nodeId) t ∧
        ∀ doc ∈ patch, doc.get "_rev" = some (.string (t.revision e.nodeId).text) := by
  have hpatch : ∀ {d : Document}, d.get "_rev" = some (.string (t.revision e.nodeId).text) →
      ∀ doc ∈ some d, doc.get "_rev" = some (.string (t.revision e.nodeId).text) := by
    intro d hd doc hdoc
    rw [← Option.some.inj hdoc]
    exact hd
  cases h with
  | insert c doc t' =>
    obtain rfl : t' = t := Option.some.inj hclock
    have hrev : (e.insertWrite c doc t').doc.get "_rev" =
        some (.string (t'.revision e.nodeId).text) := by
      show Document.get (Document.remove _ _) _ = _
      rw [Document.get_remove_of_ne _ (by decide), stamp_rev]
    exact ⟨rfl, rfl, hrev, .insert, _, rfl, hpatch hrev⟩
  | @update c id update t' old new hold hnew =>
    obtain rfl : t' = t := Option.some.inj hclock
    have hrev : (e.updateWrite c id new t').doc.get "_rev" =
        some (.string (t'.revision e.nodeId).text) := stamp_rev _ _ _ _
    exact ⟨rfl, rfl, hrev, .update, _, rfl, hpatch hrev⟩
  | @delete c id t' old hold =>
    obtain rfl : t' = t := Option.some.inj hclock
    exact ⟨rfl, rfl, stamp_rev _ _ _ _, .delete, none, rfl, nofun⟩

/-- The call reached the log. -/
def Wrote (e : RangoEngine σ ω) (s : EngineStep) : Prop :=
  toEntries (e.step s).oplog ≠ toEntries e.oplog

/-- A local write that reached the log has put its document and appended its mutation. -/
lemma Wrote.commit {e : RangoEngine σ ω} {s : EngineStep} (h : Wrote e s)
    (hclock : s.clock.isSome) : e.returns s = true ∧
      ∃ w, Plans e s w ∧ (e.commit w).1 = .ok () ∧ e.step s = (e.commit w).2 := by
  obtain ⟨hreturns, hstep⟩ := attempt_eq e hclock
  unfold Wrote at h
  rw [hstep] at h
  rw [hreturns, hstep]
  cases hplan : e.planned s with
  | none =>
    rw [attempt_of_planned_none hplan, look_eq] at h
    exact absurd rfl h
  | some w =>
    rw [attempt_of_planned hplan, look_eq] at h ⊢
    -- a commit that fails would have left the log alone
    have hok : (e.commit w).1 = .ok () := by
      by_contra hne
      exact h ((commit_spec e w).2 hne).1
    refine ⟨?_, w, plans_of_planned hplan, hok, rfl⟩
    rw [hok]
    rfl

theorem step_appended {e : RangoEngine σ ω} {s : EngineStep} {t : WriteClock}
    (hclock : s.clock = some t) (hms : t.revisionMs < 2 ^ 64)
    (hcounter : t.revisionCounter < 2 ^ 16) (hwrote : Wrote e s) :
    ∃ m, Appended s.collection e (e.step s) m t := by
  obtain ⟨-, w, hplans, hok, hstep⟩ := hwrote.commit (by rw [hclock]; rfl)
  obtain ⟨hval, hnode, hdocs, n, happend⟩ := commit_ok hok
  obtain ⟨hn, hnext⟩ := CountingOplog.append_counts _ _ _ _ happend
  obtain ⟨hwclock, hcoll, hrev, op, patch, hm, hpatch⟩ := hplans.reports hclock
  have hfrom : Revision.fromStr (t.revision e.nodeId).text = .ok (t.revision e.nodeId) :=
    Revision.fromStr_new hms hcounter
  have hmrev : w.mutation.rev = t.revision e.nodeId := by rw [hm]; rfl
  have hname : s.collection.name ≠ "" := by
    have hne := ((MutationMetadata.validate_eq_ok_iff w.mutation.metadata).mp hval).1
    rw [hm] at hne
    exact hne
  rw [hstep]
  refine ⟨w.mutation, hnode, ⟨hval, ?_, hname, ?_, ?_, ?_⟩, hmrev, ?_, ?_, ?_, ?_⟩
  · rw [hm]; rfl
  · rw [hm]; rfl
  · rw [hmrev]
    exact hfrom
  · rw [hmrev, hm]
    exact hpatch
  · rw [hm]; rfl
  · rw [hnext, hn]
  · rw [LogOplog.append_ok _ _ _ _ happend, hn, hwclock]
  · refine ⟨w.id.toString, w.doc, ?_, ?_⟩
    · rw [← hcoll]
      exact hdocs
    · rw [docRevision_of_get hfrom hrev, hmrev]

/-- The log is numbered from one and tells only of own writes to the collection, in their order;
every document is in the collection and was put there by one of them. -/
structure Told (c : CollectionName) (e : RangoEngine σ ω) : Prop where
  counter : CountingOplog.counter e.oplog = (toEntries e.oplog).length
  numbered : (toEntries e.oplog).map OplogEntry.seq = List.range' 1 (toEntries e.oplog).length
  own : ∀ m ∈ e.logged, m.Own c
  increasing : e.logged.Pairwise fun a b => a.timestamp < b.timestamp ∧ a.rev.key < b.rev.key
  docs : ∀ c' k d, docMap e.storage c' k = some d →
    c' = c ∧ ∃ m ∈ e.logged, docRevision d = m.rev

omit [MutationHasher] [BsonCodec] [Arithmetic] in
lemma Appended.logged {c : CollectionName} {e e' : RangoEngine σ ω} {m : Mutation}
    {t : WriteClock} (h : Appended c e e' m t) : e'.logged = e.logged ++ [m] := by
  rw [RangoEngine.logged, h.entry, List.map_append]
  rfl

omit [MutationHasher] [BsonCodec] [Arithmetic] in
/-- A later write continues the tale. -/
lemma Told.appended {c : CollectionName} {e e' : RangoEngine σ ω} {m : Mutation} {t : WriteClock}
    (h : Told c e) (happ : Appended c e e' m t)
    (hlater : ∀ x ∈ e.logged, x.timestamp < m.timestamp ∧ x.rev.key < m.rev.key) :
    Told c e' where
  counter := by
    rw [happ.counter, happ.entry, h.counter, List.length_append, List.length_singleton]
  numbered := by
    rw [happ.entry, List.map_append, List.length_append, List.length_singleton, h.numbered,
      List.range'_concat, h.counter]
    simp [Nat.add_comm]
  own x hx := by
    rw [happ.logged, List.mem_append, List.mem_singleton] at hx
    rcases hx with hx | rfl
    · exact h.own x hx
    · exact happ.own
  increasing := by
    rw [happ.logged, List.pairwise_append]
    refine ⟨h.increasing, List.pairwise_singleton _ _, fun x hx y hy => ?_⟩
    rw [List.mem_singleton.mp hy]
    exact hlater x hx
  docs c' k d hd := by
    obtain ⟨k', d', hdocs, hrev⟩ := happ.docs
    rw [hdocs] at hd
    rw [happ.logged]
    rcases DocMap.of_set hd with ⟨hc, -, hsome⟩ | hd
    · refine ⟨hc, m, List.mem_append_right _ List.mem_cons_self, ?_⟩
      rw [← Option.some.inj hsome]
      exact hrev
    · obtain ⟨hc, x, hx, hxrev⟩ := h.docs c' k d hd
      exact ⟨hc, x, List.mem_append_left _ hx, hxrev⟩

/-- A run of own writes continues the log by one entry for each. -/
lemma run_logged {c : CollectionName} {e : RangoEngine σ ω} {steps : List EngineStep}
    (hown : OwnWrites e.nodeId c steps) (hcalls : Runs.All step Wrote e steps) :
    ∃ ms, (e.run steps).logged = e.logged ++ ms ∧ ms.length = steps.length := by
  induction steps generalizing e with
  | nil => exact ⟨[], (List.append_nil _).symm, rfl⟩
  | cons s rest ih =>
    obtain ⟨hcall, hcalls⟩ := hcalls
    obtain ⟨t, hclock, hms, hcounter⟩ := hown.clocked s List.mem_cons_self
    obtain ⟨m, happ⟩ := step_appended hclock hms hcounter hcall
    obtain ⟨ms, hlogged, hlength⟩ := ih (happ.nodeId ▸ hown.tail) hcalls
    refine ⟨m :: ms, ?_, ?_⟩
    · show ((e.step s).run rest).logged = _
      rw [hlogged, happ.logged, List.append_assoc]
      rfl
    · rw [List.length_cons, hlength, List.length_cons]

/-- A run of own writes, later than all that is logged, continues the tale. -/
theorem run_told {c : CollectionName} {e : RangoEngine σ ω} {steps : List EngineStep}
    (hown : OwnWrites e.nodeId c steps) (hcalls : Runs.All step Wrote e steps) (h : Told c e)
    (hlater : ∀ s ∈ steps, ∀ t ∈ s.clock, ∀ x ∈ e.logged,
      x.timestamp < t.mutationAt ∧ x.rev.key < (t.revision e.nodeId).key) :
    Told c (e.run steps) := by
  induction steps generalizing e with
  | nil => exact h
  | cons s rest ih =>
    obtain ⟨hcall, hcalls⟩ := hcalls
    obtain ⟨t, hclock, hms, hcounter⟩ := hown.clocked s List.mem_cons_self
    obtain ⟨m, happ⟩ := step_appended hclock hms hcounter hcall
    rw [hown.collection s List.mem_cons_self] at happ
    have htold : Told c (e.step s) := by
      refine h.appended happ fun x hx => ?_
      rw [happ.timestamp, happ.rev]
      exact hlater s List.mem_cons_self t hclock x hx
    refine ih (happ.nodeId ▸ hown.tail) hcalls htold fun y hy t' ht' x hx => ?_
    rw [happ.nodeId]
    rw [happ.logged, List.mem_append, List.mem_singleton] at hx
    rcases hx with hx | rfl
    · exact hlater y (List.mem_cons_of_mem _ hy) t' ht' x hx
    · rw [happ.timestamp, happ.rev]
      exact (List.pairwise_cons.mp hown.later).1 y hy t hclock t' ht'

omit [MutationHasher] [BsonCodec] [Arithmetic] in
lemma Fresh.told {e : RangoEngine σ ω} (he : e.Fresh) (hlog : toEntries e.oplog = [])
    (hcount : CountingOplog.counter e.oplog = 0) (c : CollectionName) : Told c e := by
  have hnone : e.logged = [] := by rw [logged, hlog, List.map_nil]
  refine ⟨?_, ?_, ?_, ?_, ?_⟩
  · rw [hcount, hlog]
    rfl
  · rw [hlog]
    rfl
  · rw [hnone]
    simp
  · rw [hnone]
    exact List.Pairwise.nil
  · intro c' k d hd
    rw [he.docs] at hd
    exact absurd hd.symm (Option.some_ne_none d)

omit [MutationHasher] [BsonCodec] [Arithmetic] in
/-- A read that starts behind the first `b` entries. -/
lemma Told.readSince {c : CollectionName} {e : RangoEngine σ ω} (h : Told c e) {b limit : ℕ}
    {es : List OplogEntry} (hlimit : 0 < limit) (hall : (toEntries e.oplog).length ≤ limit)
    (hread : Oplog.readSince (b + 1) limit e.oplog = .ok es) :
    es = (toEntries e.oplog).drop b := by
  set log := toEntries e.oplog with hlog
  have hseq : ∀ i (hi : i < log.length), log[i].seq = i + 1 := by
    intro i hi
    have hget : (log.map OplogEntry.seq)[i]? = some (i + 1) := by
      rw [h.numbered, List.getElem?_range' (by omega)]
      simp [Nat.add_comm]
    rw [List.getElem?_map, List.getElem?_eq_getElem hi] at hget
    exact Option.some.inj hget
  have hbefore : (log.take b).filter (fun x => b + 1 ≤ x.seq) = [] := by
    refine List.filter_eq_nil_iff.mpr fun x hx => ?_
    obtain ⟨i, hi, rfl⟩ := List.mem_take_iff_getElem.mp hx
    have hnumber := hseq i (by omega)
    rw [decide_eq_true_eq]
    omega
  have hafter : (log.drop b).filter (fun x => b + 1 ≤ x.seq) = log.drop b := by
    refine List.filter_eq_self.mpr fun x hx => ?_
    obtain ⟨i, hi, rfl⟩ := List.mem_drop_iff_getElem.mp hx
    have hnumber := hseq (b + i) (by omega)
    rw [decide_eq_true_eq]
    omega
  have hsplit : log.filter (fun x => b + 1 ≤ x.seq) = log.drop b := by
    conv_lhs => rw [← List.take_append_drop b log]
    rw [List.filter_append, hbefore, hafter, List.nil_append]
  rw [LogOplog.readSince_ok _ _ _ _ hlimit hread, entriesSince, hsplit]
  refine List.take_of_length_le ?_
  rw [List.length_drop]
  omega

/-! ## The rollback -/

variable {σ' ω' : Type} [MapStorage σ']

omit [MutationHasher] [BsonCodec] [Arithmetic] in
/-- Arriving documents, as versions of their place. -/
lemma foldl_arrive_version (nodeId : String) (ms : List Mutation) (found : Option Document) :
    (ms.foldl (arrive nodeId) found).map version =
      ((ms.map (mutationDocument nodeId)).map version).foldl Register.merge
        (found.map version) := by
  induction ms generalizing found with
  | nil => rfl
  | cons m rest ih =>
    rw [List.foldl_cons, ih, arrive, Option.map_some, version_resolve]
    rfl

omit [MutationHasher] [BsonCodec] [Arithmetic] in
/-- The guards of a rollback let it restore. -/
lemma rollbackToSnapshot_restores {e : RangoEngine σ' ω'} {c : CollectionName}
    {snapshot : SnapshotUnit} {rollback : RollbackUnit}
    (hid : rollback.snapshotId = snapshot.snapshotId)
    (hbase : snapshot.baseSeq ≤ rollback.targetSeq) (hns : snapshot.nameSpace = c.name)
    (window : List Mutation) (now : DateTime) :
    (e.rollbackToSnapshot c snapshot rollback window now).2 =
      (e.restoreFromSnapshot c snapshot
        (window.filter fun m => m.seq ≤ rollback.targetSeq)).2 := by
  have hbelow : ¬ rollback.targetSeq < snapshot.baseSeq := by omega
  rw [rollbackToSnapshot, if_neg (not_not.mpr hid), if_neg hbelow, if_neg (not_not.mpr hns)]
  split
  · next h => rw [h]
  · next h => rw [h]

/-- The documents of the mutations that a replay on a new engine applies, in their order. -/
def replayed (nodeId : String) (ms : List Mutation) : List Document :=
  (plan [] ms).kept.map (mutationDocument nodeId)

omit [MutationHasher] [BsonCodec] [Arithmetic] in
/-- A restore that replays later and later own mutations shows, under each id, the last document
that carries it. -/
theorem restore_visible {f : RangoEngine σ' ω'} (hf : f.Fresh) {c : CollectionName}
    {snapshot : SnapshotUnit} (hns : snapshot.nameSpace = c.name)
    {ms : List Mutation} (hown : ∀ m ∈ ms, m.Own c)
    (hinc : ms.Pairwise fun a b => a.timestamp < b.timestamp ∧ a.rev.key < b.rev.key)
    (hstate : ∀ d ∈ snapshot.state, ∀ m ∈ ms, (docRevision d).key < m.rev.key)
    (c' : CollectionName) (id : DocumentId) :
    (f.restoreFromSnapshot c snapshot ms).2.visible c' id =
      .ok (if c' = c then
        shown (lastWith (snapshot.state ++ replayed f.nodeId ms) id.toString) else none) := by
  set kept := (plan [] ms).kept with hkept
  have hsub : kept.Sublist ms := plan_kept_sublist [] ms
  -- the mutations come sorted
  have hsort : ms.insertionSort CanonicalLe = ms := by
    refine List.Pairwise.insertionSort_eq (hinc.imp_of_mem fun {a b} ha hb hab => ?_)
    have hcoll : a.collection = b.collection := by
      rw [(hown a ha).collection, (hown b hb).collection]
    exact (canonicalLt_of_timestamp hcoll hab.1).le
  have hfiled : ∀ m ∈ kept, ∀ place, m.filedAt c = some place ↔
      place.1 = c ∧ (mutationDocument f.nodeId m).printedId = some place.2 := by
    intro m hm place
    rw [printedId_mutationDocument, Mutation.filedAt,
      (hown m (hsub.subset hm)).mutationCollection_eq c, Option.map_eq_some_iff]
    constructor
    · rintro ⟨k, hk, rfl⟩
      exact ⟨rfl, hk⟩
    · rintro ⟨hc, hk⟩
      exact ⟨place.2, hk, by rw [← hc]⟩
  rw [visible_eq, versions, restoreFromSnapshot_docs hf.ids hns, hsort, ← hkept,
    foldl_deliver_apply, foldl_arrive_version]
  rw [hf.docs, restored_empty]
  by_cases hc : c' = c
  · subst hc
    set k := id.toString
    -- those that go to the place, by the id that their documents carry
    have hthere : (kept.filter fun m => m.filedAt c' = some (c', k)).map
        (mutationDocument f.nodeId) =
          (replayed f.nodeId ms).filter fun d => d.printedId = some k := by
      rw [replayed, ← hkept, List.filter_map]
      refine congrArg (List.map _) (List.filter_congr fun m hm => ?_)
      simp [hfiled m hm]
    have hrev : ∀ m ∈ kept, docRevision (mutationDocument f.nodeId m) = m.rev := by
      intro m hm
      have hm' := hown m (hsub.subset hm)
      exact docRevision_mutationDocument hm'.rev hm'.patch_rev f.nodeId
    have hlater : (replayed f.nodeId ms).Pairwise fun a b =>
        (docRevision a).key < (docRevision b).key := by
      refine List.pairwise_map.mpr ((hinc.sublist hsub).imp_of_mem fun {a b} ha hb hab => ?_)
      rw [hrev a ha, hrev b hb]
      exact hab.2
    have hbefore : ∀ d ∈ snapshot.state, ∀ d' ∈ replayed f.nodeId ms,
        (docRevision d).key < (docRevision d').key := by
      intro d hd d' hd'
      obtain ⟨m, hm, rfl⟩ := List.mem_map.mp hd'
      rw [hrev m hm]
      exact hstate d hd m (hsub.subset hm)
    have hplace : placeAll c' some DocMap.empty snapshot.state c' k =
        lastWith snapshot.state k := by
      rw [placeAll_some_apply]
      exact Option.or_none
    rw [hthere, hplace, Register.foldl_merge_of_increasing, if_pos rfl, shown_eq_visible,
      lastWith_append, List.getLast?_map, ← Option.map_or]
    · rfl
    · exact List.pairwise_map.mpr (hlater.sublist List.filter_sublist)
    · intro l hl w hw
      obtain ⟨d, hd, rfl⟩ := Option.map_eq_some_iff.mp hl
      obtain ⟨d', hd', rfl⟩ := List.mem_map.mp hw
      exact hbefore d (mem_of_lastWith hd).1 d' (List.mem_of_mem_filter hd')
  · -- nothing goes to another collection
    have hnone : kept.filter (fun m => m.filedAt c = some (c', id.toString)) = [] := by
      refine List.filter_eq_nil_iff.mpr fun m hm hat => ?_
      exact hc ((hfiled m hm _).mp (of_decide_eq_true hat)).1
    rw [if_neg hc, hnone, placeAll_of_collection_ne hc]
    rfl

omit [MutationHasher] [BsonCodec] [Arithmetic] [CountingOplog ω] in
/-- The documents of a snapshot are those of the collection. -/
lemma mem_of_createSnapshot {e : RangoEngine σ ω} {c : CollectionName}
    {tenantId snapshotId : String} {baseSeq : ℕ} {now : DateTime} {snapshot : SnapshotUnit}
    (h : (e.createSnapshot c tenantId snapshotId baseSeq now).1 = .ok snapshot) :
    snapshot.nameSpace = c.name ∧ snapshot.baseSeq = baseSeq ∧
      ∃ docs, Lists docs (docMap e.storage) c ∧ snapshot.state = docs.map Prod.snd := by
  obtain ⟨docs, hl, hall⟩ := findAllRaw_eq e c
  rw [createSnapshot, hall] at h
  rw [← Except.ok.inj h]
  exact ⟨rfl, rfl, docs, hl, rfl⟩

/-! ## Runs on a new engine -/

section Run
variable {e : RangoEngine σ ω} (he : e.Fresh) (hlog : toEntries e.oplog = [])
  {c : CollectionName} {steps : List EngineStep} (hown : OwnWrites e.nodeId c steps)
  (hcalls : Runs.All step Wrote e steps)

omit [CountingOplog ω] [MutationHasher] [BsonCodec] [Arithmetic] in
lemma run_take_drop [Oplog ω] [BsonCodec] [MutationHasher] [Arithmetic] (e : RangoEngine σ ω)
    (steps : List EngineStep) (b : ℕ) :
    e.run steps = (e.run (steps.take b)).run (steps.drop b) := by
  rw [run, run, run, ← List.foldl_append, List.take_append_drop]

include hcalls in
lemma calls_take_drop (b : ℕ) : Runs.All step Wrote e (steps.take b) ∧
    Runs.All step Wrote (e.run (steps.take b)) (steps.drop b) := by
  rw [← List.take_append_drop b steps] at hcalls
  exact Runs.all_append.mp hcalls

include hlog hown hcalls in
/-- The first `b` writes are the first `b` entries. -/
lemma logged_take_drop {b : ℕ} (hb : b ≤ steps.length) :
    (e.run (steps.take b)).logged.length = b ∧
      ∃ ms, (e.run steps).logged = (e.run (steps.take b)).logged ++ ms := by
  obtain ⟨hbefore, hafter⟩ := calls_take_drop hcalls b
  obtain ⟨ms, hlogged, hlength⟩ := run_logged (hown.sublist (List.take_sublist b steps)) hbefore
  have hown' : OwnWrites (e.run (steps.take b)).nodeId c (steps.drop b) := by
    rw [run_nodeId]
    exact hown.sublist (List.drop_sublist b steps)
  obtain ⟨ms', hlogged', -⟩ := run_logged hown' hafter
  have hnone : e.logged = [] := by rw [logged, hlog, List.map_nil]
  refine ⟨?_, ms', ?_⟩
  · rw [hlogged, hnone, List.nil_append, hlength, List.length_take]
    omega
  · rw [run_take_drop e steps b, hlogged']

include he hlog hown hcalls in
lemma told_take (hcount : CountingOplog.counter e.oplog = 0) (k : ℕ) :
    Told c (e.run (steps.take k)) := by
  refine run_told (hown.sublist (List.take_sublist k steps)) (calls_take_drop hcalls k).1
    (he.told hlog hcount c) fun s _ t _ x hx => ?_
  rw [logged, hlog] at hx
  cases hx

include he hlog hown hcalls in
lemma history_take (hkeep : ∀ s ∈ steps, s.KeepsIds) (k : ℕ) :
    History c (e.run (steps.take k)) := by
  have hown' := hown.sublist (List.take_sublist k steps)
  have hcalls' := (calls_take_drop hcalls k).1.and_mem (R := fun s => s.clock.isSome) (by
    intro s hs
    obtain ⟨t, hclock, -⟩ := hown'.clocked s hs
    rw [hclock]
    rfl)
  refine run_history_of_later c (hown'.laterRun fun s hs => hkeep s (List.mem_of_mem_take hs))
    (hcalls'.imp fun e s hs => Or.inl (hs.2.commit hs.1).1) (he.history hlog c) ?_
  intro s _ t _ x hx
  rw [logged, hlog] at hx
  cases hx

include he hlog hown hcalls in
/-- When no update touches `_id`, the last documents that a snapshot and the mutations after it
carry are what the engine shows in the end. -/
theorem visible_run_eq (hcount : CountingOplog.counter e.oplog = 0)
    (hkeep : ∀ s ∈ steps, s.KeepsIds) {b : ℕ}
    {docs : List (String × Document)} (hl : Lists docs (docMap (e.run (steps.take b)).storage) c)
    {ms : List Mutation} (hms : (e.run steps).logged = (e.run (steps.take b)).logged ++ ms)
    (hids : ms.Pairwise fun x y => x.writeId ≠ y.writeId) (nodeId : String) (id : DocumentId) :
    (e.run steps).visible c id =
      .ok (shown (lastWith (docs.map Prod.snd ++ replayed nodeId ms) id.toString)) := by
  have hbefore := history_take he hlog hown hcalls hkeep b
  have hafter := history_take he hlog hown hcalls hkeep steps.length
  have htold := told_take he hlog hown hcalls hcount steps.length
  rw [List.take_length] at hafter htold
  have hmem : ∀ m ∈ ms, m ∈ (e.run steps).logged := fun m hm => by
    rw [hms]
    exact List.mem_append_right _ hm
  have hkept : (plan [] ms).kept = ms :=
    plan_kept_of_new (fun m hm => (hafter.replayable m (hmem m hm)).applicable)
      (fun m hm => (hafter.replayable m (hmem m hm)).writeId) (fun _ _ => List.not_mem_nil) hids
  set k := id.toString
  -- what is filed under the id, before and after
  have hplace : ∀ m ∈ ms, m.place c = (c, k) ↔
      (mutationDocument nodeId m).printedId = some k := by
    intro m hm
    rw [printedId_mutationDocument, (hafter.replayable m (hmem m hm)).targetKey, Mutation.place,
      (htold.own m (hmem m hm)).mutationCollection_eq c]
    simp [k]
  have hnew : (lastWith (replayed nodeId ms) k).map version =
      (ms.filter fun m => m.place c = (c, k)).getLast?.map Mutation.version := by
    have hfilter : (replayed nodeId ms).filter (fun d => d.printedId = some k) =
        (ms.filter fun m => m.place c = (c, k)).map (mutationDocument nodeId) := by
      rw [replayed, hkept, List.filter_map]
      refine congrArg (List.map _) (List.filter_congr fun m hm => ?_)
      simp [hplace m hm]
    rw [lastWith, hfilter, List.getLast?_map, Option.map_map]
    refine Option.map_congr fun m hm => ?_
    have hin := hmem m (List.mem_of_mem_filter (List.mem_of_getLast? hm))
    exact (hafter.replayable m hin).version_eq nodeId
  have hold : (lastWith (docs.map Prod.snd) k).map version =
      versions (docMap (e.run (steps.take b)).storage) (c, k) := by
    have hput : placeAll c some DocMap.empty (docs.map Prod.snd) c = _ :=
      placeAll_lists (hbefore.filed c) hl fun _ => rfl
    rw [versions, ← hput, placeAll_some_apply]
    exact congrArg (Option.map version) Option.or_none.symm
  have hdocs : versions (docMap (e.run steps).storage) = ms.foldl
      (Register.overwrite (Mutation.place c) Mutation.version)
        (versions (docMap (e.run (steps.take b)).storage)) := by
    rw [hafter.docs, hms, Register.written, List.foldl_append, hbefore.docs]
    rfl
  rw [visible_eq, hdocs, Register.foldl_overwrite_apply, ← hnew, ← hold, shown_eq_visible,
    lastWith_append, Option.map_or]

end Run

/-- **Rolling back along the own log.** Take a run of writes to one collection on a new engine
with an empty oplog, at later and later times and under later and later revisions, a snapshot
taken after the first `b` of them, and the mutations of the entries behind `b` as the window. On a
new engine the rollback to any target `k` leaves what the engine showed after `k` writes exactly
when it showed, under each id, the last document that carries that id in the snapshot or among
those that the window applies. When no update touches `_id` and the write ids are distinct, that
is what the engine shows in the end. -/
theorem rollback_own_log_iff {e : RangoEngine σ ω} (he : e.Fresh) (hlog : toEntries e.oplog = [])
    (hcount : CountingOplog.counter e.oplog = 0) {c : CollectionName} {steps : List EngineStep}
    (hown : OwnWrites e.nodeId c steps) (hcalls : Runs.All step Wrote e steps) {b k : ℕ}
    (hbk : b ≤ k) (hkn : k ≤ steps.length) {tenantId snapshotId : String} {now : DateTime}
    {snapshot : SnapshotUnit}
    (hsnapshot : ((e.run (steps.take b)).createSnapshot c tenantId snapshotId b now).1 =
      .ok snapshot) {limit : ℕ} (hlimit : 0 < limit) (hall : steps.length ≤ limit)
    {window : List OplogEntry}
    (hread : Oplog.readSince (b + 1) limit (e.run steps).oplog = .ok window)
    {f : RangoEngine σ' ω'} (hf : f.Fresh) {rollback : RollbackUnit}
    (hid : rollback.snapshotId = snapshot.snapshotId) (htarget : rollback.targetSeq = k)
    (now' : DateTime) :
    let ms := window.map OplogEntry.mutation
    let docs := snapshot.state ++ replayed f.nodeId ms
    ((∀ c' id, (f.rollbackToSnapshot c snapshot rollback ms now').2.visible c' id =
        (e.run (steps.take k)).visible c' id) ↔
      ∀ id, (e.run (steps.take k)).visible c id = .ok (shown (lastWith docs id.toString))) ∧
    ((∀ s ∈ steps, s.KeepsIds) → ms.Pairwise (fun x y => x.writeId ≠ y.writeId) →
      ∀ id, (e.run steps).visible c id = .ok (shown (lastWith docs id.toString))) := by
  intro ms docs
  obtain ⟨hns, hbase, listed, hl, hstate⟩ := mem_of_createSnapshot hsnapshot
  have htold := told_take he hlog hown hcalls hcount
  obtain ⟨hlength, later, hlater⟩ := logged_take_drop hlog hown hcalls (hbk.trans hkn)
  have hrun := htold steps.length
  rw [List.take_length] at hrun
  -- the window is what was logged after the snapshot
  have hms : ms = later := by
    have hlogged : (toEntries (e.run steps).oplog).length = steps.length := by
      have hn := (logged_take_drop hlog hown hcalls le_rfl).1
      rw [List.take_length, logged, List.length_map] at hn
      exact hn
    have hdrop := hrun.readSince hlimit (by omega) hread
    show window.map OplogEntry.mutation = later
    rw [hdrop, List.map_drop]
    show (e.run steps).logged.drop b = later
    rw [hlater, List.drop_left' hlength]
  have hmem : ∀ m ∈ ms, m ∈ (e.run steps).logged := fun m hm => by
    rw [hlater, ← hms]
    exact List.mem_append_right _ hm
  have hown' : ∀ m ∈ ms, m.Own c := fun m hm => hrun.own m (hmem m hm)
  have hinc := hrun.increasing
  rw [hlater, ← hms, List.pairwise_append] at hinc
  -- no mutation of the window is cut off
  have hall' : ms.filter (fun m => m.seq ≤ rollback.targetSeq) = ms := by
    refine List.filter_eq_self.mpr fun m hm => ?_
    rw [decide_eq_true_eq, (hown' m hm).seq]
    exact Nat.zero_le _
  have hleft : (f.rollbackToSnapshot c snapshot rollback ms now').2 =
      (f.restoreFromSnapshot c snapshot ms).2 := by
    rw [rollbackToSnapshot_restores hid (by omega) hns, hall']
  have hshown : ∀ c' id, (f.rollbackToSnapshot c snapshot rollback ms now').2.visible c' id =
      .ok (if c' = c then shown (lastWith docs id.toString) else none) := by
    intro c' id
    rw [hleft]
    refine restore_visible hf hns hown' hinc.2.1 (fun d hd m hm => ?_) c' id
    rw [hstate] at hd
    obtain ⟨⟨k', d'⟩, hd', rfl⟩ := List.mem_map.mp hd
    obtain ⟨-, x, hx, hrev⟩ := (htold b).docs c k' d' ((hl.mem k' d').mp hd')
    rw [hrev]
    exact (hinc.2.2 x hx m hm).2
  refine ⟨⟨fun h id => ?_, fun h c' id => ?_⟩, fun hkeep hids id => ?_⟩
  · rw [← h c id, hshown, if_pos rfl]
  · rw [hshown]
    by_cases hc : c' = c
    · rw [if_pos hc, hc, h id]
    · -- nothing was written to another collection
      rw [if_neg hc, visible_eq, versions]
      cases hd : docMap (e.run (steps.take k)).storage c' id.toString with
      | none => rfl
      | some d => exact absurd ((htold k).docs c' _ d hd).1 hc
  · show _ = Except.ok (shown (lastWith (snapshot.state ++ replayed f.nodeId ms) id.toString))
    rw [hstate]
    exact visible_run_eq he hlog hown hcalls hcount hkeep hl (hms ▸ hlater) hids f.nodeId id

end RangoEngine
end

/-! ## A worked example -/

section
attribute [local instance] Formatting.sample Arithmetic.sample sampleOpHasher

/-- The entries that an insert and a later delete leave in the log of node `"a"`. -/
def sampleOwnEntries : List OplogEntry :=
  [(localEntry (sampleWriter.insertWrite ⟨"c"⟩ sampleDoc (.sample 1 0)).mutation
      (.sample 1 0)).withSeq 1,
    (localEntry (sampleWriter.deleteWrite ⟨"c"⟩ ⟨.string "d"⟩ sampleStored
      (.sample 2 1)).mutation (.sample 2 1)).withSeq 2]

/-- A codec that knows them and the documents of the insert. -/
@[reducible] def sampleOwnCodec : BsonCodec :=
  .ofTable sampleOwnEntries
    (sampleDoc :: sampleStored :: sampleOwnEntries.map BsonCodec.entryDocument)

attribute [local instance] sampleOwnCodec

lemma sampleOwn_dependable : Dependable none where
  codec := BsonCodec.ofTable_roundTrips (by decide +kernel) (by decide +kernel)
  codecSized := BsonCodec.ofTable_sized (by decide +kernel) (by decide +kernel)
  cipher := by simp [FileOplog.CryptoRoundTrips]
  cipherSized := by simp [FileOplog.CryptoSized]

/-- A newly opened node with a `FileOplog` on a new path. -/
def sampleFiler : RangoEngine MemoryStorage FileLog :=
  .openEngine MemoryStorage.new (.new none (fun _ => sampleNonce) sampleOwn_dependable) "a"

lemma sampleFiler_fresh : sampleFiler.Fresh := ⟨MemoryStorage.docMap_new, rfl⟩

lemma sampleHistory_own : OwnWrites "a" ⟨"c"⟩ (sampleHistory 2) where
  collection s hs := by
    rcases List.mem_pair.mp hs with rfl | rfl
    · rfl
    · rfl
  clocked := (sampleHistory_local (by decide) (by decide)).clocked
  later := by
    refine List.pairwise_pair.mpr fun t ht t' ht' => ?_
    rw [← Option.some.inj ht, ← Option.some.inj ht']
    exact ⟨by decide, by decide +kernel⟩

lemma sampleHistory_wrote :
    Runs.All RangoEngine.step RangoEngine.Wrote sampleFiler (sampleHistory 2) := by
  unfold RangoEngine.Wrote
  exact ⟨by decide +kernel, by decide +kernel, trivial⟩

/-- The window behind the empty log. -/
lemma sampleFiler_readSince :
    Oplog.readSince (0 + 1) 2 (sampleFiler.run (sampleHistory 2)).oplog = .ok sampleOwnEntries := by
  decide +kernel

/-- A rollback to the first write. -/
def sampleToFirst : RollbackUnit where
  snapshotId := "snapshot"
  targetSeq := 1
  requestedAt := 0
  reason := "undo"

/-- The rollback to the first write, on another new node. -/
def sampleRolledTo : Except RangoError (ℕ × RollbackAudit) × RangoEngine MemoryStorage NullOplog :=
  (sampleNode "a").rollbackToSnapshot ⟨"c"⟩ (RangoEngine.emptySnapshot ⟨"c"⟩) sampleToFirst
    (sampleOwnEntries.map OplogEntry.mutation) 0

/-- For the insert and the delete, the empty snapshot and the first write as the target. -/
theorem RangoEngine.rollback_own_log_iff_first :
    let ms := sampleOwnEntries.map OplogEntry.mutation
    let docs := (emptySnapshot ⟨"c"⟩).state ++ replayed "a" ms
    ((∀ c' id, sampleRolledTo.2.visible c' id =
        (sampleFiler.run ((sampleHistory 2).take 1)).visible c' id) ↔
      ∀ id, (sampleFiler.run ((sampleHistory 2).take 1)).visible ⟨"c"⟩ id =
        .ok (shown (lastWith docs id.toString))) ∧
    ((∀ s ∈ sampleHistory 2, s.KeepsIds) → ms.Pairwise (fun x y => x.writeId ≠ y.writeId) →
      ∀ id, (sampleFiler.run (sampleHistory 2)).visible ⟨"c"⟩ id =
        .ok (shown (lastWith docs id.toString))) :=
  rollback_own_log_iff sampleFiler_fresh (by decide +kernel) rfl sampleHistory_own
    sampleHistory_wrote (b := 0) (k := 1) (by decide) (by decide)
    (show _ = Except.ok (emptySnapshot ⟨"c"⟩) from rfl) (by decide) (by decide)
    sampleFiler_readSince (sampleNode_fresh "a") rfl rfl 0

/-- An insert and then a delete, with the snapshot taken before both: the rollback to the first
write replays the delete as well, and the document that the engine showed there is gone. -/
theorem rollback_runs_past_target :
    OwnWrites "a" ⟨"c"⟩ (sampleHistory 2) ∧
      Runs.All RangoEngine.step RangoEngine.Wrote sampleFiler (sampleHistory 2) ∧
      (sampleFiler.createSnapshot ⟨"c"⟩ "tenant" "snapshot" 0 0).1 =
        .ok (RangoEngine.emptySnapshot ⟨"c"⟩) ∧
      Oplog.readSince (0 + 1) 2 (sampleFiler.run (sampleHistory 2)).oplog =
        .ok sampleOwnEntries ∧
      sampleOwnEntries.map OplogEntry.seq = [1, 2] ∧
      sampleRolledTo.1 = .ok (2, { rollback := sampleToFirst, appliedAt := 0 }) ∧
      (sampleFiler.run ((sampleHistory 2).take 1)).visible ⟨"c"⟩ ⟨.string "d"⟩ =
        .ok (some sampleStored) ∧
      sampleRolledTo.2.visible ⟨"c"⟩ ⟨.string "d"⟩ = .ok none := by
  refine ⟨sampleHistory_own, sampleHistory_wrote, ?_, sampleFiler_readSince, ?_, ?_, ?_, ?_⟩
  · decide +kernel
  · decide +kernel
  · decide +kernel
  · decide +kernel
  · decide +kernel

end
end Rango
