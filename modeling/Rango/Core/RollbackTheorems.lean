import Rango.Core.ArrivalTheorems
import Rango.Core.InterruptionTheorems
import Rango.Core.RestoreTheorems

/-!
# Rollbacks and the mutations after the snapshot

A rollback replays its window up to the target, and with it the mutations that the snapshot
reflects already. `rollback_replays_window` compares it with a restore that replays only the
mutations after the snapshot.
-/

namespace Rango

/-! ## A pass over fewer mutations -/

/-- None of the mutations that `later` drops stands before one that it keeps and has the write id
of that one. -/
def Unshadowed (later : Mutation → Bool) (ms : List Mutation) : Prop :=
  ms.Pairwise fun x y => later x = false → later y = true → x.writeId ≠ "" →
    x.writeId ≠ y.writeId

/-- Then a pass applies the same of those that it keeps, with the others and without them. -/
lemma Unshadowed.kept {later : Mutation → Bool} {ids ids' : List String} {ms : List Mutation}
    (h : Unshadowed later ms) (hstop : (plan ids ms).stopped = none)
    (hids : ∀ m ∈ ms, later m = true → m.writeId ≠ "" → (m.writeId ∈ ids ↔ m.writeId ∈ ids')) :
    (plan ids ms).kept.filter later = (plan ids' (ms.filter later)).kept := by
  induction ms generalizing ids ids' with
  | nil => rfl
  | cons x rest ih =>
    obtain ⟨hx, htail⟩ := List.pairwise_cons.mp h
    have hrest : ∀ m ∈ rest, later m = true → m.writeId ≠ "" →
        (m.writeId ∈ ids ↔ m.writeId ∈ ids') := fun m hm => hids m (List.mem_cons_of_mem _ hm)
    cases hl : later x with
    | false =>
      -- a dropped mutation is applied or skipped by the first pass alone
      have hdrop : ¬ later x = true := by
        rw [hl]
        exact Bool.false_ne_true
      rw [List.filter_cons_of_neg hdrop]
      cases planTurn ids x with
      | stops hnot _ hplan =>
        rw [hplan] at hstop
        cases hstop
      | skips hval hdup hplan =>
        rw [hplan] at hstop ⊢
        exact ih htail hstop hrest
      | keeps happ hnew hplan =>
        rw [hplan] at hstop ⊢
        rw [List.filter_cons_of_neg hdrop]
        refine ih htail hstop fun m hm ha hne => ?_
        rw [mem_record, ← hrest m hm ha hne]
        refine or_iff_right fun hw => ?_
        exact hx m hm hl ha (fun hempty => hne (hw.2.trans hempty)) hw.2.symm
    | true =>
      rw [List.filter_cons_of_pos hl]
      have hdup_iff : x.writeId ≠ "" ∧ x.writeId ∈ ids ↔ x.writeId ≠ "" ∧ x.writeId ∈ ids' :=
        and_congr_right fun hne => hids x List.mem_cons_self hl hne
      cases planTurn ids x with
      | stops hnot _ hplan =>
        rw [hplan] at hstop
        cases hstop
      | skips hval hdup hplan =>
        rw [hplan] at hstop ⊢
        rw [plan_cons_skip hval (hdup_iff.mp hdup)]
        exact ih htail hstop hrest
      | keeps happ hnew hplan =>
        rw [hplan] at hstop ⊢
        rw [plan_cons_keep happ fun hdup => hnew (hdup_iff.mpr hdup),
          List.filter_cons_of_pos hl]
        refine congrArg (x :: ·) (ih htail hstop fun m hm ha hne => ?_)
        rw [mem_record, mem_record, hrest m hm ha hne]

section
variable [Formatting]

/-! ## Deletions that end what arrives -/

/-- The last of the mutations deletes, and is newer than those before it that do not. -/
def EndsDeleted (nodeId : String) (ms : List Mutation) : Prop :=
  ∃ pre m, ms = pre ++ [m] ∧ Deletes nodeId m ∧ ∀ x ∈ pre, ¬ Deletes nodeId x →
    Newer nodeId (RangoEngine.mutationDocument nodeId x) m

/-- What stands at a place that had nothing live is as new as one that arrived. -/
lemma exists_arrived {nodeId : String} {found : Option Document} {ms : List Mutation}
    (hdel : ∀ d ∈ found, isDeleted d = true) {l : Document}
    (h : ms.foldl (arrive nodeId) found = some l) (hlive : isDeleted l = false) :
    ∃ m ∈ ms, ¬ Deletes nodeId m ∧
      docStamp l = docStamp (RangoEngine.mutationDocument nodeId m) := by
  induction ms using List.reverseRecOn generalizing l with
  | nil =>
    rw [hdel l h] at hlive
    cases hlive
  | append_singleton ms m ih =>
    rw [List.foldl_append, List.foldl_cons, List.foldl_nil] at h
    have hold : ∀ p, ms.foldl (arrive nodeId) found = some p → isDeleted p = false →
        docStamp l = docStamp p → ∃ x ∈ ms ++ [m], ¬ Deletes nodeId x ∧
          docStamp l = docStamp (RangoEngine.mutationDocument nodeId x) := by
      intro p hp hplive hstamp
      obtain ⟨x, hx, hxlive, hsame⟩ := ih hp hplive
      exact ⟨x, List.mem_append_left _ hx, hxlive, hstamp.trans hsame⟩
    have hnew : isDeleted (RangoEngine.mutationDocument nodeId m) = false →
        docStamp l = docStamp (RangoEngine.mutationDocument nodeId m) →
        ∃ x ∈ ms ++ [m], ¬ Deletes nodeId x ∧
          docStamp l = docStamp (RangoEngine.mutationDocument nodeId x) := by
      intro hmlive hstamp
      refine ⟨m, by simp, ?_, hstamp⟩
      rw [Deletes, hmlive]
      exact Bool.false_ne_true
    rcases deleted_or_live (ms.foldl (arrive nodeId) found) with hgone | ⟨p, hp, hplive⟩
    · rw [arrive_of_deleted nodeId hgone, Option.some.injEq] at h
      rw [← h] at hlive
      exact hnew hlive (by rw [h])
    · rw [hp, arrive, resolve, hplive, if_neg Bool.false_ne_true, Option.some.injEq] at h
      cases hcmp : (docRevision (RangoEngine.mutationDocument nodeId m)).cmp (docRevision p) with
      | gt =>
        rw [hcmp] at h
        rw [← h, isDeleted_addConflict] at hlive
        refine hnew hlive ?_
        rw [← h, docStamp, docRevision_addConflict]
      | lt =>
        rw [hcmp] at h
        refine hold p hp hplive ?_
        rw [← h, docStamp, docRevision_addConflict]
      | eq =>
        rw [hcmp] at h
        exact hold p hp hplive (by rw [← h])

/-- A place that had nothing live has nothing live after them. -/
lemma EndsDeleted.foldl_arrive {nodeId : String} {ms : List Mutation} (h : EndsDeleted nodeId ms)
    {found : Option Document} (hdel : ∀ d ∈ found, isDeleted d = true) :
    ∀ d ∈ ms.foldl (arrive nodeId) found, isDeleted d = true := by
  obtain ⟨pre, m, rfl, hm, hnewer⟩ := h
  rw [List.foldl_append, List.foldl_cons, List.foldl_nil]
  rcases deleted_or_live (pre.foldl (arrive nodeId) found) with hgone | ⟨p, hp, hplive⟩
  · rw [arrive_of_deleted nodeId hgone]
    exact deleted_of_some hm
  · obtain ⟨x, hx, hxlive, hstamp⟩ := exists_arrived hdel hp hplive
    have hgt : (docRevision (RangoEngine.mutationDocument nodeId m)).cmp (docRevision p) = .gt := by
      have hlt := Revision.cmp_eq_gt.mp (hnewer x hx hxlive)
      have hstamp' : (docRevision p).key =
        (docRevision (RangoEngine.mutationDocument nodeId x)).key := hstamp
      rw [Revision.cmp_eq_gt, hstamp']
      exact hlt
    rw [hp, arrive, resolve, hplive, if_neg Bool.false_ne_true, hgt]
    apply deleted_of_some
    rw [isDeleted_addConflict]
    exact hm

/-- What arrives first makes no difference to what the later arrivals leave: it leaves the
document as it is, or later ones arrive at a place that had nothing live and has nothing live
again. -/
inductive Reflected (nodeId : String) (found : Option Document) (old later : List Mutation) :
    Prop where
  | kept : LeftAlone nodeId found old → Reflected nodeId found old later
  | buried : later ≠ [] → (∀ d ∈ found, isDeleted d = true) → EndsDeleted nodeId old →
      Reflected nodeId found old later

lemma Reflected.foldl_arrive {nodeId : String} {found : Option Document}
    {old later : List Mutation} (h : Reflected nodeId found old later) :
    (old ++ later).foldl (arrive nodeId) found = later.foldl (arrive nodeId) found := by
  rw [List.foldl_append]
  cases h with
  | kept halone => rw [halone.foldl_arrive]
  | buried hlater hdel hends =>
    exact foldl_arrive_of_deleted (hends.foldl_arrive hdel) hdel hlater

/-! ## What a restore puts in place before it replays -/

/-- The documents without those of the collection that are filed under an id that some document
of it carries. -/
noncomputable def cleared (D : DocMap) (c : CollectionName) : DocMap := fun c' k =>
  open Classical in
    if c' = c ∧ ∃ k' d, D c k' = some d ∧ d.printedId = some k then none else D c' k

/-- The documents with the state of a snapshot in the place of a collection. -/
noncomputable def restored (D : DocMap) (c : CollectionName) (state : List Document) : DocMap :=
  placeAll c some (cleared D c) state

lemma placeAll_of_collection_ne {c c' : CollectionName} (h : c' ≠ c)
    (value : Document → Option Document) (docs : List Document) (D : DocMap) :
    placeAll c value D docs c' = D c' := by
  induction docs generalizing D with
  | nil => rfl
  | cons d rest ih =>
    cases hd : d.printedId with
    | none => rw [placeAll_cons_none c value D hd, ih]
    | some k =>
      rw [placeAll_cons_some c value D hd, ih]
      funext k'
      exact DocMap.set_of_collection_ne _ _ _ _ h

namespace RangoEngine

variable {σ ω : Type} [MapStorage σ]

/-- The wipe of everything that is listed clears the collection. -/
lemma wiped_eq_cleared {D : DocMap} {c : CollectionName} {docs : List (String × Document)}
    (hl : Lists docs D c) : wiped D c docs = cleared D c := by
  have hcarried : ∀ k, (∃ d ∈ docs.map Prod.snd, d.printedId = some k) ↔
      ∃ k' d, D c k' = some d ∧ d.printedId = some k := by
    intro k
    constructor
    · rintro ⟨d, hd, hk⟩
      obtain ⟨⟨k', d'⟩, hmem, rfl⟩ := List.mem_map.mp hd
      exact ⟨k', d', (hl.mem k' d').mp hmem, hk⟩
    · rintro ⟨k', d, hd, hk⟩
      exact ⟨d, List.mem_map_of_mem (f := Prod.snd) ((hl.mem k' d).mpr hd), hk⟩
  funext c' k
  unfold cleared wiped
  by_cases hc : c' = c
  · subst hc
    by_cases hk : ∃ d ∈ docs.map Prod.snd, d.printedId = some k
    · rw [if_pos ⟨rfl, (hcarried k).mp hk⟩]
      exact placeAll_eq (fun _ _ _ => rfl) (Or.inr hk)
    · rw [if_neg fun h => hk ((hcarried k).mpr h.2)]
      exact placeAll_of_not_mem c' _ (fun d hd hdk => hk ⟨d, hd, hdk⟩) D
  · rw [if_neg fun h => hc h.1, placeAll_of_collection_ne hc]

/-- What a restore on a new engine leaves. -/
lemma restoreFromSnapshot_docs {e : RangoEngine σ ω} (hids : e.appliedWriteIds = [])
    {c : CollectionName} {snapshot : SnapshotUnit} (hns : snapshot.nameSpace = c.name)
    (replay : List Mutation) :
    docMap (e.restoreFromSnapshot c snapshot replay).2.storage =
      (plan [] (replay.insertionSort CanonicalLe)).kept.foldl (deliver c e.nodeId)
        (restored (docMap e.storage) c snapshot.state) := by
  obtain ⟨docs, hl, -, hdocs⟩ := restoreFromSnapshot_eq e c snapshot hns replay
  rw [hdocs, hids, wiped_eq_cleared hl]
  rfl

/-! ## Rollbacks -/

/-- A rollback that succeeds is a restore that does. -/
lemma rollbackToSnapshot_ok {e : RangoEngine σ ω} {c : CollectionName} {snapshot : SnapshotUnit}
    {rollback : RollbackUnit} {window : List Mutation} {now : DateTime}
    {result : ℕ × RollbackAudit}
    (h : (e.rollbackToSnapshot c snapshot rollback window now).1 = .ok result) :
    snapshot.nameSpace = c.name ∧
      (e.rollbackToSnapshot c snapshot rollback window now).2 =
        (e.restoreFromSnapshot c snapshot
          (window.filter fun m => m.seq ≤ rollback.targetSeq)).2 ∧
      ∃ n, (e.restoreFromSnapshot c snapshot
        (window.filter fun m => m.seq ≤ rollback.targetSeq)).1 = .ok n := by
  unfold rollbackToSnapshot at h ⊢
  split_ifs at h ⊢ with hid hseq hns
  rcases hr : e.restoreFromSnapshot c snapshot
    (window.filter fun m => m.seq ≤ rollback.targetSeq) with ⟨r, e'⟩
  rw [hr] at h
  cases r with
  | error err => cases h
  | ok n => exact ⟨not_not.mp hns, rfl, n, rfl⟩

/-- The mutations of a window that the snapshot reflects make no difference to what the later ones
leave: none stands before a later one with the same write id, and at each place to which some of
them come, they come before the later ones and make none there. -/
structure Superseded (default : CollectionName) (nodeId : String) (D : DocMap) (baseSeq : ℕ)
    (ms : List Mutation) : Prop where
  unshadowed : Unshadowed (fun m => baseSeq < m.seq) (ms.insertionSort CanonicalLe)
  first : ∀ place, (∃ m ∈ arrivals default ms place, m.seq ≤ baseSeq) →
    arrivals default ms place = (arrivals default ms place).filter (fun m => m.seq ≤ baseSeq) ++
      (arrivals default ms place).filter (fun m => baseSeq < m.seq)
  reflected : ∀ place, (∃ m ∈ arrivals default ms place, m.seq ≤ baseSeq) →
    Reflected nodeId (D place.1 place.2)
      ((arrivals default ms place).filter fun m => m.seq ≤ baseSeq)
      ((arrivals default ms place).filter fun m => baseSeq < m.seq)

/-- Without shadowed ones, a place sees the same later mutations. -/
lemma arrivals_later {default : CollectionName} {baseSeq : ℕ} {ms : List Mutation}
    (hstop : (plan [] (ms.insertionSort CanonicalLe)).stopped = none)
    (h : Unshadowed (fun m => baseSeq < m.seq) (ms.insertionSort CanonicalLe))
    (place : CollectionName × String) :
    arrivals default (ms.filter fun m => baseSeq < m.seq) place =
      (arrivals default ms place).filter fun m => baseSeq < m.seq := by
  unfold arrivals
  rw [Sorting.insertionSort_filter, ← h.kept hstop fun _ _ _ _ => Iff.rfl, List.filter_filter,
    List.filter_filter]
  refine List.filter_congr fun m _ => ?_
  rw [Bool.and_comm]

/-- **Rollbacks.** On a new engine, a rollback that succeeds leaves the documents that a restore
leaves which replays only the mutations after the snapshot up to the target, when those of the
window that the snapshot reflects are superseded. When it does, and none of these shadows a later
one, they leave each place alone to which no later one comes, wherever nothing newer than what
stands there is among them, or no deletion. -/
theorem rollback_replays_window {e : RangoEngine σ ω} (hids : e.appliedWriteIds = [])
    {c : CollectionName} {snapshot : SnapshotUnit} {rollback : RollbackUnit}
    {window : List Mutation} {now : DateTime} {result : ℕ × RollbackAudit}
    (h : (e.rollbackToSnapshot c snapshot rollback window now).1 = .ok result) :
    let ms := window.filter fun m => m.seq ≤ rollback.targetSeq
    let D := restored (docMap e.storage) c snapshot.state
    (Superseded c e.nodeId D snapshot.baseSeq ms →
      docMap (e.rollbackToSnapshot c snapshot rollback window now).2.storage =
        docMap (e.restoreFromSnapshot c snapshot (window.filter fun m =>
          snapshot.baseSeq < m.seq ∧ m.seq ≤ rollback.targetSeq)).2.storage) ∧
    (docMap (e.rollbackToSnapshot c snapshot rollback window now).2.storage =
        docMap (e.restoreFromSnapshot c snapshot (window.filter fun m =>
          snapshot.baseSeq < m.seq ∧ m.seq ≤ rollback.targetSeq)).2.storage →
      Unshadowed (fun m => snapshot.baseSeq < m.seq) (ms.insertionSort CanonicalLe) →
      ∀ place, (∀ m ∈ arrivals c ms place, m.seq ≤ snapshot.baseSeq) →
        Unsurpassed e.nodeId (D place.1 place.2) (arrivals c ms place) ∨
            (∀ m ∈ arrivals c ms place, ¬ Deletes e.nodeId m) →
          LeftAlone e.nodeId (D place.1 place.2) (arrivals c ms place)) := by
  intro ms D
  obtain ⟨hns, hrestore, n, hok⟩ := rollbackToSnapshot_ok h
  have hstop : (plan [] (ms.insertionSort CanonicalLe)).stopped = none := by
    obtain ⟨docs, -, hout, -⟩ := restoreFromSnapshot_eq e c snapshot hns ms
    rw [hok, hids, Plan.outcome] at hout
    split at hout
    · assumption
    · cases hout
  have hwindow : (window.filter fun m =>
      snapshot.baseSeq < m.seq ∧ m.seq ≤ rollback.targetSeq) =
        ms.filter fun m => snapshot.baseSeq < m.seq := by
    rw [List.filter_filter]
    refine List.filter_congr fun m _ => ?_
    rw [Bool.decide_and]
  have hplace : ∀ (l : List Mutation) (place : CollectionName × String),
      (plan [] (l.insertionSort CanonicalLe)).kept.foldl (deliver c e.nodeId) D place.1 place.2 =
        (arrivals c l place).foldl (arrive e.nodeId) (D place.1 place.2) := fun l place =>
    foldl_deliver_apply c e.nodeId _ D place.1 place.2
  rw [hrestore, hwindow, restoreFromSnapshot_docs hids hns, restoreFromSnapshot_docs hids hns]
  constructor
  · intro hsup
    funext c' k
    rw [hplace ms (c', k), hplace _ (c', k), arrivals_later hstop hsup.unshadowed]
    by_cases hold : ∃ m ∈ arrivals c ms (c', k), m.seq ≤ snapshot.baseSeq
    · rw [← (hsup.reflected _ hold).foldl_arrive, ← hsup.first _ hold]
    · have hall : (arrivals c ms (c', k)).filter (fun m => snapshot.baseSeq < m.seq) =
          arrivals c ms (c', k) := by
        refine List.filter_eq_self.mpr fun m hm => decide_eq_true ?_
        exact Nat.lt_of_not_le fun hle => hold ⟨m, hm, hle⟩
      rw [hall]
  · intro hsame hshadow place hreflected hclear
    have hnone : arrivals c (ms.filter fun m => snapshot.baseSeq < m.seq) place = [] := by
      rw [arrivals_later hstop hshadow]
      refine List.filter_eq_nil_iff.mpr fun m hm hlt => ?_
      have hle := hreflected m hm
      have hlt := of_decide_eq_true hlt
      omega
    apply (foldl_arrive_self_iff hclear).mp
    rw [← hplace ms place, hsame, hplace _ place, hnone, List.foldl_nil]

end RangoEngine
end

/-! ## A worked example -/

section
attribute [local instance] Formatting.sample

/-- A snapshot taken once the document of `sampleInsert` was deleted again. -/
def sampleDeleted : SnapshotUnit :=
  { RangoEngine.emptySnapshot ⟨"c"⟩ with
    baseSeq := sampleDelete.seq
    state := [RangoEngine.mutationDocument "a" sampleDelete] }

/-- A rollback to the snapshot itself. -/
def sampleRollback : RollbackUnit where
  snapshotId := sampleDeleted.snapshotId
  targetSeq := sampleDeleted.baseSeq
  requestedAt := 0
  reason := "audit"

/-- The result of the rollback when the window starts with the insert. -/
def sampleRolledBack :
    Except RangoError (ℕ × RollbackAudit) × RangoEngine MemoryStorage NullOplog :=
  (sampleNode "a").rollbackToSnapshot ⟨"c"⟩ sampleDeleted sampleRollback [sampleInsert] 0

lemma sampleRolledBack_ok :
    sampleRolledBack.1 = .ok (1, { rollback := sampleRollback, appliedAt := 0 }) := by
  decide +kernel

/-- A rollback to the time when the document was inserted again. -/
def sampleLater : RollbackUnit := { sampleRollback with targetSeq := sampleAgain.seq }

/-- A new node's documents with the snapshot's. -/
noncomputable def sampleRestoredDocs : DocMap :=
  restored (docMap (sampleNode "a").storage) ⟨"c"⟩ sampleDeleted.state

lemma sampleRestoredDocs_deleted : sampleRestoredDocs ⟨"c"⟩ "\"d\"" =
    some (RangoEngine.mutationDocument "a" sampleDelete) := by
  have hid : (RangoEngine.mutationDocument "a" sampleDelete).printedId = some "\"d\"" := by
    decide +kernel
  unfold sampleRestoredDocs restored
  rw [show sampleDeleted.state = [RangoEngine.mutationDocument "a" sampleDelete] from rfl,
    placeAll_cons_some ⟨"c"⟩ some _ hid, placeAll, List.foldl_nil]
  exact DocMap.set_self _ _ _ _

/-- The window holds the insert and the delete that the snapshot reflects, and the document is
inserted again after it: to replay the first two makes no difference. -/
theorem RangoEngine.rollback_replays_window_again :
    docMap ((sampleNode "a").rollbackToSnapshot ⟨"c"⟩ sampleDeleted sampleLater
        [sampleInsert, sampleDelete, sampleAgain] 0).2.storage =
      docMap ((sampleNode "a").restoreFromSnapshot ⟨"c"⟩ sampleDeleted
        ([sampleInsert, sampleDelete, sampleAgain].filter fun m =>
          sampleDeleted.baseSeq < m.seq ∧ m.seq ≤ sampleLater.targetSeq)).2.storage := by
  have hok : ((sampleNode "a").rollbackToSnapshot ⟨"c"⟩ sampleDeleted sampleLater
      [sampleInsert, sampleDelete, sampleAgain] 0).1 =
        .ok (3, { rollback := sampleLater, appliedAt := 0 }) := by decide +kernel
  have hd : ∀ place, (∃ m ∈ arrivals ⟨"c"⟩ [sampleInsert, sampleDelete, sampleAgain] place,
      m.seq ≤ sampleDeleted.baseSeq) → place = (⟨"c"⟩, "\"d\"") := by
    rintro place ⟨m, hm, -⟩
    obtain ⟨hkept, hplace⟩ := List.mem_filter.mp hm
    have hmem : m = sampleInsert ∨ m = sampleDelete ∨ m = sampleAgain := by
      simpa using (List.mem_insertionSort _).mp (mem_of_mem_plan_kept hkept)
    have hfiled : m.filedAt ⟨"c"⟩ = some (⟨"c"⟩, "\"d\"") := by
      rcases hmem with rfl | rfl | rfl <;> decide
    exact Option.some.inj ((of_decide_eq_true hplace).symm.trans hfiled)
  apply (rollback_replays_window rfl hok).1
  constructor
  · unfold Unshadowed
    decide +kernel
  · intro place hplace
    rw [hd place hplace]
    decide +kernel
  · intro place hplace
    rw [hd place hplace]
    apply Reflected.buried
    · decide +kernel
    · intro d hfound
      have hdeleted : sampleRestoredDocs ⟨"c"⟩ "\"d\"" = some d := hfound
      rw [sampleRestoredDocs_deleted] at hdeleted
      rw [← Option.some.inj hdeleted]
      decide +kernel
    · refine ⟨[sampleInsert], sampleDelete, by decide +kernel, by decide +kernel, ?_⟩
      decide +kernel

/-- The snapshot reflects the insert and the delete after it. A rollback to the snapshot with the
insert in its window succeeds and brings the document back; a restore that replays what comes
after the snapshot, which is nothing, leaves it deleted. -/
theorem rollback_brings_document_back :
    sampleInsert.seq ≤ sampleDeleted.baseSeq ∧
      sampleDeleted.baseSeq ≤ sampleRollback.targetSeq ∧
      sampleRolledBack.1 = .ok (1, { rollback := sampleRollback, appliedAt := 0 }) ∧
      sampleRolledBack.2.findOne ⟨"c"⟩ ⟨.string "d"⟩ = .ok sampleInsert.patch ∧
      [sampleInsert].filter (fun m =>
        sampleDeleted.baseSeq < m.seq ∧ m.seq ≤ sampleRollback.targetSeq) = [] ∧
      ((sampleNode "a").restoreFromSnapshot ⟨"c"⟩ sampleDeleted []).2.findOne ⟨"c"⟩
        ⟨.string "d"⟩ = .ok none := by
  refine ⟨by decide, by decide, sampleRolledBack_ok, ?_, by decide, ?_⟩
  · decide +kernel
  · decide +kernel

end
end Rango
