import Rango.Lib.Archive
import Rango.Core.ConflictTheorems

/-!
# Arrivals at one place

A replay brings the documents of its mutations to their places one after another. A deleted
document makes way for what arrives next, so it is the live document of a place, or the first live
one that arrives, that the others meet. When none of them is newer that document stays, with the
older ones among its conflicts (`foldl_arrive_iff`). `LeftAlone` says of which arrivals a place
shows nothing.
-/

namespace Rango

section
variable [Formatting]

/-- A place after one more document arrives. -/
def arrive (nodeId : String) (found : Option Document) (m : Mutation) : Option Document :=
  some (resolve found (RangoEngine.mutationDocument nodeId m))

/-- The mutations of a replay that are applied at a place, in their order. -/
def arrivals (default : CollectionName) (ms : List Mutation) (place : CollectionName × String) :
    List Mutation :=
  (plan [] (ms.insertionSort RangoEngine.CanonicalLe)).kept.filter fun m =>
    m.filedAt default = some place

/-- A place sees the mutations that are filed there and no others. -/
lemma foldl_deliver_apply (default : CollectionName) (nodeId : String) (ms : List Mutation)
    (D : DocMap) (c : CollectionName) (k : String) :
    ms.foldl (deliver default nodeId) D c k =
      (ms.filter fun m => m.filedAt default = some (c, k)).foldl (arrive nodeId) (D c k) := by
  induction ms generalizing D with
  | nil => rfl
  | cons m rest ih =>
    rw [List.foldl_cons, ih]
    by_cases hm : m.filedAt default = some (c, k)
    · have hone : deliver default nodeId D m c k = arrive nodeId (D c k) m := by
        unfold Mutation.filedAt at hm
        unfold deliver
        cases htarget : m.targetKey with
        | none => simp [htarget] at hm
        | some k' =>
          rw [htarget, Option.map_some, Option.some.injEq, Prod.mk.injEq] at hm
          rw [← hm.1, ← hm.2]
          exact DocMap.set_self _ _ _ _
      rw [List.filter_cons_of_pos (by simpa using hm), List.foldl_cons, hone]
    · rw [List.filter_cons_of_neg (by simpa using hm), deliver_of_ne hm]

/-- Batches that differ in their order alone bring the same to every place, unless two different
mutations stand at one place of the canonical order. -/
lemma arrivals_perm (default : CollectionName) {ms ms' : List Mutation} (hp : ms.Perm ms')
    (hties : ∀ a ∈ ms, ∀ b ∈ ms, RangoEngine.CanonicalLe a b → RangoEngine.CanonicalLe b a →
      a = b) (place : CollectionName × String) :
    arrivals default ms place = arrivals default ms' place := by
  unfold arrivals
  rw [Sorting.insertionSort_eq_of_perm hp hties]

/-! ## Revisions that meet -/

/-- Resolving documents merges their versions, and a deleted document is forgotten. -/
lemma resolve_merges : Archive.Merges version resolve where
  taken s d h := by
    cases s with
    | none => rfl
    | some l =>
      have hdel : isDeleted l = true := by
        rw [← isNone_body_version, h l rfl]
        rfl
      rw [resolve, if_pos hdel]
  merged := version_resolve

lemma body_version_ne_none {d : Document} : (version d).body ≠ none ↔ isDeleted d = false := by
  rw [← isNone_body_version]
  cases (version d).body <;> simp

lemma body_version_eq_none {d : Document} : (version d).body = none ↔ isDeleted d = true := by
  rw [← isNone_body_version, Option.isNone_iff_eq_none]

/-- Arrivals at a place, as documents. -/
lemma foldl_arrive_eq (nodeId : String) (ms : List Mutation) (found : Option Document) :
    ms.foldl (arrive nodeId) found =
      Archive.replay resolve found (ms.map (RangoEngine.mutationDocument nodeId)) := by
  rw [Archive.replay, List.foldl_map]
  rfl

/-- The mutation brings a deleted document. -/
abbrev Deletes (nodeId : String) (m : Mutation) : Prop :=
  isDeleted (RangoEngine.mutationDocument nodeId m) = true

/-- The mutation's document has a later revision than the stored one. -/
def Newer (nodeId : String) (l : Document) (m : Mutation) : Prop :=
  (docRevision (RangoEngine.mutationDocument nodeId m)).cmp (docRevision l) = .gt

instance (nodeId : String) (l : Document) : DecidablePred (Newer nodeId l) := fun _ =>
  inferInstanceAs (Decidable (Revision.cmp _ _ = .gt))

/-- The mutation's document has an earlier revision than the stored one. -/
def Older (nodeId : String) (l : Document) (m : Mutation) : Prop :=
  (docRevision (RangoEngine.mutationDocument nodeId m)).cmp (docRevision l) = .lt

instance (nodeId : String) (l : Document) : DecidablePred (Older nodeId l) := fun _ =>
  inferInstanceAs (Decidable (Revision.cmp _ _ = .lt))

/-- The documents of the older ones among the mutations. -/
def olderDocuments (nodeId : String) (l : Document) (ms : List Mutation) : List Bson :=
  (ms.filter fun m => Older nodeId l m).map fun m =>
    .document (RangoEngine.mutationDocument nodeId m).entries

/-- A place to which something arrived holds a document. -/
lemma foldl_arrive_isSome (nodeId : String) (found : Option Document) {ms : List Mutation}
    (h : ms ≠ []) : (ms.foldl (arrive nodeId) found).isSome := by
  induction ms using List.reverseRecOn with
  | nil => exact absurd rfl h
  | append_singleton ms m _ =>
    rw [List.foldl_append]
    rfl

omit [Formatting] in
/-- A place holds a live document or none. -/
lemma deleted_or_live (found : Option Document) :
    (∀ d ∈ found, isDeleted d = true) ∨ ∃ l, found = some l ∧ isDeleted l = false := by
  by_cases hdel : ∀ d ∈ found, isDeleted d = true
  · exact .inl hdel
  · push Not at hdel
    obtain ⟨l, hl, hlive⟩ := hdel
    exact .inr ⟨l, hl, by simpa using hlive⟩

omit [Formatting] in
lemma deleted_of_some {l : Document} (h : isDeleted l = true) :
    ∀ d ∈ some l, isDeleted d = true := by
  intro d hd
  rw [← Option.some.inj hd]
  exact h

/-- At a deleted document the first arrival starts anew. -/
lemma arrive_of_deleted (nodeId : String) {found : Option Document}
    (hdel : ∀ d ∈ found, isDeleted d = true) (m : Mutation) :
    arrive nodeId found m = some (RangoEngine.mutationDocument nodeId m) := by
  rw [arrive, resolve_merges.taken found _ fun d hd => body_version_eq_none.mpr (hdel d hd)]

/-- So all arrivals leave the same at two of them. -/
lemma foldl_arrive_of_deleted {nodeId : String} {found found' : Option Document}
    (hdel : ∀ d ∈ found, isDeleted d = true) (hdel' : ∀ d ∈ found', isDeleted d = true)
    {ms : List Mutation} (h : ms ≠ []) :
    ms.foldl (arrive nodeId) found = ms.foldl (arrive nodeId) found' := by
  obtain ⟨m, rest, rfl⟩ := List.exists_cons_of_ne_nil h
  rw [List.foldl_cons, List.foldl_cons, arrive_of_deleted nodeId hdel,
    arrive_of_deleted nodeId hdel']

/-- Arrivals none of which is newer are recorded or ignored. -/
lemma foldl_arrive_of_latest {nodeId : String} {l : Document} {ms : List Mutation}
    (hlive : isDeleted l = false) (h : ∀ m ∈ ms, ¬ Newer nodeId l m) :
    ms.foldl (arrive nodeId) (some l) = some (recordAll l (olderDocuments nodeId l ms)) := by
  suffices hfold : ∀ w, docRevision w = docRevision l → isDeleted w = false →
      ms.foldl (arrive nodeId) (some w) = some (((ms.filter fun m => Older nodeId l m).map
        (RangoEngine.mutationDocument nodeId)).foldl (fun w d => addConflict d w) w) by
    rw [hfold l rfl hlive, foldl_addConflict, List.map_map]
    rfl
  induction ms with
  | nil => exact fun _ _ _ => rfl
  | cons m rest ih =>
    intro w hw hwlive
    have hrest := ih fun x hx => h x (List.mem_cons_of_mem _ hx)
    have hnot := h m List.mem_cons_self
    unfold Newer at hnot
    have hdel : ¬ isDeleted w = true := by
      rw [hwlive]
      exact Bool.false_ne_true
    rw [List.foldl_cons, arrive, resolve, if_neg hdel, hw]
    cases hcmp : (docRevision (RangoEngine.mutationDocument nodeId m)).cmp (docRevision l) with
    | gt => exact absurd hcmp hnot
    | lt =>
      have holder : Older nodeId l m := hcmp
      rw [List.filter_cons_of_pos (by simpa using holder), List.map_cons, List.foldl_cons]
      apply hrest
      · rw [docRevision_addConflict, hw]
      · rw [isDeleted_addConflict, hwlive]
    | eq =>
      have holder : ¬ Older nodeId l m := by
        rw [Older, hcmp]
        decide
      rw [List.filter_cons_of_neg (by simpa using holder)]
      exact hrest w hw hwlive

/-- Without deletions a place stays live, and what stands is as new as all that met there. -/
lemma foldl_arrive_of_live {nodeId : String} {l : Document} {ms : List Mutation}
    (hlive : isDeleted l = false) (hms : ∀ m ∈ ms, ¬ Deletes nodeId m) :
    ∃ w, ms.foldl (arrive nodeId) (some l) = some w ∧ isDeleted w = false ∧
      ∀ d ∈ l :: ms.map (RangoEngine.mutationDocument nodeId), docStamp d ≤ docStamp w := by
  set docs := ms.map (RangoEngine.mutationDocument nodeId) with hdocs
  have hall : ∀ d ∈ l :: docs, isDeleted d = false := by
    intro d hd
    rcases List.mem_cons.mp hd with rfl | hd
    · exact hlive
    · obtain ⟨m, hm, rfl⟩ := List.mem_map.mp hd
      simpa using hms m hm
  have hfold : ms.foldl (arrive nodeId) (some l) = resolveAll (some l) docs := by
    rw [resolveAll, hdocs, List.foldl_map]
    rfl
  obtain ⟨w, hw, hver⟩ := version_resolveAll hall rfl
  have hstanding : Contest.standing docStamp l docs ∈ l :: docs :=
    (Contest.standing_cons_defeated_perm l docs).subset List.mem_cons_self
  obtain ⟨hwlive, hstamp, -⟩ := live_of_version_eq (hall _ hstanding) hver
  refine ⟨w, hfold.trans hw, hwlive, fun d hd => ?_⟩
  have hsame : docStamp w = docStamp (Contest.standing docStamp l docs) := hstamp
  rw [hsame]
  exact Contest.le_standing l docs d hd

/-! ## Arrivals without a newer one -/

/-- Deleted documents take one another's place. -/
lemma foldl_arrive_of_all_deleted {nodeId : String} {found : Option Document}
    {ms : List Mutation} (hdel : ∀ d ∈ found, isDeleted d = true)
    (hall : ∀ m ∈ ms, Deletes nodeId m) : ms.foldl (arrive nodeId) found =
      ms.getLast?.elim found fun m => some (RangoEngine.mutationDocument nodeId m) := by
  induction ms generalizing found with
  | nil => rfl
  | cons m rest ih =>
    rw [List.foldl_cons, arrive_of_deleted nodeId hdel,
      ih (deleted_of_some (hall m List.mem_cons_self)) fun x hx =>
        hall x (List.mem_cons_of_mem _ hx)]
    cases rest with
    | nil => rfl
    | cons x rest =>
      rw [List.getLast?_cons_cons, List.getLast?_cons]
      rfl

/-- What a place holds after arrivals none of which is newer than what stands there: the live
document that was there, or the first live one that came where none was, each with the older ones
that came afterwards among its last ten conflicts; or the last of nothing but deleted ones. -/
inductive Leaves (nodeId : String) :
    Option Document → List Mutation → Option Document → Prop where
  | live {l : Document} {ms : List Mutation} : isDeleted l = false →
      (∀ m ∈ ms, ¬ Newer nodeId l m) →
      Leaves nodeId (some l) ms (some (recordAll l (olderDocuments nodeId l ms)))
  | deleted {found : Option Document} {ms : List Mutation} :
      (∀ d ∈ found, isDeleted d = true) → (∀ m ∈ ms, Deletes nodeId m) →
      Leaves nodeId found ms
        (ms.getLast?.elim found fun m => some (RangoEngine.mutationDocument nodeId m))
  | first {found : Option Document} {pre rest : List Mutation} {m : Mutation} {l : Document} :
      (∀ d ∈ found, isDeleted d = true) → (∀ x ∈ pre, Deletes nodeId x) →
      RangoEngine.mutationDocument nodeId m = l → isDeleted l = false →
      (∀ x ∈ rest, ¬ Newer nodeId l x) →
      Leaves nodeId found (pre ++ m :: rest) (some (recordAll l (olderDocuments nodeId l rest)))

/-- The place holds that. -/
lemma Leaves.foldl_arrive {nodeId : String} {found left : Option Document} {ms : List Mutation}
    (h : Leaves nodeId found ms left) : ms.foldl (arrive nodeId) found = left := by
  cases h with
  | live hlive hnewer => exact foldl_arrive_of_latest hlive hnewer
  | deleted hdel hall => exact foldl_arrive_of_all_deleted hdel hall
  | @first found pre rest m l hdel hpre hm hlive hnewer =>
    have hgone : ∀ d ∈ pre.foldl (arrive nodeId) found, isDeleted d = true := by
      rw [foldl_arrive_of_all_deleted hdel hpre]
      cases hlast : pre.getLast? with
      | none => exact hdel
      | some x => exact deleted_of_some (hpre x (List.mem_of_getLast? hlast))
    rw [List.foldl_append, List.foldl_cons, arrive_of_deleted nodeId hgone, hm]
    exact foldl_arrive_of_latest hlive hnewer

/-- Nothing that arrives is newer than the live document that is there, or than the first live one
that comes where none is. -/
def Unsurpassed (nodeId : String) (found : Option Document) (ms : List Mutation) : Prop :=
  ∃ left, Leaves nodeId found ms left

/-- **Arrivals without a newer one.** They leave that and nothing else. -/
theorem foldl_arrive_iff {nodeId : String} {found left : Option Document} {ms : List Mutation}
    (h : Unsurpassed nodeId found ms) :
    ms.foldl (arrive nodeId) found = left ↔ Leaves nodeId found ms left := by
  constructor
  · rintro rfl
    obtain ⟨left, hleft⟩ := h
    rw [hleft.foldl_arrive]
    exact hleft
  · exact Leaves.foldl_arrive

/-- Otherwise something newer than its live document arrives, or something live where none is. -/
lemma of_not_unsurpassed {nodeId : String} {found : Option Document} {ms : List Mutation}
    (h : ¬ Unsurpassed nodeId found ms) :
    (∃ l, found = some l ∧ isDeleted l = false ∧ ∃ m ∈ ms, Newer nodeId l m) ∨
      (∀ d ∈ found, isDeleted d = true) ∧ ∃ m ∈ ms, ¬ Deletes nodeId m := by
  rcases deleted_or_live found with hdel | ⟨l, rfl, hlive⟩
  · right
    refine ⟨hdel, ?_⟩
    by_contra hnone
    push Not at hnone
    exact h ⟨_, .deleted hdel hnone⟩
  · left
    refine ⟨l, rfl, hlive, ?_⟩
    by_contra hnone
    push Not at hnone
    exact h ⟨_, .live hlive hnone⟩

/-! ## Arrivals that change nothing -/

/-- Arrivals that leave what is there as it is: there are none; or it is live, nothing newer
comes, and the older ones leave no trace in its record; or it is deleted, as is all that comes, and
comes last itself. -/
inductive LeftAlone (nodeId : String) : Option Document → List Mutation → Prop where
  | idle (found : Option Document) : LeftAlone nodeId found []
  | live {l : Document} {ms : List Mutation} : isDeleted l = false →
      (∀ m ∈ ms, ¬ Newer nodeId l m) →
      ((∀ m ∈ ms, ¬ Older nodeId l m) ∨
        ∀ arr ∈ conflictRecord l, (arr ++ olderDocuments nodeId l ms).rtake 10 = arr) →
      LeftAlone nodeId (some l) ms
  | deleted {l : Document} {pre : List Mutation} {m : Mutation} : isDeleted l = true →
      (∀ x ∈ pre, Deletes nodeId x) → RangoEngine.mutationDocument nodeId m = l →
      LeftAlone nodeId (some l) (pre ++ [m])

/-- The older ones of the arrivals leave no trace in a record. -/
lemma recordAll_olderDocuments_iff (nodeId : String) (l : Document) (ms : List Mutation) :
    recordAll l (olderDocuments nodeId l ms) = l ↔ (∀ m ∈ ms, ¬ Older nodeId l m) ∨
      ∀ arr ∈ conflictRecord l, (arr ++ olderDocuments nodeId l ms).rtake 10 = arr := by
  have hnone : olderDocuments nodeId l ms = [] ↔ ∀ m ∈ ms, ¬ Older nodeId l m := by
    rw [olderDocuments, List.map_eq_nil_iff, List.filter_eq_nil_iff]
    simp
  rw [← hnone, recordAll_eq_self_iff]

lemma LeftAlone.foldl_arrive {nodeId : String} {found : Option Document} {ms : List Mutation}
    (h : LeftAlone nodeId found ms) : ms.foldl (arrive nodeId) found = found := by
  cases h with
  | idle => rfl
  | live hlive hnewer hrecord =>
    rw [foldl_arrive_of_latest hlive hnewer, (recordAll_olderDocuments_iff ..).mpr hrecord]
  | @deleted l pre m hdel hpre hm =>
    have hall : ∀ x ∈ pre ++ [m], Deletes nodeId x := by
      intro x hx
      rcases List.mem_append.mp hx with hx | hx
      · exact hpre x hx
      · rw [List.mem_singleton.mp hx, Deletes, hm]
        exact hdel
    rw [foldl_arrive_of_all_deleted (deleted_of_some hdel) hall, List.getLast?_concat, ← hm]
    rfl

/-- What a place holds afterwards is what was there only when it was left alone. -/
lemma Leaves.leftAlone {nodeId : String} {found left : Option Document} {ms : List Mutation}
    (h : Leaves nodeId found ms left) (hsame : left = found) : LeftAlone nodeId found ms := by
  cases h with
  | live hlive hnewer =>
    exact .live hlive hnewer ((recordAll_olderDocuments_iff ..).mp (Option.some.inj hsame))
  | deleted hdel hall =>
    rcases List.eq_nil_or_concat' ms with rfl | ⟨pre, m, rfl⟩
    · exact .idle found
    · rw [List.getLast?_concat] at hsame
      have hfound : found = some (RangoEngine.mutationDocument nodeId m) := hsame.symm
      rw [hfound]
      exact .deleted (hall m (by simp)) (fun x hx => hall x (List.mem_append_left _ hx)) rfl
  | @first _ pre rest m l hdel hpre hm hlive hnewer =>
    have hrecorded := hdel _ hsame.symm
    rw [isDeleted_recordAll, hlive] at hrecorded
    cases hrecorded

/-- A place that stays as it is, when nothing newer than what stands there arrives or no deletion
does. -/
theorem foldl_arrive_self_iff {nodeId : String} {found : Option Document} {ms : List Mutation}
    (h : Unsurpassed nodeId found ms ∨ ∀ m ∈ ms, ¬ Deletes nodeId m) :
    ms.foldl (arrive nodeId) found = found ↔ LeftAlone nodeId found ms := by
  refine ⟨fun hfold => ?_, LeftAlone.foldl_arrive⟩
  by_cases hclear : Unsurpassed nodeId found ms
  · exact ((foldl_arrive_iff hclear).mp hfold).leftAlone rfl
  have hms := h.resolve_left hclear
  rcases of_not_unsurpassed hclear with ⟨l, rfl, hlive, m, hm, hnewer⟩ | ⟨hdel, m, hm, hlive⟩
  · -- what stands is newer than what was there
    obtain ⟨w, hw, -, hle⟩ := foldl_arrive_of_live hlive hms
    obtain rfl : l = w := Option.some.inj (hfold.symm.trans hw)
    have hmem := hle _ (List.mem_cons_of_mem _ (List.mem_map_of_mem hm))
    exact absurd hmem (Revision.cmp_eq_gt.mp hnewer).not_ge
  · -- the first arrival makes the place live for good
    obtain ⟨x, rest, rfl⟩ := List.exists_cons_of_ne_nil (List.ne_nil_of_mem hm)
    have hx : isDeleted (RangoEngine.mutationDocument nodeId x) = false := by
      simpa using hms x List.mem_cons_self
    obtain ⟨w, hw, hwlive, -⟩ :=
      foldl_arrive_of_live hx fun y hy => hms y (List.mem_cons_of_mem _ hy)
    rw [List.foldl_cons, arrive_of_deleted nodeId hdel, hw] at hfold
    rw [hdel w hfold.symm] at hwlive
    cases hwlive

end
end Rango
