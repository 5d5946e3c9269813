import Rango.Core.ConflictTheorems

/-!
# Resolved conflicts

`resolve_conflict` puts a listed version back as it was sent, under its old `_rev`. Later
deliveries are compared with that revision like with any other: `resolution_survives_iff` says
which of them take the place of the chosen version, and with it the resolution, again.
-/

namespace Rango

/-! ## User fields -/

/-- The fields that the engine controls. -/
def reservedFields : List String :=
  ["_id", "_rev", "_updated_at", "_source_node", "_deleted", "_conflicts"]

/-- Documents that agree on the fields of the user. -/
def SameUserFields (a b : Document) : Prop := ∀ key ∉ reservedFields, a.get key = b.get key

namespace SameUserFields

variable {a b c : Document}

lemma refl (a : Document) : SameUserFields a a := fun _ _ => rfl

lemma symm (h : SameUserFields a b) : SameUserFields b a := fun key hkey => (h key hkey).symm

lemma trans (h : SameUserFields a b) (h' : SameUserFields b c) : SameUserFields a c :=
  fun key hkey => (h key hkey).trans (h' key hkey)

end SameUserFields

lemma conflicts_ne_of_user {key : String} (hkey : key ∉ reservedFields) : "_conflicts" ≠ key := by
  rintro rfl
  exact hkey (by decide)

lemma sameUserFields_addConflict (l w : Document) : SameUserFields (addConflict l w) w :=
  fun _ hkey => get_addConflict l w (conflicts_ne_of_user hkey)

/-! ## The chosen version -/

namespace RangoEngine

/-- The conflict that `resolve_conflict` finds in the array: the last one listed with that
revision. -/
def chosenIn (rev : Revision) (arr : List Bson) : Option Document :=
  ((documentsOf arr).filter fun doc => isRevision rev (.document doc.entries)).getLast?

lemma chooseLoop_eq (rev : Revision) (arr kept : List Bson) (chosen : Option Document) :
    (chooseLoop rev kept chosen arr).2 = (chosenIn rev arr).or chosen := by
  induction arr generalizing kept chosen with
  | nil => rfl
  | cons item rest ih =>
    rw [chooseLoop]
    cases hdoc : item.asDocument with
    | none =>
      -- an item that is no document is kept and never chosen
      have hlisted : documentsOf (item :: rest) = documentsOf rest := by simp [documentsOf, hdoc]
      rw [ih, chosenIn, chosenIn, hlisted]
    | some doc =>
      have hlisted : documentsOf (item :: rest) = doc :: documentsOf rest := by
        simp [documentsOf, hdoc]
      have hsame : isRevision rev item = isRevision rev (.document doc.entries) := by
        rw [isRevision, hdoc]
        rfl
      rw [chosenIn, hlisted, List.filter_cons, ← hsame]
      dsimp only
      split_ifs
      · -- a later one with that revision takes precedence
        rw [ih, List.getLast?_cons, ← chosenIn]
        cases chosenIn rev rest <;> rfl
      · rw [ih, ← chosenIn]

end RangoEngine

/-- The version that a resolution of `found` to `rev` chooses. -/
def chosenVersion (rev : Revision) (found : Option Document) : Option Document :=
  (found.bind (·.getArray "_conflicts")).bind (RangoEngine.chosenIn rev)

/-- It has that revision. -/
lemma docRevision_of_chosen [Formatting] {rev : Revision} {found : Option Document}
    {doc : Document} (h : doc ∈ chosenVersion rev found) : docRevision doc = rev := by
  obtain ⟨arr, -, hchosen⟩ := Option.bind_eq_some_iff.mp h
  have hmem := List.mem_of_getLast? hchosen
  have hrev := (List.mem_filter.mp hmem).2
  rw [RangoEngine.isRevision, Bson.asDocument] at hrev
  have hread := of_decide_eq_true hrev
  rw [docRevision, hread]
  rfl

lemma get_withConflicts (doc : Document) (rest : List Bson) {key : String}
    (h : "_conflicts" ≠ key) : (RangoEngine.withConflicts doc rest).get key = doc.get key := by
  unfold RangoEngine.withConflicts
  split_ifs
  · exact Document.get_remove_of_ne _ h
  · exact Document.get_insert_of_ne _ _ h

/-- The version that is put back: the chosen one, `_conflicts` apart. -/
structure Reinstates [Formatting] (p doc : Document) : Prop where
  fields : SameUserFields p doc
  deleted : isDeleted p = isDeleted doc
  revision : docRevision p = docRevision doc

lemma reinstates_withConflicts [Formatting] (doc : Document) (rest : List Bson) :
    Reinstates (RangoEngine.withConflicts doc rest) doc where
  fields _ hkey := get_withConflicts doc rest (conflicts_ne_of_user hkey)
  deleted := by
    unfold isDeleted Document.getBool
    rw [get_withConflicts doc rest (by decide)]
  revision := by
    unfold docRevision Document.getStr
    rw [get_withConflicts doc rest (by decide)]

section
variable [Formatting]

/-! ## What meets it afterwards -/

/-- The version that comes does not take the place of `p`, or brings the same fields. -/
def Outlasts (p d : Document) : Prop :=
  (isDeleted p = false ∧ (docRevision d).cmp (docRevision p) ≠ .gt) ∨ SameUserFields d p

lemma sameUserFields_resolve_iff (p d : Document) :
    SameUserFields (resolve (some p) d) p ↔ Outlasts p d := by
  by_cases hdel : isDeleted p = true
  · -- a stored tombstone gives way to any document
    have hresolve : resolve (some p) d = d := by simp only [resolve, hdel, if_true]
    rw [hresolve, Outlasts, hdel]
    simp
  have hlive : isDeleted p = false := by simpa using hdel
  rw [Outlasts, hlive]
  cases hcmp : (docRevision d).cmp (docRevision p) with
  | eq =>
    have hresolve : resolve (some p) d = p := by
      simp only [resolve, hlive, hcmp, Bool.false_eq_true, if_false]
    rw [hresolve]
    exact iff_of_true (.refl p) (Or.inl ⟨rfl, by decide⟩)
  | lt =>
    have hresolve : resolve (some p) d = addConflict d p := by
      simp only [resolve, hlive, hcmp, Bool.false_eq_true, if_false]
    rw [hresolve]
    exact iff_of_true (sameUserFields_addConflict d p) (Or.inl ⟨rfl, by decide⟩)
  | gt =>
    have hresolve : resolve (some p) d = addConflict p d := by
      simp only [resolve, hlive, hcmp, Bool.false_eq_true, if_false]
    have hwinner := sameUserFields_addConflict p d
    rw [hresolve, or_iff_right (by simp)]
    exact ⟨hwinner.symm.trans, hwinner.trans⟩

/-- A reinstated version stands as the chosen one would. -/
lemma Reinstates.outlasts_iff {p doc : Document} (h : Reinstates p doc) (d : Document) :
    Outlasts p d ↔ Outlasts doc d := by
  rw [Outlasts, Outlasts, h.deleted, h.revision]
  exact or_congr_right ⟨fun hsame => hsame.trans h.fields, fun hsame => hsame.trans h.fields.symm⟩

/-- Versions that are no greater leave a live one in place, however many come. -/
lemma sameUserFields_resolveAll {p : Document} {docs : List Document} (hp : isDeleted p = false)
    (hle : ∀ d ∈ docs, (docRevision d).cmp (docRevision p) ≠ .gt) :
    ∃ q, resolveAll (some p) docs = some q ∧ SameUserFields q p := by
  induction docs generalizing p with
  | nil => exact ⟨p, rfl, .refl p⟩
  | cons d rest ih =>
    have hd : (docRevision d).cmp (docRevision p) ≠ .gt := hle d List.mem_cons_self
    -- the version in place may take in a conflict, but stays live and keeps its revision
    have hstays : isDeleted (resolve (some p) d) = false ∧
        docRevision (resolve (some p) d) = docRevision p := by
      cases hcmp : (docRevision d).cmp (docRevision p) with
      | gt => exact absurd hcmp hd
      | eq => simp only [resolve, hp, hcmp, Bool.false_eq_true, if_false, and_self]
      | lt =>
        simp only [resolve, hp, hcmp, Bool.false_eq_true, if_false, isDeleted_addConflict,
          docRevision_addConflict, and_self]
    obtain ⟨q, hq, hfields⟩ := ih hstays.1 fun x hx => by
      rw [hstays.2]
      exact hle x (List.mem_cons_of_mem _ hx)
    exact ⟨q, hq, hfields.trans ((sameUserFields_resolve_iff p d).mpr (Or.inl ⟨hp, hd⟩))⟩

namespace RangoEngine

variable {σ ω : Type} [FallibleStorage σ] {e e' e'' : RangoEngine σ ω} {c : CollectionName}
  {id : DocumentId} {rev : Revision}

/-- What a successful resolution leaves. -/
lemma resolveConflict_stored (h : e.resolveConflict c id rev = (.ok (), e')) :
    ∃ doc ∈ chosenVersion rev (stored e.storage c id.toString), ∃ p, Reinstates p doc ∧
      stored e'.storage = (stored e.storage).set c id.toString (some p) := by
  obtain ⟨w, e₁, hplace, hkeeps, -, h⟩ := stored_of_found h (by simp)
  cases harr : w.getArray "_conflicts" with
  | none =>
    rw [harr] at h
    cases h
  | some arr =>
    rw [harr] at h
    dsimp only at h
    have hchosen := chooseLoop_eq rev arr [] none
    rcases hloop : chooseLoop rev [] none arr with ⟨rest, chosen⟩
    rw [hloop] at h hchosen
    cases chosen with
    | none => cases h
    | some doc =>
      refine ⟨doc, ?_, withConflicts doc rest, reinstates_withConflicts doc rest, ?_⟩
      · -- the loop starts without a choice, so it has chosen from the array
        rw [Option.or_none] at hchosen
        rw [hplace, chosenVersion, Option.bind_some, harr, Option.bind_some, Option.mem_def,
          ← hchosen]
      · have hput := storagePut_stored e₁ c id (withConflicts doc rest)
        have hdone : e₁.storagePut c id (withConflicts doc rest) = (.ok (), e') := h
        rw [hdone] at hput
        rw [← hkeeps]
        exact hput

/-- **Resolutions.** After every successful resolution to a listed revision, a document that is
applied leaves the user fields of the stored document as the resolution set them, exactly when the
chosen version is live and has no lesser revision than that document, or the document has the
user fields of the chosen version itself. -/
theorem resolution_survives_iff {d : Document} (hid : d.get "_id" = some id.bson)
    (hresolve : e.resolveConflict c id rev = (.ok (), e'))
    (hredeliver : e'.applyRemoteMutation c d = (.ok (), e'')) :
    (∀ p q, stored e'.storage c id.toString = some p → stored e''.storage c id.toString = some q →
      SameUserFields q p) ↔
    ∃ doc ∈ chosenVersion rev (stored e.storage c id.toString), Outlasts doc d := by
  obtain ⟨doc, hdoc, p, hp, hset⟩ := resolveConflict_stored hresolve
  have hplace : stored e'.storage c id.toString = some p := by rw [hset, DocMap.set_self]
  have hafter : stored e''.storage c id.toString = some (resolve (some p) d) := by
    rw [applyRemoteMutation_set hid hredeliver, DocMap.set_self, hplace]
  constructor
  · intro hkept
    have hsame := hkept p _ hplace hafter
    exact ⟨doc, hdoc, (hp.outlasts_iff d).mp ((sameUserFields_resolve_iff p d).mp hsame)⟩
  · rintro ⟨doc', hdoc', houtlasts⟩ p' q hp' hq
    obtain rfl := Option.mem_unique hdoc hdoc'
    obtain rfl := Option.some.inj (hplace.symm.trans hp')
    obtain rfl := Option.some.inj (hafter.symm.trans hq)
    exact (sameUserFields_resolve_iff p d).mpr ((hp.outlasts_iff d).mpr houtlasts)

/-- However many documents are applied after it, a resolution to a live version survives them if
none has a greater revision. -/
theorem resolution_survives_all {docs : List Document}
    (hid : ∀ d ∈ docs, d.get "_id" = some id.bson)
    (hresolve : e.resolveConflict c id rev = (.ok (), e'))
    (hlive : ∀ doc ∈ chosenVersion rev (stored e.storage c id.toString), isDeleted doc = false)
    (hle : ∀ d ∈ docs, (docRevision d).cmp rev ≠ .gt)
    (hredeliver : e'.applyAll c docs = (.ok (), e'')) :
    ∃ doc ∈ chosenVersion rev (stored e.storage c id.toString),
      ∃ q, stored e''.storage c id.toString = some q ∧ SameUserFields q doc := by
  obtain ⟨doc, hdoc, p, hp, hset⟩ := resolveConflict_stored hresolve
  have hrev : docRevision p = rev := hp.revision.trans (docRevision_of_chosen hdoc)
  obtain ⟨q, hq, hfields⟩ := sameUserFields_resolveAll
    (hp.deleted.trans (hlive doc hdoc)) fun d hd => by
      rw [hrev]
      exact hle d hd
  refine ⟨doc, hdoc, q, ?_, hfields.trans hp.fields⟩
  rw [applyAll_stored hid hredeliver, DocMap.set_self, hset, DocMap.set_self, hq]

end RangoEngine
end

/-! ## Worked examples -/

section
attribute [local instance] Formatting.sample

/-- The node that has stored the greater of the two versions, and chooses the lesser. -/
def sampleResolved : Except RangoError Unit × RangoEngine MemoryStorage NullOplog :=
  (sampleMeeting sampleVersions).2.resolveConflict ⟨"c"⟩ ⟨.string "d"⟩ ⟨"1-0-a"⟩

lemma sampleResolved_ok : sampleResolved = (.ok (), sampleResolved.2) :=
  Prod.ext (by decide +kernel) rfl

/-- For the two versions: the chosen one comes once more. -/
theorem RangoEngine.resolution_survives_iff_chosen :
    (∀ p q, stored sampleResolved.2.storage ⟨"c"⟩ (DocumentId.toString ⟨.string "d"⟩) = some p →
      stored (sampleResolved.2.applyRemoteMutation ⟨"c"⟩ (sampleVersion "1-0-a" "A")).2.storage
        ⟨"c"⟩ (DocumentId.toString ⟨.string "d"⟩) = some q → SameUserFields q p) ↔
    ∃ doc ∈ chosenVersion ⟨"1-0-a"⟩ (stored (sampleMeeting sampleVersions).2.storage ⟨"c"⟩
      (DocumentId.toString ⟨.string "d"⟩)), Outlasts doc (sampleVersion "1-0-a" "A") :=
  resolution_survives_iff rfl sampleResolved_ok (Prod.ext (by decide +kernel) rfl)

/-- The greater version, which had been applied before the lesser one was chosen, comes again:
it is what the place holds from then on. -/
theorem resolution_is_undone :
    sampleVersion "2-0-a" "B" ∈ sampleVersions ∧
      stored sampleResolved.2.storage ⟨"c"⟩ "\"d\"" = some (sampleVersion "1-0-a" "A") ∧
      stored (sampleResolved.2.applyRemoteMutation ⟨"c"⟩
          (sampleVersion "2-0-a" "B")).2.storage ⟨"c"⟩ "\"d\"" =
        some (addConflict (sampleVersion "1-0-a" "A") (sampleVersion "2-0-a" "B")) ∧
      ¬ SameUserFields (addConflict (sampleVersion "1-0-a" "A") (sampleVersion "2-0-a" "B"))
        (sampleVersion "1-0-a" "A") := by
  refine ⟨by decide, by decide +kernel, by decide +kernel, fun hsame => ?_⟩
  exact absurd (hsame "name" (by decide)) (by decide)

/-- A version with a leading zero in its revision counts as the stored one and is dropped. The
stored one, listed as a conflict, cannot be chosen by that revision. -/
theorem respelled_version_dropped :
    Revision.fromStr "1-0-a" = .ok ⟨"1-0-a"⟩ ∧ Revision.fromStr "01-0-a" = .ok ⟨"01-0-a"⟩ ∧
      Revision.cmp ⟨"1-0-a"⟩ ⟨"01-0-a"⟩ = .eq ∧ (⟨"1-0-a"⟩ : Revision) ≠ ⟨"01-0-a"⟩ ∧
      stored (sampleMeeting [sampleVersion "1-0-a" "A", sampleVersion "01-0-a" "B"]).2.storage
        ⟨"c"⟩ "\"d\"" = some (sampleVersion "1-0-a" "A") ∧
      ((sampleMeeting sampleVersions).2.resolveConflict ⟨"c"⟩ ⟨.string "d"⟩ ⟨"01-0-a"⟩).1 =
        .error (.conflict "Chosen revision not found in conflicts") := by
  refine ⟨by decide, by decide, by decide, by decide, ?_, ?_⟩
  · decide +kernel
  · decide +kernel

end
end Rango
