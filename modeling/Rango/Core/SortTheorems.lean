import Rango.Core.FindTheorems

/-!
# Sorts and range operators

Whether the documents of an ascending sort stand in the order that the range operators see. They
do, whatever the sort makes of keys it cannot order, just when the values are `RangeOrdered`: no
integer is greater than a double, and no NaN is among doubles that differ
(`RangoEngine.sort_agrees_iff`).
-/

namespace Rango

open StableSort Query

/-! ## Projections -/

/-- The keys of a `bson::Document` are distinct. -/
def Document.DistinctKeys (doc : Document) : Prop := (doc.entries.map Prod.fst).Nodup

instance (doc : Document) : Decidable doc.DistinctKeys :=
  inferInstanceAs (Decidable (doc.entries.map Prod.fst).Nodup)

lemma Document.get_of_mem {doc : Document} (h : doc.DistinctKeys) {kv : String × Bson}
    (hmem : kv ∈ doc.entries) : doc.get kv.1 = some kv.2 := by
  obtain ⟨entries⟩ := doc
  show IndexMap.get entries kv.1 = some kv.2
  replace h : (entries.map Prod.fst).Nodup := h
  induction entries with
  | nil => cases hmem
  | cons entry rest ih =>
    obtain ⟨hfresh, hrest⟩ := List.nodup_cons.mp h
    rcases List.mem_cons.mp hmem with rfl | htail
    · exact if_pos rfl
    · have hne : entry.1 ≠ kv.1 := fun heq => hfresh (heq ▸ List.mem_map_of_mem htail)
      exact (if_neg hne).trans (ih htail hrest)

/-- All fields of the first document are fields of the second. -/
def Document.Within (part doc : Document) : Prop :=
  ∀ k v, part.get k = some v → doc.get k = some v

namespace Document.Within

variable {part doc : Document}

lemma empty (doc : Document) : Document.empty.Within doc := fun _ _ h => by cases h

lemma insert (h : part.Within doc) {k : String} {v : Bson} (hv : doc.get k = some v) :
    (part.insert k v).Within doc := by
  intro k' v' h'
  by_cases hk : k = k'
  · subst hk
    rw [get_insert_self] at h'
    cases h'
    exact hv
  · exact h k' v' (by rwa [get_insert_of_ne part v hk] at h')

/-- A loop that inserts fields of the document. -/
lemma foldl {α : Type} {step : Document → α → Document} {l : List α}
    (hstep : ∀ part, part.Within doc → ∀ a ∈ l, (step part a).Within doc) (h : part.Within doc) :
    (l.foldl step part).Within doc := by
  induction l generalizing part with
  | nil => exact h
  | cons a l ih =>
    refine ih (fun part hpart b hb => hstep part hpart b (List.mem_cons_of_mem a hb)) ?_
    exact hstep part h a List.mem_cons_self

lemma includeField (h : part.Within doc) (k : String) : (includeField doc part k).Within doc := by
  unfold Query.includeField
  split
  · rename_i v hv
    exact h.insert hv
  · exact h

end Document.Within

lemma project_within {doc proj result : Document} (h : doc.DistinctKeys)
    (hres : project doc proj = .ok result) : result.Within doc := by
  have hincluded : (proj.entries.foldl (fun result kv =>
      if kv.2.asI32 = some 1 then includeField doc result kv.1 else result)
      Document.empty).Within doc := by
    refine .foldl (fun part hpart kv _ => ?_) (.empty doc)
    split_ifs
    · exact hpart.includeField kv.1
    · exact hpart
  simp only [project] at hres
  split_ifs at hres
  · cases hres
    exact hincluded.includeField "_id"
  · cases hres
    exact hincluded
  · -- an exclusion
    cases hres
    refine .foldl (fun part hpart kv hkv => ?_) (.empty doc)
    split_ifs
    · exact hpart.insert (doc.get_of_mem h hkv)
    · exact hpart

/-- A projection keeps fields and makes up none. -/
lemma projected_within {doc : Document} (h : doc.DistinctKeys) (projection : Option Document) :
    (projected projection doc).Within doc := by
  unfold projected
  split
  · rename_i proj
    cases hres : project doc proj with
    | ok result => exact project_within h hres
    | error err => exact fun _ _ hget => hget
  · exact fun _ _ hget => hget

/-! ## Values of a field -/

section
variable [BsonTraits]

/-- A sort of the values puts none before one that it is greater than. -/
structure RangeOrdered (values : List Bson) : Prop where
  mixed : ∀ a ∈ values, ∀ b ∈ values, Mixed a b → compareValues a b ≠ .ok .gt
  doubles : (∀ x, .double x ∈ values → x.isNaN = false) ∨
    ∀ x y, .double x ∈ values → .double y ∈ values →
      compareValues (.double x) (.double y) ≠ .ok .gt

/-- The values that the documents hold in the field. -/
def fieldValues (field : String) (docs : List Document) : List Bson :=
  docs.filterMap (·.get field)

variable {field : String} {docs : List Document}

omit [BsonTraits] in
lemma mem_fieldValues {v : Bson} : v ∈ fieldValues field docs ↔ ∃ d ∈ docs, d.get field = some v :=
  List.mem_filterMap

lemma double_mem_keys {x : F64} :
    SortKey.double x ∈ docs.map (sortKeyOrNull field) ↔ .double x ∈ fieldValues field docs := by
  rw [mem_fieldValues, List.mem_map]
  simp only [sortKeyOrNull_eq, keyOf_eq_double]

lemma compareValues_double_iff {x y : F64} :
    compareValues (.double x) (.double y) = .ok .gt ↔ (SortKey.double x).cmp (.double y) = .gt := by
  show comparePartial x y = _ ↔ (x.partialCmp y).getD .eq = .gt
  unfold comparePartial
  cases x.partialCmp y with
  | none => simp
  | some ord => simp

/-- Steady keys, in terms of the range operators. -/
lemma steady_iff : SortKey.Steady (docs.map (sortKeyOrNull field)) ↔
    (∀ x, .double x ∈ fieldValues field docs → x.isNaN = false) ∨
      ∀ x y, .double x ∈ fieldValues field docs → .double y ∈ fieldValues field docs →
        compareValues (.double x) (.double y) ≠ .ok .gt := by
  simp only [SortKey.Steady, double_mem_keys, ne_eq, compareValues_double_iff]
  refine or_congr Iff.rfl ⟨fun h x y hx hy hgt => ?_, fun h x y hx hy => ?_⟩
  · rw [h x y hx hy] at hgt
    cases hgt
  · have hswap := SortKey.cmp_swap (.double x) (.double y)
    cases hcmp : (SortKey.double x).cmp (.double y) with
    | eq => rfl
    | gt => exact absurd hcmp (h x y hx hy)
    | lt => exact absurd (by rw [hswap, hcmp]; rfl) (h y x hy hx)

/-! ## Documents in order -/

/-- The first document's value is not greater than the second's. -/
def NotGreater (field : String) (x y : Document) : Prop :=
  ∀ a b, x.get field = some a → y.get field = some b → compareValues a b ≠ .ok .gt

/-- No document of the cursor comes before one whose value it exceeds. -/
def InRangeOrder (field : String) (cursor : List (Except RangoError Document)) : Prop :=
  cursor.Pairwise fun x y => ∀ d d', x = .ok d → y = .ok d' → NotGreater field d d'

lemma sortOrder_of_get {x y : Document} {a b : Bson} (ha : x.get field = some a)
    (hb : y.get field = some b) :
    sortOrder field false x y = (keyOf (some a)).cmp (keyOf (some b)) := by
  show (sortKeyOrNull field x).cmp (sortKeyOrNull field y) = _
  rw [sortKeyOrNull_eq, sortKeyOrNull_eq, ha, hb]

/-- What a sort puts first is not greater. -/
lemma notGreater_of_sortOrder {x y : Document}
    (hmixed : ∀ a ∈ fieldValues field docs, ∀ b ∈ fieldValues field docs, Mixed a b →
      compareValues a b ≠ .ok .gt)
    (hx : x ∈ docs) (hy : y ∈ docs) (hle : sortOrder field false x y ≠ .gt) :
    NotGreater field x y := by
  intro a b ha hb hgt
  rw [sortOrder_of_get ha hb] at hle
  by_cases hab : Mixed a b
  · exact hmixed a (mem_fieldValues.mpr ⟨x, hx, ha⟩) b (mem_fieldValues.mpr ⟨y, hy, hb⟩) hab hgt
  by_cases hba : Mixed b a
  · -- the double stands behind the integer
    rw [SortKey.cmp_swap, cmp_of_mixed hba] at hle
    exact hle rfl
  · exact hle (cmp_of_compareValues hgt hab hba)

/-- A slice of ordered documents, projected. -/
lemma inRangeOrder_sliced {ordered : List Document} (h : ordered.Pairwise (NotGreater field))
    (hkeys : ∀ doc ∈ ordered, doc.DistinctKeys) (projection : Option Document) (skip : ℕ)
    (limit : Option ℕ) :
    InRangeOrder field
      ((sliced skip limit ordered).map fun doc => .ok (projected projection doc)) := by
  have hsub : (sliced skip limit ordered).Sublist ordered := by
    cases limit with
    | none => exact List.drop_sublist skip ordered
    | some n => exact (List.take_sublist n _).trans (List.drop_sublist skip ordered)
  refine List.pairwise_map.mpr ((h.sublist hsub).imp_of_mem fun {x y} hx hy hxy => ?_)
  intro d d' hd hd' a b ha hb
  cases hd
  cases hd'
  exact hxy a b (projected_within (hkeys x (hsub.subset hx)) projection field a ha)
    (projected_within (hkeys y (hsub.subset hy)) projection field b hb)

/-- Ordered documents without a slice or a projection. -/
lemma pairwise_of_inRangeOrder {ordered : List Document}
    (h : InRangeOrder field ((sliced 0 none ordered).map fun doc => .ok (projected none doc))) :
    ordered.Pairwise (NotGreater field) :=
  (List.pairwise_map.mp h).imp fun hxy => hxy _ _ rfl rfl

/-! ## Sorts -/

/-- A sort that rearranges what it cannot order. -/
@[reducible] noncomputable def SliceSort.careless (rearrange : List Document → List Document)
    (hperm : ∀ l, (rearrange l).Perm l) : SliceSort :=
  open Classical in
  { sortBy := fun cmp l =>
      if Consistent cmp l then .ok (l.insertionSort (Before cmp)) else .ok (rearrange l)
    perm := by
      intro cmp l r h
      split_ifs at h
      · cases h
        exact List.perm_insertionSort _ _
      · cases h
        exact hperm l
    sorts := fun h => ⟨_, if_pos h, insertionSort_stableSorted h⟩ }

omit [BsonTraits] in
lemma SliceSort.careless_of_not_consistent (rearrange : List Document → List Document)
    (hperm : ∀ l, (rearrange l).Perm l) {cmp : Document → Document → Ordering}
    (h : ¬Consistent cmp docs) :
    (SliceSort.careless rearrange hperm).sortBy cmp docs = .ok (rearrange docs) := if_neg h

omit [BsonTraits] in
/-- Of documents in a list, one stands before the other. -/
lemma pairwise_either {R : Document → Document → Prop} (h : docs.Pairwise R) {x y : Document}
    (hx : x ∈ docs) (hy : y ∈ docs) (hne : x ≠ y) : R x y ∨ R y x := by
  have hsymm : Std.Symm fun x y => R x y ∨ R y x := ⟨fun _ _ => Or.symm⟩
  exact (h.imp Or.inl : docs.Pairwise fun x y => R x y ∨ R y x).forall hx hy hne

namespace RangoEngine

variable {σ ω : Type} [Formatting] [FallibleStorage σ] {e : RangoEngine σ ω} {c : CollectionName}
  {filter : Document} {entries : List (String × Document)}

/-- A sort orders the selected documents for the range operators. -/
def SortAgrees (e : RangoEngine σ ω) (c : CollectionName) (filter : Document) (field : String)
    (sorter : SliceSort) : Prop :=
  ∀ projection skip limit cursor,
    (e.find c filter projection (some (field, false)) skip limit).1 = .ok cursor →
      InRangeOrder field cursor

/-- The documents as the sort returns them. -/
lemma pairwise_of_sortAgrees (hlist : e.Listing c entries) {sorter : SliceSort}
    {ordered : List Document}
    (hsort : sorter.sortBy (sortOrder field false)
      ((entries.map Prod.snd).filter (selects filter)) = .ok ordered)
    (h : SortAgrees e c filter field sorter) : ordered.Pairwise (NotGreater field) := by
  refine pairwise_of_inRangeOrder (h none none none _ ?_)
  rw [find_sorted hlist.scan, filterMap_filteredIter, hsort]
  rfl

/-- If every sort agrees, the sort can order the documents. -/
lemma steady_of_sortAgrees (hlist : e.Listing c entries)
    (h : ∀ sorter, SortAgrees e c filter field sorter) :
    SortKey.Steady (((entries.map Prod.snd).filter (selects filter)).map
      (sortKeyOrNull field)) := by
  set docs := (entries.map Prod.snd).filter (selects filter)
  by_contra hsteady
  have hcmp : ¬Consistent (sortOrder field false) docs := fun hcmp =>
    hsteady ((sortOrder_consistent_iff field docs).mp hcmp)
  -- the documents may stay as they are, or be turned round
  have hkept : docs.Pairwise (NotGreater field) :=
    pairwise_of_sortAgrees hlist
      (SliceSort.careless_of_not_consistent (fun l => l) (fun l => .refl l) hcmp) (h _)
  have hturned : docs.Pairwise fun x y => NotGreater field y x :=
    List.pairwise_reverse.mp (pairwise_of_sortAgrees hlist
      (SliceSort.careless_of_not_consistent List.reverse (fun l => l.reverse_perm) hcmp) (h _))
  rw [steady_iff, not_or] at hsteady
  apply hsteady.2
  intro x y hx hy hgt
  obtain ⟨d, hd, hdx⟩ := mem_fieldValues.mp hx
  obtain ⟨d', hd', hdy⟩ := mem_fieldValues.mp hy
  by_cases hsame : d = d'
  · -- no value is greater than itself
    subst hsame
    rw [hdx] at hdy
    cases hdy
    have hself := compareValues_double_iff.mp hgt
    have hswap := SortKey.cmp_swap (.double x) (.double x)
    rw [hself] at hswap
    cases hswap
  · rcases pairwise_either (hkept.and hturned) hd hd' hsame with hboth | hboth
    · exact hboth.1 _ _ hdx hdy hgt
    · exact hboth.2 _ _ hdx hdy hgt

/-- **When an ascending sort agrees with the range operators.** Over every sort that the standard
library may have, and every projection and slice. -/
theorem sort_agrees_iff (hlist : e.Listing c entries)
    (hkeys : ∀ doc ∈ entries.map Prod.snd, doc.DistinctKeys) :
    (∀ sorter, SortAgrees e c filter field sorter) ↔
      RangeOrdered (fieldValues field ((entries.map Prod.snd).filter (selects filter))) := by
  set docs := (entries.map Prod.snd).filter (selects filter)
  constructor
  · intro h
    have hsteady := steady_of_sortAgrees hlist h
    refine ⟨?_, steady_iff.mp hsteady⟩
    intro a ha b hb hab hgt
    obtain ⟨d, hd, hda⟩ := mem_fieldValues.mp ha
    obtain ⟨d', hd', hdb⟩ := mem_fieldValues.mp hb
    -- the sort puts the integer first, where the range operators find it greater
    have hstable := insertionSort_stableSorted (sortOrder_consistent false hsteady)
    have hordered : (docs.insertionSort (Before (sortOrder field false))).Pairwise
        (NotGreater field) := pairwise_of_sortAgrees hlist rfl (h .sample)
    have hne : d ≠ d' := by
      rintro rfl
      rw [hda] at hdb
      cases hdb
      exact not_mixed_self a hab
    rcases pairwise_either (hordered.and hstable.sorted) (hstable.perm.mem_iff.mpr hd)
      (hstable.perm.mem_iff.mpr hd') hne with hfirst | hfirst
    · exact hfirst.1 a b hda hdb hgt
    · refine hfirst.2 ?_
      rw [sortOrder_of_get hdb hda, SortKey.cmp_swap, cmp_of_mixed hab]
      rfl
  · intro h sorter projection skip limit cursor hcursor
    have hcmp := sortOrder_consistent false (steady_iff.mpr h.doubles)
    obtain ⟨ordered, hsort, hstable⟩ := sorter.sorts hcmp
    rw [find_sorted hlist.scan, filterMap_filteredIter, hsort] at hcursor
    cases hcursor
    have hmem : ∀ doc ∈ ordered, doc ∈ docs := fun doc hdoc => hstable.perm.subset hdoc
    refine inRangeOrder_sliced (hstable.sorted.imp_of_mem fun {x y} hx hy hle => ?_)
      (fun doc hdoc => hkeys doc (List.mem_filter.mp (hmem doc hdoc)).1) projection _ limit
    exact notGreater_of_sortOrder h.mixed (hmem x hx) (hmem y hy) hle

end RangoEngine

end

/-! ## Two documents -/

section
attribute [local instance] Formatting.sample BsonTraits.sample

/-- A document with a greater fraction: two and a half. -/
def sampleGreater : Document := ⟨[("_id", .string "b"), ("n", .double ⟨0x4004000000000000⟩)]⟩

/-- An engine that stores it beside the integer. -/
def sampleRising : RangoEngine MemoryStorage NullOplog :=
  .openEngine
    (StorageEngine.put ⟨"c"⟩ ⟨.string "a"⟩ sampleWhole
      (StorageEngine.put ⟨"c"⟩ ⟨.string "b"⟩ sampleGreater MemoryStorage.new).2).2 ⟨0⟩ "a"

lemma sampleRising_scan :
    (sampleRising.storageScan ⟨"c"⟩).1 = .ok ([sampleWhole, sampleGreater].map .ok) := by
  decide

lemma sampleRising_rangeOrdered : RangeOrdered [.int32 2, .double ⟨0x4004000000000000⟩] where
  mixed a ha b hb hmixed := by
    simp only [List.mem_cons, List.not_mem_nil, or_false] at ha hb
    rcases ha with rfl | rfl <;> rcases hb with rfl | rfl
    · decide
    · decide
    · obtain ⟨_, _, -, hdouble⟩ := hmixed
      cases hdouble
    · decide
  doubles := by
    left
    intro x hx
    simp only [List.mem_cons, List.not_mem_nil, or_false, Bson.double.injEq] at hx
    rcases hx with hx | rfl
    · cases hx
    · decide

/-- A sort of an integer and a greater fraction agrees with the range operators. -/
theorem sort_agrees_iff_pair :
    RangeOrdered [.int32 2, .double ⟨0x4004000000000000⟩] ∧
      ∀ sorter, RangoEngine.SortAgrees sampleRising ⟨"c"⟩ Document.empty "n" sorter := by
  obtain ⟨entries, hlist, hdocs⟩ := RangoEngine.listing_of_scan sampleRising_scan
  have hinj : Function.Injective (Except.ok : Document → Except RangoError Document) :=
    fun _ _ => Except.ok.inj
  have hentries : entries.map Prod.snd = [sampleWhole, sampleGreater] := (hinj.list_map hdocs).symm
  have hvalues : fieldValues "n" ((entries.map Prod.snd).filter (selects Document.empty)) =
      [.int32 2, .double ⟨0x4004000000000000⟩] := by
    rw [hentries]
    rfl
  have hkeys : ∀ doc ∈ entries.map Prod.snd, doc.DistinctKeys := by
    rw [hentries]
    decide
  refine ⟨sampleRising_rangeOrdered, (RangoEngine.sort_agrees_iff hlist hkeys).mpr ?_⟩
  rw [hvalues]
  exact sampleRising_rangeOrdered

/-- An ascending sort puts two before one and a half. -/
theorem whole_sorts_before_fraction :
    (@RangoEngine.find _ _ _ _ .sample samplePair ⟨"c"⟩ Document.empty none
      (some ("n", false)) none none).1 = .ok [.ok sampleWhole, .ok sampleFraction] ∧
    sampleWhole.get "n" = some (.int32 2) ∧
    sampleFraction.get "n" = some (.double ⟨0x3FF8000000000000⟩) ∧
    compareValues (.int32 2) (.double ⟨0x3FF8000000000000⟩) = .ok .gt := by
  refine ⟨by decide, rfl, rfl, by decide⟩

end
end Rango
