import Rango.Lib.Sorting

/-!
# Stable sorting by a comparison

What a stable sort returns, for a comparison that need only be consistent on the elements it is
given: `StableSorted` says that a list is ordered, has the elements of the input and keeps those
that tie in their input order. There is exactly one such list (`StableSorted.unique`), and
insertion sort finds it (`insertionSort_stableSorted`).
-/

namespace StableSort

open List

variable {α : Type}

/-- On the elements of the list, the comparison is a total order up to ties. -/
structure Consistent (cmp : α → α → Ordering) (l : List α) : Prop where
  swap : ∀ a ∈ l, ∀ b ∈ l, cmp b a = (cmp a b).swap
  trans : ∀ a ∈ l, ∀ b ∈ l, ∀ c ∈ l, cmp a b ≠ .gt → cmp b c ≠ .gt → cmp a c ≠ .gt

/-- The laws of a total order up to ties, at three elements. -/
structure LawfulAt (cmp : α → α → Ordering) (a b c : α) : Prop where
  swap : cmp a b = (cmp b a).swap
  trans : cmp a b ≠ .gt → cmp b c ≠ .gt → cmp a c ≠ .gt
  refl : cmp a a = .eq
  symm : cmp a b = .eq → cmp b a = .eq
  trans_eq : cmp a b = .eq → cmp b c = .eq → cmp a c = .eq

/-- `r` is `l`, ordered, with ties in the order they have in `l`. -/
structure StableSorted (cmp : α → α → Ordering) (l r : List α) : Prop where
  perm : r.Perm l
  sorted : r.Pairwise fun a b => cmp a b ≠ .gt
  ties : ∀ x ∈ l, r.filter (fun y => cmp x y = .eq) = l.filter (fun y => cmp x y = .eq)

variable {cmp : α → α → Ordering} {l r r' : List α} {a b c : α}

/-! ## Consistent comparisons -/

lemma eq_of_swap_self (h : cmp a a = (cmp a a).swap) : cmp a a = .eq := by
  cases hcmp : cmp a a with
  | eq => rfl
  | lt => simp [hcmp] at h
  | gt => simp [hcmp] at h

/-- Elements that are not after each other tie. -/
lemma eq_of_not_gt (hswap : cmp b a = (cmp a b).swap) (hab : cmp a b ≠ .gt)
    (hba : cmp b a ≠ .gt) : cmp a b = .eq := by
  rw [hswap] at hba
  cases hcmp : cmp a b with
  | eq => rfl
  | lt => simp [hcmp] at hba
  | gt => exact absurd hcmp hab

lemma LawfulAt.of_swap (hswap : ∀ x y, cmp y x = (cmp x y).swap)
    (htrans : cmp a b ≠ .gt → cmp b c ≠ .gt → cmp a c ≠ .gt)
    (htrans' : cmp c b ≠ .gt → cmp b a ≠ .gt → cmp c a ≠ .gt) : LawfulAt cmp a b c := by
  have hsymm : ∀ x y, cmp x y = .eq → cmp y x = .eq := by
    intro x y hxy
    rw [hswap x y, hxy]
    rfl
  have hle : ∀ {x y}, cmp x y = .eq → cmp x y ≠ .gt := by
    intro x y hxy
    rw [hxy]
    decide
  refine ⟨hswap b a, htrans, eq_of_swap_self (hswap a a), hsymm a b, fun hab hbc => ?_⟩
  exact eq_of_not_gt (hswap a c) (htrans (hle hab) (hle hbc))
    (htrans' (hle (hsymm b c hbc)) (hle (hsymm a b hab)))

lemma le_of_rank {rank : α → ℕ} (hrank : rank a ≠ rank b → cmp a b = compare (rank a) (rank b))
    (hab : cmp a b ≠ .gt) : rank a ≤ rank b := by
  by_contra hlt
  rw [hrank (by omega)] at hab
  exact hab (compare_gt_iff_gt.mpr (by omega))

/-- Where ranks that differ decide, only elements of one rank need a look. -/
lemma trans_of_rank (rank : α → ℕ)
    (hrank : rank a ≠ rank b → cmp a b = compare (rank a) (rank b))
    (hrank' : rank b ≠ rank c → cmp b c = compare (rank b) (rank c))
    (hrank'' : rank a ≠ rank c → cmp a c = compare (rank a) (rank c))
    (hsame : rank a = rank b → rank b = rank c → cmp a c ≠ .gt)
    (hab : cmp a b ≠ .gt) (hbc : cmp b c ≠ .gt) : cmp a c ≠ .gt := by
  have habr : rank a ≤ rank b := le_of_rank hrank hab
  have hbcr : rank b ≤ rank c := le_of_rank hrank' hbc
  by_cases hac : rank a = rank c
  · exact hsame (by omega) (by omega)
  · rw [hrank'' hac]
    intro hgt
    have := compare_gt_iff_gt.mp hgt
    omega

namespace Consistent

lemma mono (h : Consistent cmp l) (hsub : r ⊆ l) : Consistent cmp r where
  swap a ha b hb := h.swap a (hsub ha) b (hsub hb)
  trans a ha b hb c hc := h.trans a (hsub ha) b (hsub hb) c (hsub hc)

lemma refl (h : Consistent cmp l) (ha : a ∈ l) : cmp a a = .eq :=
  eq_of_swap_self (h.swap a ha a ha)

lemma antisymm (h : Consistent cmp l) (ha : a ∈ l) (hb : b ∈ l) (hab : cmp a b ≠ .gt)
    (hba : cmp b a ≠ .gt) : cmp a b = .eq :=
  eq_of_not_gt (h.swap a ha b hb) hab hba

/-- An element that is not before another may stand behind it. -/
lemma total (h : Consistent cmp l) (ha : a ∈ l) (hb : b ∈ l) (hab : cmp a b = .gt) :
    cmp b a ≠ .gt := by
  rw [h.swap a ha b hb, hab]
  decide

lemma symm_eq (h : Consistent cmp l) (ha : a ∈ l) (hb : b ∈ l) (hab : cmp a b = .eq) :
    cmp b a = .eq := by
  rw [h.swap a ha b hb, hab]
  rfl

lemma trans_eq (h : Consistent cmp l) (ha : a ∈ l) (hb : b ∈ l) (hc : c ∈ l)
    (hab : cmp a b = .eq) (hbc : cmp b c = .eq) : cmp a c = .eq := by
  have hne : Ordering.eq ≠ .gt := by decide
  refine h.antisymm ha hc (h.trans a ha b hb c hc ?_ ?_) (h.trans c hc b hb a ha ?_ ?_)
  · rw [hab]
    exact hne
  · rw [hbc]
    exact hne
  · rw [h.symm_eq hb hc hbc]
    exact hne
  · rw [h.symm_eq ha hb hab]
    exact hne

/-- Comparing the other way round. -/
lemma reverse (h : Consistent cmp l) : Consistent (fun a b => (cmp a b).swap) l where
  swap _ ha _ hb := by rw [h.swap _ ha _ hb]
  trans _ ha _ hb _ hc hab hbc := by
    rw [← h.swap _ ha _ hb] at hab
    rw [← h.swap _ hb _ hc] at hbc
    rw [← h.swap _ ha _ hc]
    exact h.trans _ hc _ hb _ ha hbc hab

/-- Comparing by a key. -/
lemma key_iff {β : Type} {f : β → α} {l : List β} :
    Consistent (fun a b => cmp (f a) (f b)) l ↔ Consistent cmp (l.map f) := by
  constructor
  · intro h
    constructor
    · simpa using h.swap
    · simpa using h.trans
  · intro h
    constructor
    · simpa using h.swap
    · simpa using h.trans

/-- The comparison can order a list just when the laws hold at any three of its elements. -/
lemma iff_lawfulAt :
    Consistent cmp l ↔ ∀ a ∈ l, ∀ b ∈ l, ∀ c ∈ l, LawfulAt cmp a b c := by
  constructor
  · intro h a ha b hb c hc
    exact ⟨h.swap b hb a ha, h.trans a ha b hb c hc, h.refl ha, h.symm_eq ha hb,
      h.trans_eq ha hb hc⟩
  · intro h
    exact ⟨fun a ha b hb => (h b hb a ha a ha).swap,
      fun a ha b hb c hc => (h a ha b hb c hc).trans⟩

end Consistent

/-! ## Uniqueness -/

/-- Ordered lists with the same elements and the same order of ties are equal. -/
theorem eq_of_sorted (h : Consistent cmp r) (hperm : r'.Perm r)
    (hsorted : r.Pairwise fun a b => cmp a b ≠ .gt)
    (hsorted' : r'.Pairwise fun a b => cmp a b ≠ .gt)
    (hties : ∀ x ∈ r, r'.filter (fun y => cmp x y = .eq) = r.filter (fun y => cmp x y = .eq)) :
    r' = r := by
  induction r generalizing r' with
  | nil => exact hperm.eq_nil
  | cons a r ih =>
    cases r' with
    | nil => exact hperm.symm.eq_nil.symm
    | cons b r' =>
      obtain ⟨hfirst, hrest⟩ := pairwise_cons.mp hsorted
      obtain ⟨hfirst', hrest'⟩ := pairwise_cons.mp hsorted'
      have hb : b ∈ a :: r := hperm.subset mem_cons_self
      have ha' : a ∈ b :: r' := hperm.symm.subset mem_cons_self
      have hrefl : ∀ x ∈ a :: r, cmp x x ≠ .gt := fun x hx => by
        rw [h.refl hx]
        decide
      -- both come first in a list of the same elements, so they tie
      have hab : cmp a b = .eq := by
        refine h.antisymm mem_cons_self hb ?_ ?_
        · rcases mem_cons.mp hb with rfl | hb
          · exact hrefl b mem_cons_self
          · exact hfirst b hb
        · rcases mem_cons.mp ha' with rfl | ha'
          · exact hrefl a mem_cons_self
          · exact hfirst' a ha'
      have hheads := hties a mem_cons_self
      rw [filter_cons_of_pos (by simpa using hab),
        filter_cons_of_pos (by simpa using h.refl mem_cons_self)] at hheads
      obtain ⟨rfl, -⟩ := cons.inj hheads
      refine congrArg (cons b) (ih (h.mono (subset_cons_self b r)) ((perm_cons b).mp hperm) hrest
        hrest' fun x hx => ?_)
      have htie := hties x (mem_cons_of_mem b hx)
      by_cases hxb : cmp x b = .eq
      · rw [filter_cons_of_pos (by simpa using hxb),
          filter_cons_of_pos (by simpa using hxb)] at htie
        exact (cons.inj htie).2
      · rwa [filter_cons_of_neg (by simpa using hxb), filter_cons_of_neg (by simpa using hxb)]
          at htie

/-- **A stable sort has one result.** -/
theorem StableSorted.unique (hcmp : Consistent cmp l) (h : StableSorted cmp l r)
    (h' : StableSorted cmp l r') : r' = r :=
  eq_of_sorted (hcmp.mono h.perm.subset) (h'.perm.trans h.perm.symm) h.sorted h'.sorted
    fun x hx => (h'.ties x (h.perm.subset hx)).trans (h.ties x (h.perm.subset hx)).symm

/-! ## Insertion sort -/

/-- The ties of an element that need not be sorted itself. -/
lemma StableSorted.ties_of_consistent (h : StableSorted cmp l r) (hcmp : Consistent cmp (a :: l)) :
    r.filter (fun y => cmp a y = .eq) = l.filter (fun y => cmp a y = .eq) := by
  by_cases hsome : ∃ x ∈ l, cmp a x = .eq
  · obtain ⟨x, hx, hax⟩ := hsome
    have hxl : x ∈ a :: l := mem_cons_of_mem a hx
    -- what ties with `a` is what ties with `x`
    have hsame : ∀ y ∈ a :: l, decide (cmp a y = .eq) = decide (cmp x y = .eq) := by
      intro y hy
      rw [decide_eq_decide]
      constructor
      · exact hcmp.trans_eq hxl mem_cons_self hy (hcmp.symm_eq mem_cons_self hxl hax)
      · exact hcmp.trans_eq mem_cons_self hxl hy hax
    rw [filter_congr fun y hy => hsame y (mem_cons_of_mem a (h.perm.subset hy)),
      filter_congr fun y hy => hsame y (mem_cons_of_mem a hy)]
    exact h.ties x hx
  · have hnone : ∀ {m : List α}, m ⊆ l → m.filter (fun y => cmp a y = .eq) = [] := by
      intro m hm
      refine filter_eq_nil_iff.mpr fun y hy heq => hsome ⟨y, hm hy, ?_⟩
      exact of_decide_eq_true heq
    rw [hnone h.perm.subset, hnone (Subset.refl l)]

/-- `x` may stand before `y`. -/
abbrev Before (cmp : α → α → Ordering) (x y : α) : Prop := cmp x y ≠ .gt

lemma pairwise_orderedInsert (hcmp : Consistent cmp l) (ha : a ∈ l) (hr : r ⊆ l)
    (hsorted : r.Pairwise (Before cmp)) :
    (r.orderedInsert (Before cmp) a).Pairwise (Before cmp) := by
  induction r with
  | nil => exact pairwise_singleton _ a
  | cons b r ih =>
    obtain ⟨hfirst, hrest⟩ := pairwise_cons.mp hsorted
    have hb : b ∈ l := hr mem_cons_self
    by_cases hab : Before cmp a b
    · rw [orderedInsert_cons, if_pos hab]
      refine pairwise_cons.mpr ⟨fun c hc => ?_, hsorted⟩
      rcases mem_cons.mp hc with rfl | hmem
      · exact hab
      · exact hcmp.trans a ha b hb c (hr hc) hab (hfirst c hmem)
    · rw [orderedInsert_cons, if_neg hab]
      refine pairwise_cons.mpr ⟨fun c hc => ?_, ih (fun x hx => hr (mem_cons_of_mem b hx)) hrest⟩
      rcases (mem_orderedInsert (Before cmp)).mp hc with rfl | hc
      · exact hcmp.total ha hb (not_not.mp hab)
      · exact hfirst c hc

/-- An element is inserted before those that it ties with. -/
lemma filter_orderedInsert_tie {x : α} (hcmp : Consistent cmp l) (hx : x ∈ l) (ha : a ∈ l)
    (hr : r ⊆ l) (hxa : cmp x a = .eq) :
    (r.orderedInsert (Before cmp) a).filter (fun y => cmp x y = .eq) =
      a :: r.filter (fun y => cmp x y = .eq) := by
  induction r with
  | nil => simp [hxa]
  | cons b r ih =>
    have hb : b ∈ l := hr mem_cons_self
    by_cases hab : Before cmp a b
    · rw [orderedInsert_cons, if_pos hab, filter_cons_of_pos (by simpa using hxa)]
    · have hxb : cmp x b ≠ .eq := by
        intro hxb
        have htie := hcmp.trans_eq ha hx hb (hcmp.symm_eq hx ha hxa) hxb
        rw [Before, htie] at hab
        exact hab (by decide)
      rw [orderedInsert_cons, if_neg hab, filter_cons_of_neg (by simpa using hxb),
        filter_cons_of_neg (by simpa using hxb)]
      exact ih fun y hy => hr (mem_cons_of_mem b hy)

/-- An element is inserted before the first that it is not after. -/
lemma orderedInsert_stableSorted (hcmp : Consistent cmp (a :: l)) (h : StableSorted cmp l r) :
    StableSorted cmp (a :: l) (r.orderedInsert (Before cmp) a) where
  perm := (perm_orderedInsert _ a r).trans (h.perm.cons a)
  sorted := pairwise_orderedInsert hcmp mem_cons_self
    (fun x hx => mem_cons_of_mem a (h.perm.subset hx)) h.sorted
  ties x hx := by
    have hsub : r ⊆ a :: l := fun y hy => mem_cons_of_mem a (h.perm.subset hy)
    have hrest : r.filter (fun y => cmp x y = .eq) = l.filter (fun y => cmp x y = .eq) := by
      rcases mem_cons.mp hx with rfl | hx
      · exact h.ties_of_consistent hcmp
      · exact h.ties x hx
    by_cases hxa : cmp x a = .eq
    · rw [filter_orderedInsert_tie hcmp hx mem_cons_self hsub hxa,
        filter_cons_of_pos (by simpa using hxa), hrest]
    · rw [Sorting.filter_orderedInsert_of_neg (by simpa using hxa),
        filter_cons_of_neg (by simpa using hxa), hrest]

/-- **Insertion sort is stable.** -/
theorem insertionSort_stableSorted (hcmp : Consistent cmp l) :
    StableSorted cmp l (l.insertionSort (Before cmp)) := by
  induction l with
  | nil => exact ⟨.refl _, .nil, fun _ _ => rfl⟩
  | cons a l ih =>
    rw [insertionSort_cons]
    exact orderedInsert_stableSorted hcmp (ih (hcmp.mono (subset_cons_self a l)))

end StableSort
