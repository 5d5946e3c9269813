import Mathlib.Data.List.Sort

/-!
# Sorting by a key that may tie

Facts about stable insertion sort under a total preorder: the result does not depend on the
input order when tied elements are equal, and sorting commutes with filtering and with cutting
the input where every earlier element is strictly below every later one.
-/

namespace Sorting

open List

variable {α : Type} {r : α → α → Prop} [DecidableRel r]

/-- Sorting forgets the input order when tied elements are equal. -/
theorem insertionSort_eq_of_perm [Std.Total r] [IsTrans α r] {l₁ l₂ : List α}
    (hp : l₁.Perm l₂) (htie : ∀ a ∈ l₁, ∀ b ∈ l₁, r a b → r b a → a = b) :
    l₁.insertionSort r = l₂.insertionSort r := by
  have hperm : (l₁.insertionSort r).Perm (l₂.insertionSort r) :=
    (perm_insertionSort r l₁).trans (hp.trans (perm_insertionSort r l₂).symm)
  refine hperm.eq_of_pairwise ?_ (pairwise_insertionSort r l₁) (pairwise_insertionSort r l₂)
  intro a b ha hb hab hba
  have ha' : a ∈ l₁ := (mem_insertionSort r).mp ha
  have hb' : b ∈ l₁ := hp.mem_iff.mpr ((mem_insertionSort r).mp hb)
  exact htie a ha' b hb' hab hba

/-- An element below all of `l₂` is inserted among `l₁`. -/
theorem orderedInsert_append {a : α} {l₁ l₂ : List α} (h : ∀ b ∈ l₂, r a b) :
    (l₁ ++ l₂).orderedInsert r a = l₁.orderedInsert r a ++ l₂ := by
  induction l₁ with
  | nil =>
    cases l₂ with
    | nil => rfl
    | cons b l₂ => simp [h b mem_cons_self]
  | cons c l₁ ih =>
    by_cases hac : r a c
    · simp [hac]
    · simp [hac, ih]

/-- Sorting the two halves of a cut input sorts the whole. -/
theorem insertionSort_append {l₁ l₂ : List α} (h : ∀ a ∈ l₁, ∀ b ∈ l₂, r a b) :
    (l₁ ++ l₂).insertionSort r = l₁.insertionSort r ++ l₂.insertionSort r := by
  induction l₁ with
  | nil => rfl
  | cons a l₁ ih =>
    rw [cons_append, insertionSort_cons, insertionSort_cons,
      ih fun x hx => h x (mem_cons_of_mem _ hx)]
    exact orderedInsert_append fun b hb =>
      h a mem_cons_self b ((mem_insertionSort r).mp hb)

/-- An element below all others comes first. -/
lemma orderedInsert_of_forall {a : α} {l : List α} (h : ∀ b ∈ l, r a b) :
    l.orderedInsert r a = a :: l := by
  cases l with
  | nil => rfl
  | cons b l => rw [orderedInsert_cons, if_pos (h b mem_cons_self)]

/-- An element that a filter keeps is inserted among those that it keeps. -/
lemma filter_orderedInsert [IsTrans α r] {p : α → Bool} {a : α} (ha : p a = true) {l : List α}
    (hl : l.Pairwise r) : (l.orderedInsert r a).filter p = (l.filter p).orderedInsert r a := by
  induction l with
  | nil => simp [ha]
  | cons b l ih =>
    rw [pairwise_cons] at hl
    by_cases hab : r a b
    · have hall : ∀ c ∈ (b :: l).filter p, r a c := by
        intro c hc
        rcases mem_cons.mp (mem_filter.mp hc).1 with rfl | hc
        · exact hab
        · exact IsTrans.trans a b c hab (hl.1 c hc)
      rw [orderedInsert_cons, if_pos hab, filter_cons_of_pos ha, orderedInsert_of_forall hall]
    · rw [orderedInsert_cons, if_neg hab]
      by_cases hb : p b = true
      · rw [filter_cons_of_pos hb, filter_cons_of_pos hb, orderedInsert_cons, if_neg hab, ih hl.2]
      · rw [filter_cons_of_neg hb, filter_cons_of_neg hb, ih hl.2]

/-- An element that a filter drops may be inserted anywhere. -/
lemma filter_orderedInsert_of_neg {p : α → Bool} {a : α} (ha : ¬ p a = true) (l : List α) :
    (l.orderedInsert r a).filter p = l.filter p := by
  rw [orderedInsert_eq_take_drop, filter_append, filter_cons_of_neg ha, ← filter_append,
    takeWhile_append_dropWhile]

/-- Sorting commutes with filtering. -/
theorem insertionSort_filter [Std.Total r] [IsTrans α r] (p : α → Bool) (l : List α) :
    (l.filter p).insertionSort r = (l.insertionSort r).filter p := by
  induction l with
  | nil => rfl
  | cons a l ih =>
    by_cases ha : p a = true
    · rw [filter_cons_of_pos ha, insertionSort_cons, insertionSort_cons, ih,
        filter_orderedInsert ha (pairwise_insertionSort r l)]
    · rw [filter_cons_of_neg ha, insertionSort_cons, filter_orderedInsert_of_neg ha, ih]

end Sorting
