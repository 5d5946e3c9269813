import Rango.Lib.StableSort
import Rango.Query.Engine

/-!
# The two orders on values

`SortKey.cmp` orders the values of a sort, `compareValues` those of a range operator. The first is
a total order but for a NaN, which ties with all doubles (`SortKey.lawfulAt_iff`); so it is one on
the keys of a sort just when they are `Steady`. The two agree on all values that they both compare,
except on integers with doubles: a sort puts every integer first.
-/

namespace Rango.Query

open StableSort

/-! ## Sort keys -/

lemma compare_trans {α : Type} [Ord α] [Std.TransOrd α] {a b c : α} (hab : compare a b ≠ .gt)
    (hbc : compare b c ≠ .gt) : compare a c ≠ .gt := by
  have hac : (compare a c).isLE = true :=
    Std.TransCmp.isLE_trans (Ordering.isLE_iff_ne_gt.mpr hab) (Ordering.isLE_iff_ne_gt.mpr hbc)
  exact Ordering.isLE_iff_ne_gt.mp hac

namespace SortKey

/-- There is no NaN among the keys, or no two doubles differ. -/
def Steady (keys : List SortKey) : Prop :=
  (∀ x, double x ∈ keys → x.isNaN = false) ∨
    ∀ x y, double x ∈ keys → double y ∈ keys → (double x).cmp (double y) = .eq

lemma cmp_double_of_isNaN {x y : F64} (h : x.isNaN = true ∨ y.isNaN = true) :
    (double x).cmp (double y) = .eq := by
  simp only [cmp, F64.partialCmp]
  rw [if_pos (by simpa using h)]
  rfl

lemma cmp_double {x y : F64} (hx : x.isNaN = false) (hy : y.isNaN = false) :
    (double x).cmp (double y) = compare x.rank y.rank := by
  simp [cmp, F64.partialCmp, hx, hy]

lemma cmp_double_swap (x y : F64) :
    (double y).cmp (double x) = ((double x).cmp (double y)).swap := by
  by_cases hnan : x.isNaN = true ∨ y.isNaN = true
  · rw [cmp_double_of_isNaN hnan, cmp_double_of_isNaN hnan.symm]
    rfl
  · simp only [not_or, Bool.not_eq_true] at hnan
    rw [cmp_double hnan.1 hnan.2, cmp_double hnan.2 hnan.1]
    exact Std.OrientedCmp.eq_swap

lemma cmp_of_rank_ne {a b : SortKey} (h : a.rank ≠ b.rank) : a.cmp b = compare a.rank b.rank := by
  cases a <;> cases b <;> first | rfl | exact absurd rfl h

lemma cmp_swap (a b : SortKey) : b.cmp a = (a.cmp b).swap := by
  by_cases hrank : a.rank = b.rank
  · -- keys of one kind: null, integers, doubles, strings, times
    cases a <;> cases b <;> try cases hrank
    · rfl
    · exact (Std.OrientedOrd.eq_swap : compare (α := ℤ) _ _ = _)
    · exact cmp_double_swap _ _
    · exact (Std.OrientedOrd.eq_swap : compare (α := String) _ _ = _)
    · exact (Std.OrientedOrd.eq_swap : compare (α := ℤ) _ _ = _)
  · rw [cmp_of_rank_ne hrank, cmp_of_rank_ne (Ne.symm hrank)]
    exact Std.OrientedOrd.eq_swap

/-- Doubles tie when one is no number, and when they are equal. -/
lemma cmp_double_eq_iff (x y : F64) :
    (double x).cmp (double y) = .eq ↔ x.isNaN = true ∨ y.isNaN = true ∨ x.rank = y.rank := by
  by_cases hnan : x.isNaN = true ∨ y.isNaN = true
  · rw [cmp_double_of_isNaN hnan]
    tauto
  · simp only [not_or, Bool.not_eq_true] at hnan
    rw [cmp_double hnan.1 hnan.2, compare_eq_iff_eq]
    simp [hnan]

/-- Transitivity is in question among doubles only. -/
lemma cmp_trans {a b c : SortKey}
    (h : ∀ x y z, a = double x → b = double y → c = double z → a.cmp b ≠ .gt → b.cmp c ≠ .gt →
      a.cmp c ≠ .gt) (hab : a.cmp b ≠ .gt) (hbc : b.cmp c ≠ .gt) : a.cmp c ≠ .gt := by
  refine StableSort.trans_of_rank rank cmp_of_rank_ne cmp_of_rank_ne cmp_of_rank_ne ?_ hab hbc
  intro hrank hrank'
  -- keys of one kind again
  cases a <;> cases b <;> try cases hrank
  all_goals cases c <;> try cases hrank'
  · decide
  · exact compare_trans (α := ℤ) hab hbc
  · exact h _ _ _ rfl rfl rfl hab hbc
  · exact compare_trans (α := String) hab hbc
  · exact compare_trans (α := ℤ) hab hbc

/-- A NaN with two different numbers on its sides. -/
def NaNBetween (a b c : SortKey) : Prop :=
  ∃ x n z : F64, a = double x ∧ b = double n ∧ c = double z ∧
    n.isNaN = true ∧ x.isNaN = false ∧ z.isNaN = false ∧ x.rank ≠ z.rank

lemma NaNBetween.symm {a b c : SortKey} (h : NaNBetween a b c) : NaNBetween c b a := by
  obtain ⟨x, n, z, ha, hb, hc, hn, hx, hz, hne⟩ := h
  exact ⟨z, n, x, hc, hb, ha, hn, hz, hx, Ne.symm hne⟩

/-- A NaN between two numbers ties with both, and they do not tie. -/
lemma NaNBetween.not_lawfulAt {a b c : SortKey} (h : NaNBetween a b c) : ¬LawfulAt cmp a b c := by
  obtain ⟨x, n, z, rfl, rfl, rfl, hn, hx, hz, hne⟩ := h
  intro hlawful
  have htie : (double x).cmp (double z) = .eq :=
    hlawful.trans_eq (cmp_double_of_isNaN (.inr hn)) (cmp_double_of_isNaN (.inl hn))
  rw [cmp_double hx hz, compare_eq_iff_eq] at htie
  exact hne htie

/-- Without a NaN between them, doubles are ordered. -/
lemma cmp_trans_of_not_naNBetween {a b c : SortKey} (h : ¬NaNBetween a b c) (hab : a.cmp b ≠ .gt)
    (hbc : b.cmp c ≠ .gt) : a.cmp c ≠ .gt := by
  refine cmp_trans ?_ hab hbc
  rintro x y z rfl rfl rfl hxy hyz
  by_cases htie : (double x).cmp (double z) = .eq
  · rw [htie]
    decide
  · -- two numbers that differ, so the one between them is a number
    obtain ⟨hx, hz, hne⟩ : x.isNaN = false ∧ z.isNaN = false ∧ x.rank ≠ z.rank := by
      simpa [cmp_double_eq_iff] using htie
    have hy : y.isNaN = false := by
      by_contra hnan
      exact h ⟨x, y, z, rfl, rfl, rfl, by simpa using hnan, hx, hz, hne⟩
    rw [cmp_double hx hy] at hxy
    rw [cmp_double hy hz] at hyz
    rw [cmp_double hx hz]
    exact compare_trans hxy hyz

lemma lawfulAt_of_not_naNBetween {a b c : SortKey} (h : ¬NaNBetween a b c) :
    LawfulAt cmp a b c :=
  LawfulAt.of_swap cmp_swap (cmp_trans_of_not_naNBetween h)
    (cmp_trans_of_not_naNBetween fun hnan => h hnan.symm)

/-- Steady keys have no NaN between two numbers. -/
lemma steady_iff (keys : List SortKey) :
    Steady keys ↔ ∀ a ∈ keys, ∀ b ∈ keys, ∀ c ∈ keys, ¬NaNBetween a b c := by
  constructor
  · rintro h a ha b hb c hc ⟨x, n, z, rfl, rfl, rfl, hn, hx, hz, hne⟩
    rcases h with hnan | htie
    · rw [hnan n hb] at hn
      cases hn
    · have hxz := htie x z ha hc
      rw [cmp_double hx hz, compare_eq_iff_eq] at hxz
      exact hne hxz
  · intro h
    by_contra hsteady
    simp only [Steady, not_or, not_forall] at hsteady
    obtain ⟨⟨n, hn, hnan⟩, x, z, hx, hz, hxz⟩ := hsteady
    obtain ⟨hxnan, hznan, hne⟩ : x.isNaN = false ∧ z.isNaN = false ∧ x.rank ≠ z.rank := by
      simpa [cmp_double_eq_iff] using hxz
    exact h _ hx _ hn _ hz ⟨x, n, z, rfl, rfl, rfl, by simpa using hnan, hxnan, hznan, hne⟩

/-- **Steady keys are those that a sort can order.** -/
theorem consistent_iff (keys : List SortKey) : Consistent cmp keys ↔ Steady keys := by
  rw [Consistent.iff_lawfulAt, steady_iff]
  constructor
  · intro h a ha b hb c hc hnan
    exact hnan.not_lawfulAt (h a ha b hb c hc)
  · intro h a ha b hb c hc
    exact lawfulAt_of_not_naNBetween (h a ha b hb c hc)

/-- **The order is lawful but where a NaN ties with two different numbers.** -/
theorem lawfulAt_iff (a b c : SortKey) : LawfulAt cmp a b c ↔ ¬NaNBetween a b c :=
  ⟨fun h hnan => hnan.not_lawfulAt h, lawfulAt_of_not_naNBetween⟩

/-- 2.0, a NaN, 1.0: none is after the next, and the first is after the last. -/
theorem nan_breaks_order : ¬LawfulAt cmp (double ⟨0x4000000000000000⟩)
    (double ⟨0x7FF8000000000000⟩) (double ⟨0x3FF0000000000000⟩) := by
  intro h
  exact h.trans (by decide) (by decide) (by decide)

end SortKey

/-! ## Values -/

/-- The sort key of a value, null where it has none. -/
def keyOf (found : Option Bson) : SortKey :=
  match found with
  | some (.int32 v) => .int64 v
  | some (.int64 v) => .int64 v
  | some (.double v) => .double v
  | some (.string v) => .string v
  | some (.dateTime v) => .dateTime v
  | _ => .null

lemma keyOf_eq_double {found : Option Bson} {x : F64} :
    keyOf found = .double x ↔ found = some (.double x) := by
  unfold keyOf
  split <;> simp_all

/-- An integer and a double. -/
def Mixed (a b : Bson) : Prop :=
  ∃ (i : ℤ) (x : F64), (a = .int32 i ∨ a = .int64 i) ∧ b = .double x

lemma not_mixed_self (a : Bson) : ¬Mixed a a := by
  intro ⟨i, x, hint, hdouble⟩
  subst hdouble
  simp at hint

/-- A comparison of doubles that returns is that of the sort keys. -/
lemma cmp_of_comparePartial {x y : F64} {ord : Ordering} (h : comparePartial x y = .ok ord) :
    (SortKey.double x).cmp (.double y) = ord := by
  unfold comparePartial at h
  split at h
  · rename_i found hfound
    cases h
    simp [SortKey.cmp, hfound]
  · cases h

/-- **The orders agree on values of one kind.** -/
theorem cmp_of_compareValues [BsonTraits] {a b : Bson} {ord : Ordering}
    (h : compareValues a b = .ok ord) (hab : ¬Mixed a b) (hba : ¬Mixed b a) :
    (keyOf (some a)).cmp (keyOf (some b)) = ord := by
  unfold compareValues at h
  split at h
  case h_3 => exact cmp_of_comparePartial h
  case h_8 i x => exact absurd ⟨i, x, .inl rfl, rfl⟩ hab
  case h_9 x i => exact absurd ⟨i, x, .inl rfl, rfl⟩ hba
  case h_10 i x => exact absurd ⟨i, x, .inr rfl, rfl⟩ hab
  case h_11 x i => exact absurd ⟨i, x, .inr rfl, rfl⟩ hba
  case h_12 => cases h
  all_goals exact Except.ok.inj h

/-- A sort puts integers before doubles. -/
lemma cmp_of_mixed {a b : Bson} (h : Mixed a b) : (keyOf (some a)).cmp (keyOf (some b)) = .lt := by
  obtain ⟨i, x, rfl | rfl, rfl⟩ := h
  · rfl
  · rfl

end Rango.Query
