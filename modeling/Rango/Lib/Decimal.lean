import Mathlib.Data.Nat.Notation
import Mathlib.Data.List.Basic
import Mathlib.Data.List.Induction

/-!
# Decimal numerals

Two digit strings stand for one number just when they are the same up to leading zeros
(`ofDigitChars_eq_iff`).
-/

namespace Decimal

open Nat (ofDigitChars)

/-- The value of a digit. -/
def digit (c : Char) : ℕ := c.toNat - '0'.toNat

lemma digit_lt {c : Char} (h : c.isDigit = true) : digit c < 10 := by
  simp only [Char.isDigit, Bool.and_eq_true, decide_eq_true_eq, UInt32.le_iff_toNat_le] at h
  have hnine : c.toNat ≤ 57 := h.2
  show c.toNat - 48 < 10
  omega

lemma digit_inj {c d : Char} (hc : c.isDigit = true) (hd : d.isDigit = true)
    (h : digit c = digit d) : c = d := by
  simp only [Char.isDigit, Bool.and_eq_true, decide_eq_true_eq, UInt32.le_iff_toNat_le] at hc hd
  have hc' : 48 ≤ c.toNat := hc.1
  have hd' : 48 ≤ d.toNat := hd.1
  have hnat : c.toNat - 48 = d.toNat - 48 := h
  exact Char.toNat_inj.mp (by omega)

/-- The digits behind the leading zeros. -/
def significant (ds : List Char) : List Char := ds.dropWhile (· = '0')

lemma ofDigitChars_concat (ds : List Char) (c : Char) :
    ofDigitChars 10 (ds ++ [c]) 0 = 10 * ofDigitChars 10 ds 0 + digit c := by
  rw [Nat.ofDigitChars_append, Nat.ofDigitChars_cons, Nat.ofDigitChars_nil]
  rfl

/-- Leading zeros do not count. -/
lemma ofDigitChars_significant (ds : List Char) :
    ofDigitChars 10 (significant ds) 0 = ofDigitChars 10 ds 0 := by
  induction ds with
  | nil => rfl
  | cons c ds ih =>
    by_cases hc : c = '0'
    · subst hc
      rw [Nat.ofDigitChars_cons]
      simpa [significant] using ih
    · simp [significant, hc]

lemma significant_significant (ds : List Char) : significant (significant ds) = significant ds := by
  induction ds with
  | nil => rfl
  | cons c ds ih =>
    by_cases hc : c = '0'
    · simpa [significant, hc] using ih
    · simp [significant, hc]

/-- A string without a leading zero, and its last digit. -/
lemma significant_concat {ds : List Char} {c : Char} (h : significant (ds ++ [c]) = ds ++ [c]) :
    significant ds = ds := by
  cases ds with
  | nil => rfl
  | cons d ds =>
    by_cases hd : d = '0'
    · subst hd
      have hlen := congrArg List.length h
      have hle := (List.dropWhile_suffix (l := ds ++ [c]) fun x => decide (x = '0')).length_le
      simp only [significant, List.cons_append, List.dropWhile_cons_of_pos, decide_true,
        List.length_cons] at hlen
      omega
    · simp [significant, hd]

/-- Only the empty string stands for zero, without leading zeros. -/
lemma eq_nil_of_ofDigitChars_eq_zero {ds : List Char} (hdigits : ∀ c ∈ ds, c.isDigit = true)
    (hsig : significant ds = ds) (hzero : ofDigitChars 10 ds 0 = 0) : ds = [] := by
  induction ds using List.reverseRecOn with
  | nil => rfl
  | append_singleton ds c ih =>
    rw [ofDigitChars_concat] at hzero
    -- the digits before the last are zero as well, so there are none
    have hnil := ih (fun x hx => hdigits x (List.mem_append_left _ hx)) (significant_concat hsig)
      (by omega)
    subst hnil
    have hc : c = '0' := digit_inj (hdigits c (by simp)) rfl (show digit c = 0 by omega)
    rw [hc] at hsig
    cases hsig

/-- **Numerals.** Without leading zeros, the number determines the digits. -/
theorem ofDigitChars_inj {ds es : List Char} (hds : ∀ c ∈ ds, c.isDigit = true)
    (hes : ∀ c ∈ es, c.isDigit = true) (hsd : significant ds = ds) (hse : significant es = es)
    (h : ofDigitChars 10 ds 0 = ofDigitChars 10 es 0) : ds = es := by
  induction ds using List.reverseRecOn generalizing es with
  | nil => exact (eq_nil_of_ofDigitChars_eq_zero hes hse (by rw [← h, Nat.ofDigitChars_nil])).symm
  | append_singleton ds c ih =>
    rcases List.eq_nil_or_concat' es with rfl | ⟨es, d, rfl⟩
    · exact eq_nil_of_ofDigitChars_eq_zero hds hsd (by rw [h, Nat.ofDigitChars_nil])
    · rw [ofDigitChars_concat, ofDigitChars_concat] at h
      have hc := digit_lt (hds c (by simp))
      have hd := digit_lt (hes d (by simp))
      have hrest := ih (fun x hx => hds x (List.mem_append_left _ hx))
        (fun x hx => hes x (List.mem_append_left _ hx)) (significant_concat hsd)
        (significant_concat hse) (by omega)
      have hlast := digit_inj (hds c (by simp)) (hes d (by simp)) (by omega)
      rw [hrest, hlast]

/-- Two digit strings stand for one number just when they agree up to leading zeros. -/
theorem ofDigitChars_eq_iff {ds es : List Char} (hds : ∀ c ∈ ds, c.isDigit = true)
    (hes : ∀ c ∈ es, c.isDigit = true) :
    ofDigitChars 10 ds 0 = ofDigitChars 10 es 0 ↔ significant ds = significant es := by
  have hsub : ∀ {l : List Char} {c : Char}, c ∈ significant l → c ∈ l :=
    fun hc => (List.dropWhile_suffix _).subset hc
  constructor
  · intro h
    refine ofDigitChars_inj (fun c hc => hds c (hsub hc)) (fun c hc => hes c (hsub hc))
      (significant_significant ds) (significant_significant es) ?_
    rw [ofDigitChars_significant, ofDigitChars_significant, h]
  · intro h
    rw [← ofDigitChars_significant ds, h, ofDigitChars_significant]

end Decimal
