import Mathlib.Data.Bool.Basic
import Mathlib.Data.Nat.ModEq

/-!
# Flags that are set periodically

A `Gauge` counts its ticks, and at every `n`-th of them its flag is set to an answer. In between
the flag stays, so it can differ from answers that no longer change, but for fewer than `n` ticks
(`stale_tick`).
-/

namespace Periodic

/-- The ticks since the flag was set, and the flag. -/
structure Gauge where
  counter : ℕ
  flag : Bool

namespace Gauge

variable {n : ℕ} {g : Gauge} {answer : Bool}

/-- One tick. -/
def tick (n : ℕ) (answer : Bool) (g : Gauge) : Gauge :=
  if n ≤ g.counter + 1 then ⟨0, answer⟩ else ⟨g.counter + 1, g.flag⟩

lemma tick_of_due (h : n ≤ g.counter + 1) : g.tick n answer = ⟨0, answer⟩ := if_pos h

lemma tick_of_not_due (h : ¬ n ≤ g.counter + 1) : g.tick n answer = ⟨g.counter + 1, g.flag⟩ :=
  if_neg h

/-- The counter is the number of ticks, modulo the period. -/
lemma tick_counter {k : ℕ} (hn : 0 < n) (h : g.counter = k % n) :
    (g.tick n answer).counter = (k + 1) % n := by
  have hlt : g.counter < n := h ▸ Nat.mod_lt k hn
  rw [← Nat.mod_add_mod, ← h]
  by_cases hdue : n ≤ g.counter + 1
  · have hfull : g.counter + 1 = n := by omega
    rw [tick_of_due hdue, hfull, Nat.mod_self]
  · rw [tick_of_not_due hdue, Nat.mod_eq_of_lt (not_le.mp hdue)]

/-- The flag is set at the ticks whose number is a multiple of the period. -/
lemma due_iff_dvd {k : ℕ} (hn : 0 < n) (h : g.counter = k % n) :
    n ≤ g.counter + 1 ↔ n ∣ k + 1 := by
  obtain ⟨m, rfl⟩ : ∃ m, n = m + 1 := ⟨n - 1, by omega⟩
  have hlt : k % (m + 1) < m + 1 := Nat.mod_lt k hn
  rw [Nat.dvd_iff_mod_eq_zero, Nat.succ_mod_succ_eq_zero_iff, h]
  omega

/-! ## Answers that no longer change -/

/-- For how many ticks the flag can still differ from the answer. -/
def stale (n : ℕ) (answer : Bool) (g : Gauge) : ℕ :=
  if g.flag = answer then 0 else n - 1 - g.counter

lemma stale_le (n : ℕ) (answer : Bool) (g : Gauge) : g.stale n answer ≤ n - 1 := by
  unfold stale
  split_ifs
  · exact Nat.zero_le _
  · exact Nat.sub_le _ _

/-- A tick behind which the flag differs from the answer is one of them. -/
lemma stale_tick (n : ℕ) (answer : Bool) (g : Gauge) :
    (if (g.tick n answer).flag = answer then 0 else 1) + (g.tick n answer).stale n answer ≤
      g.stale n answer := by
  by_cases hdue : n ≤ g.counter + 1
  · rw [tick_of_due hdue, if_pos rfl, stale, if_pos rfl]
    exact Nat.zero_le _
  · rw [tick_of_not_due hdue]
    unfold stale
    dsimp only
    split_ifs
    · rfl
    · omega

end Gauge
end Periodic
