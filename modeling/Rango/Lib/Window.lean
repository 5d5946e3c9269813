import Mathlib.Data.List.DropRight

/-!
# Lists of the most recent entries

`push n xs x` appends an entry to a list that keeps its last `n`. The lemmas say what a
sequence of pushes leaves, and when a push is not seen: a list is what it was before exactly
when it is full of copies of the entry.
-/

namespace Window

variable {α : Type} {n : ℕ} {xs ys : List α} {x : α}

/-- The list with one more entry, cut to the last `n`. -/
def push (n : ℕ) (xs : List α) (x : α) : List α := (xs ++ [x]).rtake n

lemma push_succ (n : ℕ) (xs : List α) (x : α) : push (n + 1) xs x = xs.rtake n ++ [x] :=
  List.rtake_concat_succ xs n x

lemma length_rtake (n : ℕ) (xs : List α) : (xs.rtake n).length = min n xs.length := by
  rw [List.rtake, List.length_drop]
  omega

/-- A list that is not too long is not cut. -/
lemma rtake_of_length_le (h : xs.length ≤ n) : xs.rtake n = xs := by
  rw [List.rtake, Nat.sub_eq_zero_of_le h, List.drop_zero]

/-- Of a list with `n` entries at the end, these alone are kept or lost. -/
lemma rtake_append_of_le (xs : List α) (h : n ≤ ys.length) : (xs ++ ys).rtake n = ys.rtake n := by
  have hdrop : xs.length + ys.length - n = xs.length + (ys.length - n) := by omega
  rw [List.rtake, List.rtake, List.length_append, hdrop, List.drop_length_add_append]

/-- What a cut drops is dropped by the cut after an append too. -/
lemma rtake_rtake_append (n : ℕ) (xs ys : List α) :
    (xs.rtake n ++ ys).rtake n = (xs ++ ys).rtake n := by
  rcases le_total n ys.length with hle | hle
  · rw [rtake_append_of_le _ hle, rtake_append_of_le _ hle]
  · have hcut : ∀ zs : List α, (zs ++ ys).rtake n = zs.rtake (n - ys.length) ++ ys := by
      intro zs
      have hdrop : zs.length + ys.length - n = zs.length - (n - ys.length) := by omega
      rw [List.rtake, List.length_append, hdrop, List.drop_append_of_le_length (Nat.sub_le _ _)]
      rfl
    have hagain : (xs.rtake n).rtake (n - ys.length) = xs.rtake (n - ys.length) := by
      rw [List.rtake, List.rtake, List.rtake, List.drop_drop, List.length_drop]
      congr 1
      omega
    rw [hcut, hcut, hagain]

/-- A sequence of pushes leaves the last entries of all. -/
lemma foldl_push (h : xs.length ≤ n) (ys : List α) :
    ys.foldl (push n) xs = (xs ++ ys).rtake n := by
  induction ys using List.reverseRecOn with
  | nil => rw [List.append_nil, rtake_of_length_le h, List.foldl_nil]
  | append_singleton ys y ih =>
    rw [List.foldl_append, ih, List.foldl_cons, List.foldl_nil, push, rtake_rtake_append,
      List.append_assoc]

/-- A list that an append shifts onto itself is constant. -/
lemma eq_replicate_of_shift {y : α} (h : ys ++ [x] = y :: ys) :
    y :: ys = List.replicate (ys.length + 1) x := by
  induction ys generalizing y with
  | nil => exact h.symm
  | cons z zs ih =>
    obtain ⟨rfl, htail⟩ := List.cons.inj h
    have hrest := ih htail
    have hhead : z = x := (List.cons.inj hrest).1
    calc z :: z :: zs = z :: List.replicate (zs.length + 1) x := by rw [hrest]
      _ = List.replicate ((z :: zs).length + 1) x := by rw [hhead]; rfl

/-- **A push is not seen** by a list that is full of copies of the entry, and by no other. -/
theorem push_eq_self_iff : push (n + 1) xs x = xs ↔ xs = List.replicate (n + 1) x := by
  rw [push_succ]
  constructor
  · intro h
    have hlength := congrArg List.length h
    rw [List.length_append, length_rtake, List.length_singleton] at hlength
    have hn : xs.length = n + 1 := by omega
    cases xs with
    | nil => cases hn
    | cons y ys =>
      have hys : ys.length = n := by simpa using hn
      have htail : (y :: ys).rtake n = ys := by
        rw [List.rtake, hn, Nat.add_sub_cancel_left, List.drop_one, List.tail_cons]
      rw [htail] at h
      rw [eq_replicate_of_shift h, hys]
  · rintro rfl
    rw [List.rtake, List.length_replicate, Nat.add_sub_cancel_left, List.drop_one,
      List.tail_replicate, Nat.add_sub_cancel, List.replicate_succ']

/-- The same for a second push of an entry: the list ended in copies of it before the first. -/
theorem push_push_eq_iff :
    push (n + 1) (push (n + 1) xs x) x = push (n + 1) xs x ↔ xs.rtake n = List.replicate n x := by
  rw [push_eq_self_iff, push_succ, List.replicate_succ', List.append_left_inj]

end Window
