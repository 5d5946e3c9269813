import Mathlib.Algebra.BigOperators.Group.List.Basic
import Mathlib.Algebra.Order.Ring.Nat
import Mathlib.Data.List.Basic

/-!
# Insertion-ordered maps as association lists

A map that remembers the order in which its keys were first inserted: inserting under a
key that is present replaces the value in place, inserting under a new key appends. The
lemmas say how a lookup sees the result of each update, and how updates under one key
cancel.
-/

namespace IndexMap

variable {κ β : Type} [DecidableEq κ]

/-- The value under `k`, if any. -/
def get (m : List (κ × β)) (k : κ) : Option β :=
  match m with
  | [] => none
  | (k', v) :: rest => if k' = k then some v else get rest k

/-- Put `v` under `k`: in place when `k` is present, at the end otherwise. -/
def insert (m : List (κ × β)) (k : κ) (v : β) : List (κ × β) :=
  match m with
  | [] => [(k, v)]
  | (k', v') :: rest => if k' = k then (k, v) :: rest else (k', v') :: insert rest k v

/-- Drop the entries under `k`, keeping the order of the others. -/
def remove (m : List (κ × β)) (k : κ) : List (κ × β) :=
  m.filter fun e => e.1 ≠ k

@[simp] theorem get_insert_self (m : List (κ × β)) (k : κ) (v : β) :
    get (insert m k v) k = some v := by
  induction m with
  | nil => simp [insert, get]
  | cons e rest ih =>
    by_cases h : e.1 = k
    · simp [insert, get, h]
    · simp [insert, get, h, ih]

theorem get_insert_of_ne (m : List (κ × β)) {k k' : κ} (v : β) (h : k ≠ k') :
    get (insert m k v) k' = get m k' := by
  induction m with
  | nil => simp [insert, get, h]
  | cons e rest ih =>
    by_cases he : e.1 = k
    · simp [insert, get, he, h]
    · simp [insert, get, he, ih]

@[simp] theorem get_remove_self (m : List (κ × β)) (k : κ) : get (remove m k) k = none := by
  induction m with
  | nil => rfl
  | cons e rest ih =>
    by_cases he : e.1 = k
    · simpa [remove, he] using ih
    · simpa [remove, get, he] using ih

theorem get_remove_of_ne (m : List (κ × β)) {k k' : κ} (h : k ≠ k') :
    get (remove m k) k' = get m k' := by
  induction m with
  | nil => rfl
  | cons e rest ih =>
    by_cases he : e.1 = k
    · have hne : ¬ e.1 = k' := fun h' => h (he.symm.trans h')
      simpa [remove, get, he, h] using ih
    · simpa [remove, get, he] using congrArg (fun o => if e.1 = k' then some e.2 else o) ih

/-- The last insert under a key decides. -/
@[simp] theorem insert_insert_self (m : List (κ × β)) (k : κ) (v v' : β) :
    insert (insert m k v) k v' = insert m k v' := by
  induction m with
  | nil => simp [insert]
  | cons e rest ih =>
    by_cases h : e.1 = k
    · simp [insert, h]
    · simpa [insert, h] using ih

/-- Inserting what is there changes nothing. -/
theorem insert_of_get {m : List (κ × β)} {k : κ} {v : β} (h : get m k = some v) :
    insert m k v = m := by
  induction m with
  | nil => cases h
  | cons e rest ih =>
    by_cases he : e.1 = k
    · have hv : e.2 = v := by simpa [get, he] using h
      rw [insert, if_pos he, ← he, ← hv]
    · rw [get, if_neg he] at h
      rw [insert, if_neg he, ih h]

/-- Removing a key forgets whatever was inserted under it. -/
@[simp] theorem remove_insert_self (m : List (κ × β)) (k : κ) (v : β) :
    remove (insert m k v) k = remove m k := by
  induction m with
  | nil => simp [insert, remove]
  | cons e rest ih =>
    by_cases h : e.1 = k
    · simp [insert, remove, h]
    · simpa [insert, remove, h] using ih

/-- A lookup in a map whose values were all changed. -/
lemma get_map {γ : Type} (m : List (κ × β)) (f : κ → β → γ) (k : κ) :
    get (m.map fun e => (e.1, f e.1 e.2)) k = (get m k).map (f k) := by
  induction m with
  | nil => rfl
  | cons e rest ih =>
    by_cases he : e.1 = k
    · simp [get, he]
    · simpa [get, he] using ih

/-- What an insert changes of a sum over the entries: the old entry's share goes, the new one's
comes. -/
lemma sum_map_insert (size : κ → β → ℕ) (m : List (κ × β)) (k : κ) (v : β) :
    ((insert m k v).map fun e => size e.1 e.2).sum + (get m k).elim 0 (size k) =
      (m.map fun e => size e.1 e.2).sum + size k v := by
  induction m with
  | nil => simp [insert, get]
  | cons e rest ih =>
    obtain ⟨k', v'⟩ := e
    by_cases hk : k' = k
    · rw [insert, if_pos hk, get, if_pos hk, List.map_cons, List.map_cons, List.sum_cons,
        List.sum_cons, Option.elim_some, hk]
      dsimp only
      omega
    · rw [insert, if_neg hk, get, if_neg hk, List.map_cons, List.map_cons, List.sum_cons,
        List.sum_cons, Nat.add_assoc, ih]
      omega

/-- A new key is appended. -/
lemma insert_of_notMem {m : List (κ × β)} {k : κ} (h : k ∉ m.map Prod.fst) (v : β) :
    insert m k v = m ++ [(k, v)] := by
  induction m with
  | nil => rfl
  | cons e rest ih =>
    rw [List.map_cons, List.mem_cons, not_or] at h
    rw [insert, if_neg (Ne.symm h.1), ih h.2]
    rfl

end IndexMap
