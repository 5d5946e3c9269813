import Mathlib.Logic.Basic

/-!
# Conditions with errors

Conditions that are evaluated one after another, up to the first that decides the outcome or
fails. `Settles` relates a result to what it should tell and to when it is an error; it goes
through the two ways to combine conditions, where what comes later can only fail if it is reached.
-/

namespace ShortCircuit

variable {ε : Type}

/-- Conditions one after another, up to the first that fails to hold. -/
def andThen (first rest : Except ε Bool) : Except ε Bool :=
  match first with
  | .error err => .error err
  | .ok false => .ok false
  | .ok true => rest

/-- Alternatives one after another, up to the first that holds. -/
def orElse (first rest : Except ε Bool) : Except ε Bool :=
  match first with
  | .error err => .error err
  | .ok true => .ok true
  | .ok false => rest

/-- Nothing more is asked. -/
@[simp] lemma andThen_true (result : Except ε Bool) : andThen result (.ok true) = result := by
  match result with
  | .error _ | .ok true | .ok false => rfl

/-- The result is an error of the given kind just when `E`, and otherwise it tells whether `P`. -/
inductive Settles (kind : ε → Prop) : Except ε Bool → Prop → Prop → Prop
  | tells {P E : Prop} (b : Bool) (hfree : ¬E) (htells : b = true ↔ P) : Settles kind (.ok b) P E
  | fails {P E : Prop} (err : ε) (hkind : kind err) (hreached : E) : Settles kind (.error err) P E

namespace Settles

variable {kind : ε → Prop} {first rest : Except ε Bool} {P Q E F : Prop}

/-- Errors, and when there is one. -/
theorem error_iff (h : Settles kind first P E) : (∃ err, kind err ∧ first = .error err) ↔ E := by
  cases h with
  | tells b hfree => exact ⟨fun ⟨_, _, herr⟩ => (by cases herr), fun hE => absurd hE hfree⟩
  | fails err hkind hreached => exact ⟨fun _ => hreached, fun _ => ⟨err, hkind, rfl⟩⟩

/-- What a result without an error tells. -/
theorem ok_iff (h : Settles kind first P E) {b : Bool} (hb : first = .ok b) : b = true ↔ P := by
  cases h with
  | tells b' _ htells =>
    cases hb
    exact htells
  | fails => cases hb

/-- A condition that cannot fail. -/
theorem of_bool {b : Bool} (htells : b = true ↔ P) (hfree : ¬E) : Settles kind (.ok b) P E :=
  tells b hfree htells

lemma congr (h : Settles kind first P E) (hP : P ↔ Q) (hE : E ↔ F) : Settles kind first Q F := by
  rwa [← propext hP, ← propext hE]

/-- The second condition is reached if the first holds. -/
theorem andThen (h : Settles kind first P E) (hrest : Settles kind rest Q F) :
    Settles kind (andThen first rest) (P ∧ Q) (E ∨ (P ∧ F)) := by
  cases h with
  | fails err hkind hreached => exact fails err hkind (.inl hreached)
  | tells b hfree htells =>
    cases b with
    | false =>
      have hP : ¬P := fun hP => by simpa using htells.mpr hP
      exact of_bool (by simp [hP]) (by simp [hP, hfree])
    | true =>
      have hP : P := htells.mp rfl
      exact hrest.congr (by simp [hP]) (by simp [hP, hfree])

/-- The second alternative is reached if the first does not hold. -/
theorem orElse (h : Settles kind first P E) (hrest : Settles kind rest Q F) :
    Settles kind (orElse first rest) (P ∨ Q) (E ∨ (¬P ∧ F)) := by
  cases h with
  | fails err hkind hreached => exact fails err hkind (.inl hreached)
  | tells b hfree htells =>
    cases b with
    | true =>
      have hP : P := htells.mp rfl
      exact of_bool (by simp [hP]) (by simp [hP, hfree])
    | false =>
      have hP : ¬P := fun hP => by simpa using htells.mpr hP
      exact hrest.congr (by simp [hP]) (by simp [hP, hfree])

/-- A result of a computation that may fail, read by a test. -/
theorem of_map {α : Type} {r : Except ε α} (test : α → Bool)
    (hkind : ∀ err, r = .error err → kind err) :
    Settles kind (r.map test) (∃ a, r = .ok a ∧ test a = true) (∃ err, r = .error err) := by
  cases r with
  | error err => exact fails err (hkind err rfl) ⟨err, rfl⟩
  | ok a =>
    refine of_bool ⟨fun h => ⟨a, rfl, h⟩, ?_⟩ fun ⟨_, herr⟩ => by cases herr
    rintro ⟨_, ha, htest⟩
    cases ha
    exact htest

end Settles
end ShortCircuit
