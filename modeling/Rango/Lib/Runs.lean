import Mathlib.Data.List.Basic
import Mathlib.Data.Nat.Notation

/-!
# Runs of a step function

A run folds a step function over a list of actions. `All` says that a condition held of
every action in the state it was taken in; the two induction rules carry an invariant
through such a run.
-/

namespace Runs

variable {S A : Type} {step : S → A → S} {P Q : S → A → Prop}

/-- Every action of the run satisfies `P` in the state it is taken in. -/
def All (step : S → A → S) (P : S → A → Prop) : S → List A → Prop
  | _, [] => True
  | s, a :: rest => P s a ∧ All step P (step s a) rest

@[simp] lemma all_nil (s : S) : All step P s [] := trivial

@[simp] lemma all_cons {s : S} {a : A} {rest : List A} :
    All step P s (a :: rest) ↔ P s a ∧ All step P (step s a) rest := Iff.rfl

instance instDecidableAll [∀ s a, Decidable (P s a)] :
    ∀ (s : S) (as : List A), Decidable (All step P s as)
  | _, [] => .isTrue trivial
  | s, a :: rest =>
    haveI := instDecidableAll (step s a) rest
    inferInstanceAs (Decidable (P s a ∧ All step P (step s a) rest))

lemma All.imp (h : ∀ s a, P s a → Q s a) {s : S} {as : List A} (hall : All step P s as) :
    All step Q s as := by
  induction as generalizing s with
  | nil => trivial
  | cons a rest ih => exact ⟨h s a hall.1, ih hall.2⟩

lemma all_append {s : S} {as bs : List A} :
    All step P s (as ++ bs) ↔ All step P s as ∧ All step P (as.foldl step s) bs := by
  induction as generalizing s with
  | nil => simp
  | cons a rest ih => simp [ih, and_assoc]

lemma all_and {s : S} {as : List A} :
    All step (fun s a => P s a ∧ Q s a) s as ↔ All step P s as ∧ All step Q s as := by
  induction as generalizing s with
  | nil => simp
  | cons a rest ih =>
    rw [all_cons, all_cons, all_cons, ih]
    exact and_and_and_comm

/-- A run can be followed through what another step function keeps of its states. -/
lemma all_map {T : Type} {step' : T → A → T} {P' : T → A → Prop} (g : S → T)
    (hstep : ∀ s a, g (step s a) = step' (g s) a) (hP : ∀ s a, P s a ↔ P' (g s) a) {s : S}
    {as : List A} : All step P s as ↔ All step' P' (g s) as := by
  induction as generalizing s with
  | nil => exact Iff.rfl
  | cons a rest ih => rw [all_cons, all_cons, hP, ih, hstep]

/-- A condition on the actions alone joins one on the steps. -/
lemma All.and_mem {R : A → Prop} {s : S} {as : List A} (hall : All step P s as)
    (h : ∀ a ∈ as, R a) : All step (fun s a => R a ∧ P s a) s as := by
  induction as generalizing s with
  | nil => trivial
  | cons a rest ih =>
    exact ⟨⟨h a List.mem_cons_self, hall.1⟩,
      ih hall.2 fun x hx => h x (List.mem_cons_of_mem _ hx)⟩

/-- What every allowed step keeps, every allowed run keeps. -/
theorem All.invariant {Inv : S → Prop} (hstep : ∀ s a, Inv s → P s a → Inv (step s a)) {s : S}
    {as : List A} (hall : All step P s as) (hs : Inv s) : Inv (as.foldl step s) := by
  induction as generalizing s with
  | nil => exact hs
  | cons a rest ih => exact ih hall.2 (hstep s a hs hall.1)

/-- What every step keeps, every run keeps. -/
theorem invariant {Inv : S → Prop} (hstep : ∀ s a, Inv s → Inv (step s a)) {s : S}
    (as : List A) (hs : Inv s) : Inv (as.foldl step s) := by
  induction as generalizing s with
  | nil => exact hs
  | cons a rest ih => exact ih (hstep s a hs)

/-- Every action of the run, with what comes before it. -/
lemma all_iff_forall_prefix {s : S} {as : List A} :
    All step P s as ↔ ∀ pre a, pre ++ [a] <+: as → P (pre.foldl step s) a := by
  constructor
  · rintro hall pre a ⟨post, rfl⟩
    rw [all_append, all_append] at hall
    exact hall.1.2.1
  · intro h
    induction as generalizing s with
    | nil => trivial
    | cons a rest ih =>
      refine ⟨h [] a (List.prefix_append [a] rest), ih fun pre b hpre => ?_⟩
      exact h (a :: pre) b (List.cons_prefix_cons.mpr ⟨rfl, hpre⟩)

/-- When exactly the allowed steps keep `Inv`, it holds all along exactly the allowed runs. -/
theorem forall_prefix_iff_all {Inv : S → Prop}
    (hstep : ∀ s a, Inv s → (Inv (step s a) ↔ P s a)) {s : S} (as : List A) (hs : Inv s) :
    (∀ pre, pre <+: as → Inv (pre.foldl step s)) ↔ All step P s as := by
  constructor
  · intro h
    induction as generalizing s with
    | nil => trivial
    | cons a rest ih =>
      have hnext : Inv (step s a) := h [a] (List.prefix_append [a] rest)
      refine ⟨(hstep s a hs).mp hnext, ih hnext fun pre hpre => ?_⟩
      exact h (a :: pre) (List.cons_prefix_cons.mpr ⟨rfl, hpre⟩)
  · rintro hall pre ⟨post, rfl⟩
    exact (all_append.mp hall).1.invariant (fun s a hs hP => (hstep s a hs).mpr hP) hs

/-! ## Costs -/

/-- What the actions of a run cost, each in the state it is taken in. -/
def total (step : S → A → S) (cost : S → A → ℕ) : S → List A → ℕ
  | _, [] => 0
  | s, a :: rest => cost s a + total step cost (step s a) rest

/-- When a potential pays for every action, it pays for the run. -/
theorem total_le_potential {Inv : S → Prop} {cost : S → A → ℕ} (potential : S → ℕ)
    (hstep : ∀ s a, Inv s → Inv (step s a))
    (hpays : ∀ s a, Inv s → cost s a + potential (step s a) ≤ potential s) {s : S} (as : List A)
    (hs : Inv s) : total step cost s as ≤ potential s := by
  induction as generalizing s with
  | nil => exact Nat.zero_le _
  | cons a rest ih =>
    have hrest := ih (hstep s a hs)
    have hone := hpays s a hs
    show cost s a + total step cost (step s a) rest ≤ potential s
    omega

end Runs
