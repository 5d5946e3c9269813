import Rango.Lib.Interleaving

/-!
# Histories of pools

The history of a pool lists the operations that its programs have called, each with the answer, in
the order of the schedule. In a protocol of the form `Protocol.ofNext` the phase of a program is a
function of its own steps, as long as the operations answer as expected. `Pool.history_allowed` is
the rule for what precedes a step in the history, `Pool.exec_invariant_of` the one for what holds
of the state and the phases all along.
-/

namespace Interleaving

variable {Op : Type} {Res : Op → Type} {σ Φ : Type}

/-- An operation with its answer. -/
abbrev Step (Res : Op → Type) : Type := (o : Op) × Res o

/-- A protocol in which an expected answer leads to one phase. -/
def Protocol.ofNext (allowed : Φ → Op → Prop) (answers : Step Res → Prop)
    (next : Φ → Step Res → Φ) : Protocol Φ Res where
  allowed := allowed
  next φ o r ψ := answers ⟨o, r⟩ ∧ ψ = next φ ⟨o, r⟩

namespace Pool

variable {ι : Type} [DecidableEq ι] {α : ι → Type} (perform : (o : Op) → σ → Res o × σ)

/-- The steps that a schedule has the programs take. -/
def history (pool : Pool σ Res α) : List ι → List (ι × Step Res)
  | [] => []
  | i :: rest =>
    match pool.threads i with
    | .done _ => pool.history rest
    | .call o _ =>
      (i, ⟨o, (perform o pool.shared).1⟩) :: (pool.step perform i).history rest

/-- The steps of one program. -/
def own (i : ι) (steps : List (ι × Step Res)) : List (Step Res) :=
  (steps.filter fun s => s.1 = i).map Prod.snd

@[simp] lemma own_nil (i : ι) : own i ([] : List (ι × Step Res)) = [] := rfl

@[simp] lemma own_cons_self (i : ι) (s : Step Res) (rest : List (ι × Step Res)) :
    own i ((i, s) :: rest) = s :: own i rest := by
  simp [own]

lemma own_cons_of_ne {i j : ι} (h : j ≠ i) (s : Step Res) (rest : List (ι × Step Res)) :
    own i ((j, s) :: rest) = own i rest := by
  simp [own, h]

lemma history_done {pool : Pool σ Res α} {i : ι} {a : α i} (h : pool.threads i = .done a)
    (rest : List ι) : pool.history perform (i :: rest) = pool.history perform rest := by
  rw [history, h]

lemma history_call {pool : Pool σ Res α} {i : ι} {o : Op} {next : Res o → Prog Res (α i)}
    (h : pool.threads i = .call o next) (rest : List ι) :
    pool.history perform (i :: rest) =
      (i, ⟨o, (perform o pool.shared).1⟩) :: (pool.step perform i).history perform rest := by
  rw [history, h]

variable {allowed : ι → Φ → Op → Prop} {answers : Step Res → Prop} {next : Φ → Step Res → Φ}
  {post : (i : ι) → Φ → α i → Prop} {φs : ι → Φ} {pool : Pool σ Res α}

/-- A program that moves has an allowed step to take, and the programs follow their protocols from
the next phases on. -/
lemma step_ofNext (hanswers : ∀ o s, answers ⟨o, (perform o s).1⟩)
    (h : pool.Tracked (fun i => .ofNext (allowed i) answers next) post φs) {i : ι} {o : Op}
    {rest : Res o → Prog Res (α i)} (hi : pool.threads i = .call o rest) :
    allowed i (φs i) o ∧
      (pool.step perform i).Tracked (fun i => .ofNext (allowed i) answers next) post
        (Function.update φs i (next (φs i) ⟨o, (perform o pool.shared).1⟩)) := by
  have hfollows := h i
  rw [hi] at hfollows
  refine ⟨hfollows.1, fun j => ?_⟩
  rw [step_call perform hi]
  show Protocol.Follows _ _ _ (Function.update pool.threads i _ j)
  by_cases hj : j = i
  · subst hj
    rw [Function.update_self, Function.update_self]
    exact hfollows.2 _ _ ⟨hanswers o _, rfl⟩
  · rw [Function.update_of_ne hj, Function.update_of_ne hj]
    exact h j

/-- A phase that has taken the steps of its program takes the next one. -/
lemma foldl_own_cons (i j : ι) (s : Step Res) (rest : List (ι × Step Res)) :
    (own j ((i, s) :: rest)).foldl next (φs j) =
      (own j rest).foldl next (Function.update φs i (next (φs i) s) j) := by
  by_cases hj : j = i
  · subst hj
    rw [own_cons_self, List.foldl_cons, Function.update_self]
  · rw [own_cons_of_ne (Ne.symm hj), Function.update_of_ne hj]

/-- **What precedes a step.** Every step of the history was allowed in the phase that the earlier
steps of its program led to. -/
theorem history_allowed (hanswers : ∀ o s, answers ⟨o, (perform o s).1⟩)
    (h : pool.Tracked (fun i => .ofNext (allowed i) answers next) post φs)
    {schedule : List ι} {before : List (ι × Step Res)} {i : ι} {s : Step Res}
    {after : List (ι × Step Res)}
    (hsplit : pool.history perform schedule = before ++ (i, s) :: after) :
    allowed i ((own i before).foldl next (φs i)) s.1 := by
  induction schedule generalizing pool φs before with
  | nil => simp [history] at hsplit
  | cons j rest ih =>
    cases hj : pool.threads j with
    | done a =>
      rw [history_done perform hj] at hsplit
      exact ih h hsplit
    | call o cont =>
      obtain ⟨hallowed, htracked⟩ := step_ofNext perform hanswers h hj
      rw [history_call perform hj] at hsplit
      cases before with
      | nil =>
        obtain ⟨hhead, -⟩ := List.cons.inj hsplit
        obtain ⟨rfl, rfl⟩ := Prod.mk.inj hhead
        exact hallowed
      | cons b before =>
        obtain ⟨rfl, htail⟩ := List.cons.inj hsplit
        rw [foldl_own_cons]
        exact ih htracked htail

/-- **What holds all along.** An invariant of the state and the phases holds after every schedule
on whose history `H` holds, if every allowed step with `H` keeps it, and every program is still in
its protocol. -/
theorem exec_invariant_of {Inv : σ → (ι → Φ) → Prop} {H : ι → Step Res → Prop}
    (hanswers : ∀ o s, answers ⟨o, (perform o s).1⟩)
    (hstep : ∀ s φs i o, Inv s φs → allowed i (φs i) o → H i ⟨o, (perform o s).1⟩ →
      Inv (perform o s).2 (Function.update φs i (next (φs i) ⟨o, (perform o s).1⟩)))
    (h : pool.Tracked (fun i => .ofNext (allowed i) answers next) post φs)
    (hinv : Inv pool.shared φs) {schedule : List ι}
    (hH : ∀ x ∈ pool.history perform schedule, H x.1 x.2) :
    ∃ φs', (pool.exec perform schedule).Tracked
        (fun i => .ofNext (allowed i) answers next) post φs' ∧
      Inv (pool.exec perform schedule).shared φs' := by
  induction schedule generalizing pool φs with
  | nil => exact ⟨φs, h, hinv⟩
  | cons i rest ih =>
    rw [exec, List.foldl_cons]
    cases hi : pool.threads i with
    | done a =>
      rw [step_done perform hi]
      rw [history_done perform hi] at hH
      exact ih h hinv hH
    | call o cont =>
      obtain ⟨hallowed, htracked⟩ := step_ofNext perform hanswers h hi
      rw [history_call perform hi] at hH
      obtain ⟨hfirst, hrest⟩ := List.forall_mem_cons.mp hH
      refine ih htracked ?_ hrest
      rw [step_call perform hi]
      exact hstep _ _ _ _ hinv hallowed hfirst

/-- An invariant that every allowed step keeps. -/
theorem exec_invariant {Inv : σ → (ι → Φ) → Prop}
    (hanswers : ∀ o s, answers ⟨o, (perform o s).1⟩)
    (hstep : ∀ s φs i o, Inv s φs → allowed i (φs i) o →
      Inv (perform o s).2 (Function.update φs i (next (φs i) ⟨o, (perform o s).1⟩)))
    (h : pool.Tracked (fun i => .ofNext (allowed i) answers next) post φs)
    (hinv : Inv pool.shared φs) (schedule : List ι) :
    ∃ φs', (pool.exec perform schedule).Tracked
        (fun i => .ofNext (allowed i) answers next) post φs' ∧
      Inv (pool.exec perform schedule).shared φs' :=
  exec_invariant_of (H := fun _ _ => True) perform hanswers
    (fun s φs i o hs hallowed _ => hstep s φs i o hs hallowed) h hinv fun _ _ => trivial

omit [DecidableEq ι] in
/-- A program that is done ends as its protocol says. -/
lemma Tracked.result {P : ι → Protocol Φ Res} (h : pool.Tracked P post φs) {i : ι} {a : α i}
    (hi : (pool.threads i).result = some a) : post i (φs i) a := by
  have hfollows := h i
  rwa [Prog.result_eq_some.mp hi] at hfollows

end Pool
end Interleaving
