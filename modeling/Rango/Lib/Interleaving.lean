import Mathlib.Logic.Function.Basic
import Rango.Lib.Runs

/-!
# Interleaved programs

A program is a tree of atomic operations on a shared state: it is done, or it calls an
operation and continues with the answer. A pool runs a family of programs on one state, in the
order of a schedule. Run alone, a program of a pool does what it does by itself
(`Pool.exec_alone`).

A protocol says which operations a program calls in which phase. `Follows` checks a program
against it once and for all. `Follows.trace` is the rule for such a program that runs alone, and
`Pool.step_tracked` the one for a step of a pool whose programs follow their protocols: an
invariant of the state and the phases is kept when every allowed operation keeps it.
-/

namespace Interleaving

variable {Op : Type} {Res : Op → Type} {σ α β : Type}

/-- A program over operations `o` with answers in `Res o`. -/
inductive Prog (Res : Op → Type) (α : Type) where
  | done (a : α)
  | call (o : Op) (next : Res o → Prog Res α)

namespace Prog

def bind : Prog Res α → (α → Prog Res β) → Prog Res β
  | done a, f => f a
  | call o next, f => call o fun r => (next r).bind f

instance : Monad (Prog Res) where
  pure := done
  bind := bind

/-- The program of one operation. -/
def request (o : Op) : Prog Res (Res o) := call o done

/-- The operation that comes next. -/
def head : Prog Res α → Option Op
  | done _ => none
  | call o _ => some o

/-- The result, once there is nothing left to do. -/
def result : Prog Res α → Option α
  | done a => some a
  | call _ _ => none

lemma result_eq_some {p : Prog Res α} {a : α} : p.result = some a ↔ p = done a := by
  cases p with
  | done b => simp [result]
  | call o next => simp [result]

@[simp] lemma pure_eq (a : α) : (pure a : Prog Res α) = done a := rfl

@[simp] lemma bind_eq (p : Prog Res α) (f : α → Prog Res β) : p >>= f = p.bind f := rfl

@[simp] lemma done_bind (a : α) (f : α → Prog Res β) : (done a : Prog Res α).bind f = f a := rfl

@[simp] lemma request_bind (o : Op) (f : Res o → Prog Res β) : (request o).bind f = call o f := rfl

@[simp] lemma head_done (a : α) : (done a : Prog Res α).head = none := rfl

@[simp] lemma head_call (o : Op) (next : Res o → Prog Res α) : (call o next).head = some o := rfl

/-! ## Programs by themselves -/

/-- The result of a program and the state it leaves, when nothing else runs. -/
def run (perform : (o : Op) → σ → Res o × σ) : Prog Res α → σ → α × σ
  | done a, s => (a, s)
  | call o next, s => (next (perform o s).1).run perform (perform o s).2

variable {perform : (o : Op) → σ → Res o × σ}

@[simp] lemma run_done (a : α) (s : σ) : (done a : Prog Res α).run perform s = (a, s) := rfl

@[simp] lemma run_call (o : Op) (next : Res o → Prog Res α) (s : σ) :
    (call o next).run perform s = (next (perform o s).1).run perform (perform o s).2 := rfl

@[simp] lemma run_request (o : Op) (s : σ) :
    (request o : Prog Res _).run perform s = perform o s := rfl

@[simp] lemma run_bind (p : Prog Res α) (f : α → Prog Res β) (s : σ) :
    (p.bind f).run perform s = (f (p.run perform s).1).run perform (p.run perform s).2 := by
  induction p generalizing s with
  | done a => rfl
  | call o next ih => exact ih _ _

/-! ## Traces -/

/-- The operations that a program calls when nothing else runs, each with the state it finds. -/
def trace (perform : (o : Op) → σ → Res o × σ) : Prog Res α → σ → List (Op × σ)
  | done _, _ => []
  | call o next, s => (o, s) :: (next (perform o s).1).trace perform (perform o s).2

@[simp] lemma trace_done (a : α) (s : σ) : (done a : Prog Res α).trace perform s = [] := rfl

@[simp] lemma trace_call (o : Op) (next : Res o → Prog Res α) (s : σ) :
    (call o next).trace perform s =
      (o, s) :: (next (perform o s).1).trace perform (perform o s).2 := rfl

@[simp] lemma trace_bind (p : Prog Res α) (f : α → Prog Res β) (s : σ) :
    (p.bind f).trace perform s =
      p.trace perform s ++ (f (p.run perform s).1).trace perform (p.run perform s).2 := by
  induction p generalizing s with
  | done a => rfl
  | call o next ih =>
    rw [run_call, trace_call, List.cons_append, ← ih]
    rfl

/-- The operations of a list lead from one state to another, each from where the last one ends. -/
def Leads (perform : (o : Op) → σ → Res o × σ) : σ → List (Op × σ) → σ → Prop
  | s, [], t => s = t
  | s, x :: rest, t => s = x.2 ∧ Leads perform (perform x.1 s).2 rest t

lemma Leads.append {xs ys : List (Op × σ)} {s t u : σ} (h : Leads perform s xs t)
    (h' : Leads perform t ys u) : Leads perform s (xs ++ ys) u := by
  induction xs generalizing s with
  | nil => exact h ▸ h'
  | cons x rest ih => exact ⟨h.1, ih h.2⟩

lemma Leads.split {xs ys : List (Op × σ)} {s u : σ} (h : Leads perform s (xs ++ ys) u) :
    ∃ t, Leads perform s xs t ∧ Leads perform t ys u := by
  induction xs generalizing s with
  | nil => exact ⟨s, rfl, h⟩
  | cons x rest ih =>
    obtain ⟨t, hrest, htail⟩ := ih h.2
    exact ⟨t, ⟨h.1, hrest⟩, htail⟩

/-- What every operation of the list keeps holds at each of them and at the end. -/
lemma Leads.invariant {Inv : σ → Prop} {H : Op → σ → Prop}
    (hstep : ∀ o s, Inv s → H o s → Inv (perform o s).2) {xs : List (Op × σ)} {s t : σ}
    (h : Leads perform s xs t) (hs : Inv s) (hH : ∀ x ∈ xs, H x.1 x.2) :
    (∀ x ∈ xs, Inv x.2) ∧ Inv t := by
  induction xs generalizing s with
  | nil => exact ⟨by simp, h ▸ hs⟩
  | cons x rest ih =>
    obtain ⟨rfl, hrest⟩ := h
    have hnext := hstep _ _ hs (hH x List.mem_cons_self)
    obtain ⟨hall, hend⟩ := ih hrest hnext fun y hy => hH y (List.mem_cons_of_mem _ hy)
    exact ⟨List.forall_mem_cons.mpr ⟨hs, hall⟩, hend⟩

/-- A trace leads from the start of a program to its end. -/
lemma trace_leads (p : Prog Res α) (s : σ) :
    Leads perform s (p.trace perform s) (p.run perform s).2 := by
  induction p generalizing s with
  | done a => rfl
  | call o next ih => exact ⟨rfl, ih _ _⟩

/-! ## More operations -/

section
variable {Op' : Type} {Res' : Op' → Type} {perform' : (o : Op') → σ → Res' o × σ}

/-- The same program over operations among which its own are. -/
def embed (f : Op → Op') (g : ∀ o, Res' (f o) → Res o) : Prog Res α → Prog Res' α
  | done a => done a
  | call o next => call (f o) fun r => (next (g o r)).embed f g

@[simp] lemma embed_bind (f : Op → Op') (g : ∀ o, Res' (f o) → Res o) (p : Prog Res α)
    (q : α → Prog Res β) : (p.bind q).embed f g = (p.embed f g).bind fun a => (q a).embed f g := by
  induction p with
  | done a => rfl
  | call o next ih =>
    show call (f o) (fun r => ((next (g o r)).bind q).embed f g) = _
    simp only [ih]
    rfl

lemma run_embed {f : Op → Op'} {g : ∀ o, Res' (f o) → Res o}
    (h : ∀ o s, (g o (perform' (f o) s).1, (perform' (f o) s).2) = perform o s)
    (p : Prog Res α) (s : σ) : (p.embed f g).run perform' s = p.run perform s := by
  induction p generalizing s with
  | done a => rfl
  | call o next ih =>
    rw [embed, run_call, run_call, ih, ← h]

end

end Prog

/-! ## Protocols -/

/-- In which phases a program may call which operations, and to which phases the answers lead. -/
structure Protocol (Φ : Type) (Res : Op → Type) where
  allowed : Φ → Op → Prop
  next : Φ → (o : Op) → Res o → Φ → Prop

/-- From a phase on, the program keeps to the protocol, and it ends as `post` says. -/
def Protocol.Follows {Φ : Type} (P : Protocol Φ Res) (post : Φ → α → Prop) :
    Φ → Prog Res α → Prop
  | φ, .done a => post φ a
  | φ, .call o next => P.allowed φ o ∧ ∀ r ψ, P.next φ o r ψ → P.Follows post ψ (next r)

/-- The operation is allowed in the phase and leaves it. -/
def Protocol.Quiet {Φ : Type} (P : Protocol Φ Res) (φ : Φ) (o : Op) : Prop :=
  P.allowed φ o ∧ ∀ r ψ, P.next φ o r ψ → ψ = φ

section
variable {Φ : Type} {P : Protocol Φ Res} {φ : Φ}

@[simp] lemma follows_done {post : Φ → α → Prop} {a : α} :
    P.Follows post φ (.done a) ↔ post φ a := Iff.rfl

@[simp] lemma follows_call {post : Φ → α → Prop} {o : Op} {next : Res o → Prog Res α} :
    P.Follows post φ (.call o next) ↔
      P.allowed φ o ∧ ∀ r ψ, P.next φ o r ψ → P.Follows post ψ (next r) := Iff.rfl

/-- A program in sequence with others. -/
lemma Protocol.Follows.bind {mid : Φ → α → Prop} {post : Φ → β → Prop}
    {p : Prog Res α} {f : α → Prog Res β} (hp : P.Follows mid φ p)
    (hf : ∀ ψ a, mid ψ a → P.Follows post ψ (f a)) : P.Follows post φ (p.bind f) := by
  induction p generalizing φ with
  | done a => exact hf φ a hp
  | call o next ih => exact ⟨hp.1, fun r ψ hψ => ih r (hp.2 r ψ hψ)⟩

/-- A program whose end means less. -/
lemma Protocol.Follows.imp {post post' : Φ → α → Prop} {p : Prog Res α}
    (hp : P.Follows post φ p) (h : ∀ ψ a, post ψ a → post' ψ a) : P.Follows post' φ p := by
  induction p generalizing φ with
  | done a => exact h φ a hp
  | call o next ih => exact ⟨hp.1, fun r ψ hψ => ih r (hp.2 r ψ hψ)⟩

/-- **Programs run alone.** Where every allowed operation that a program calls satisfies `G` and
leads to a next phase and from the one invariant to the other, `G` holds along the whole trace,
and the program ends with the invariant. -/
theorem Protocol.Follows.trace {perform : (o : Op) → σ → Res o × σ} {post : Φ → α → Prop}
    {Inv : Φ → σ → Prop} {H G : Op → σ → Prop}
    (hstep : ∀ φ o s, P.allowed φ o → Inv φ s → H o s →
      G o s ∧ ∃ ψ, P.next φ o (perform o s).1 ψ ∧ Inv ψ (perform o s).2)
    {p : Prog Res α} (hp : P.Follows post φ p) {s : σ} (hs : Inv φ s)
    (hH : ∀ x ∈ p.trace perform s, H x.1 x.2) :
    (∀ x ∈ p.trace perform s, G x.1 x.2) ∧
      ∃ ψ, post ψ (p.run perform s).1 ∧ Inv ψ (p.run perform s).2 := by
  induction p generalizing φ s with
  | done a => exact ⟨by simp, φ, hp, hs⟩
  | call o next ih =>
    obtain ⟨hallowed, hnext⟩ := hp
    rw [Prog.trace_call] at hH ⊢
    obtain ⟨hG, ψ, hψ, hinv⟩ := hstep φ o s hallowed hs (hH _ List.mem_cons_self)
    obtain ⟨hrest, hend⟩ := ih (perform o s).1 (hnext _ ψ hψ) hinv
      fun x hx => hH x (List.mem_cons_of_mem _ hx)
    exact ⟨List.forall_mem_cons.mpr ⟨hG, hrest⟩, hend⟩

end

/-! ## Pools -/

/-- Programs that run interleaved, with the state they share. -/
structure Pool (σ : Type) {Op : Type} (Res : Op → Type) {ι : Type} (α : ι → Type) where
  shared : σ
  threads : (i : ι) → Prog Res (α i)

namespace Pool

variable {ι : Type} [DecidableEq ι] {α : ι → Type} (perform : (o : Op) → σ → Res o × σ)

/-- One program performs its next operation. -/
def step (pool : Pool σ Res α) (i : ι) : Pool σ Res α :=
  match pool.threads i with
  | .done _ => pool
  | .call o next =>
    { shared := (perform o pool.shared).2
      threads := Function.update pool.threads i (next (perform o pool.shared).1) }

/-- The pool after a schedule, which names the program that moves next. -/
def exec (pool : Pool σ Res α) (schedule : List ι) : Pool σ Res α :=
  schedule.foldl (step perform) pool

lemma step_done {pool : Pool σ Res α} {i : ι} {a : α i} (h : pool.threads i = .done a) :
    pool.step perform i = pool := by
  rw [step, h]

lemma step_call {pool : Pool σ Res α} {i : ι} {o : Op} {next : Res o → Prog Res (α i)}
    (h : pool.threads i = .call o next) :
    pool.step perform i =
      { shared := (perform o pool.shared).2
        threads := Function.update pool.threads i (next (perform o pool.shared).1) } := by
  rw [step, h]

/-- A program that is done stays so. -/
lemma step_keeps_done {pool : Pool σ Res α} {i : ι} {a : α i} (h : pool.threads i = .done a)
    (j : ι) : (pool.step perform j).threads i = .done a := by
  cases hj : pool.threads j with
  | done b => rw [step_done perform hj, h]
  | call o next =>
    have hne : i ≠ j := by
      rintro rfl
      rw [h] at hj
      cases hj
    rw [step_call perform hj]
    exact (Function.update_of_ne hne ..).trans h

lemma exec_keeps_done {pool : Pool σ Res α} {i : ι} {a : α i} (h : pool.threads i = .done a)
    (schedule : List ι) : (pool.exec perform schedule).threads i = .done a := by
  induction schedule generalizing pool with
  | nil => exact h
  | cons j rest ih => exact ih (step_keeps_done perform h j)

/-- **Run alone.** Left to itself, a program of the pool runs to its end. -/
theorem exec_alone (pool : Pool σ Res α) (i : ι) :
    ∃ n, pool.exec perform (List.replicate n i) =
      { shared := ((pool.threads i).run perform pool.shared).2
        threads := Function.update pool.threads i
          (.done ((pool.threads i).run perform pool.shared).1) } := by
  obtain ⟨shared, threads⟩ := pool
  show ∃ n, exec perform ⟨shared, threads⟩ (List.replicate n i) =
    ⟨((threads i).run perform shared).2,
      Function.update threads i (.done ((threads i).run perform shared).1)⟩
  -- by induction on the program of `i`, whatever the others are
  generalize hp : threads i = p
  induction p generalizing shared threads with
  | done a =>
    refine ⟨0, ?_⟩
    rw [Prog.run_done, ← hp, Function.update_eq_self]
    rfl
  | call o next ih =>
    obtain ⟨n, hn⟩ := ih (perform o shared).1 (perform o shared).2
      (Function.update threads i (next (perform o shared).1)) (Function.update_self _ _ _)
    refine ⟨n + 1, ?_⟩
    rw [List.replicate_succ, exec, List.foldl_cons, step_call perform hp]
    rw [exec, Function.update_idem] at hn
    exact hn

/-- Every program of the pool follows its protocol from its phase on. -/
def Tracked {Φ : ι → Type} (P : (i : ι) → Protocol (Φ i) Res)
    (post : (i : ι) → Φ i → α i → Prop) (φs : (i : ι) → Φ i) (pool : Pool σ Res α) : Prop :=
  ∀ i, (P i).Follows (post i) (φs i) (pool.threads i)

/-- **One step of a pool.** The program that moves calls an allowed operation; when that leads to
a next phase and from the one invariant to the other, so does the step. -/
theorem step_tracked {Φ : ι → Type} {P : (i : ι) → Protocol (Φ i) Res}
    {post : (i : ι) → Φ i → α i → Prop} {φs : (i : ι) → Φ i} {pool : Pool σ Res α}
    {Inv : σ → ((i : ι) → Φ i) → Prop} {i : ι} (htracked : pool.Tracked P post φs)
    (hdone : (pool.threads i).head = none → Inv pool.shared φs)
    (hcall : ∀ o, (pool.threads i).head = some o → (P i).allowed (φs i) o →
      ∃ ψ, (P i).next (φs i) o (perform o pool.shared).1 ψ ∧
        Inv (perform o pool.shared).2 (Function.update φs i ψ)) :
    ∃ φs', (pool.step perform i).Tracked P post φs' ∧ Inv (pool.step perform i).shared φs' := by
  cases hi : pool.threads i with
  | done a =>
    rw [step_done perform hi]
    exact ⟨φs, htracked, hdone (by rw [hi]; rfl)⟩
  | call o next =>
    have hfollows := htracked i
    rw [hi] at hfollows
    obtain ⟨ψ, hnext, hinv⟩ := hcall o (by rw [hi]; rfl) hfollows.1
    rw [step_call perform hi]
    refine ⟨Function.update φs i ψ, fun j => ?_, hinv⟩
    show (P j).Follows (post j) (Function.update φs i ψ j)
      (Function.update pool.threads i (next (perform o pool.shared).1) j)
    by_cases hj : j = i
    · subst hj
      rw [Function.update_self, Function.update_self]
      exact hfollows.2 _ _ hnext
    · rw [Function.update_of_ne hj, Function.update_of_ne hj]
      exact htracked j

end Pool
end Interleaving
