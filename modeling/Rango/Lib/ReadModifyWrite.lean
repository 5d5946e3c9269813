import Mathlib.Data.Fintype.Card
import Mathlib.Algebra.Order.Ring.Int
import Rango.Lib.Runs

/-!
# Reads and later writes

Updaters share a value. Each reads it in its first move and writes what it makes of it in its
second, and the others may move in between. A schedule is `Undisturbed` when nobody writes a value
that another updater has overwritten since it was read. Then the outcome is that of the updaters
one after the other, in the order of their writes (`Cell.run_serial`). When every updater adds one
to a count, the count is exact for the undisturbed schedules only (`Cell.count_iff`).
-/

namespace ReadModifyWrite

variable {ι α : Type} [DecidableEq ι]

/-! ## Schedules -/

/-- Where an updater stands. Between its read and its write another one may have written. -/
inductive Turn where
  | fresh
  | reading (disturbed : Bool)
  | done
deriving DecidableEq

/-- Where an updater stands once another one has written. -/
def Turn.disturb : Turn → Turn
  | .reading _ => .reading true
  | t => t

/-- Where the updaters stand after a move of one of them. -/
def advance (turns : ι → Turn) (i : ι) : ι → Turn :=
  match turns i with
  | .fresh => Function.update turns i (.reading false)
  | .reading _ => Function.update (fun j => (turns j).disturb) i .done
  | .done => turns

/-- The move is no write after somebody else's. -/
def Calm (turns : ι → Turn) (i : ι) : Prop := turns i ≠ .reading true

/-- No updater writes after another one has written since its read. -/
def Undisturbed (schedule : List ι) : Prop :=
  Runs.All advance Calm (fun _ => .fresh) schedule

instance (schedule : List ι) : Decidable (Undisturbed schedule) :=
  haveI : ∀ (turns : ι → Turn) i, Decidable (Calm turns i) := fun turns i =>
    inferInstanceAs (Decidable (turns i ≠ .reading true))
  Runs.instDecidableAll _ _

@[simp] lemma disturb_eq_fresh {t : Turn} : t.disturb = .fresh ↔ t = .fresh := by
  cases t <;> simp [Turn.disturb]

@[simp] lemma disturb_eq_done {t : Turn} : t.disturb = .done ↔ t = .done := by
  cases t <;> simp [Turn.disturb]

lemma disturb_eq_reading {t : Turn} {b : Bool} (h : t.disturb = .reading b) :
    b = true ∧ ∃ b', t = .reading b' := by
  cases t with
  | fresh => cases h
  | done => cases h
  | reading b' =>
    cases h
    exact ⟨rfl, b', rfl⟩

section
variable {turns : ι → Turn} {i : ι}

lemma advance_fresh (h : turns i = .fresh) :
    advance turns i = Function.update turns i (.reading false) := by
  rw [advance, h]

lemma advance_reading {b : Bool} (h : turns i = .reading b) :
    advance turns i = Function.update (fun j => (turns j).disturb) i .done := by
  rw [advance, h]

lemma advance_done (h : turns i = .done) : advance turns i = turns := by
  rw [advance, h]

end

/-! ## The shared value -/

/-- The shared value, what each updater has read of it, and who has written, in order. -/
structure Cell (ι α : Type) where
  value : α
  held : ι → α
  turns : ι → Turn
  writers : List ι

namespace Cell

/-- Before anybody moves. -/
def start (a : α) : Cell ι α := ⟨a, fun _ => a, fun _ => .fresh, []⟩

variable (f : ι → α → α)

/-- One updater moves; `f i` is what it makes of the value. -/
def move (s : Cell ι α) (i : ι) : Cell ι α :=
  match s.turns i with
  | .fresh =>
    { s with held := Function.update s.held i s.value, turns := advance s.turns i }
  -- whatever the value is by now, it is overwritten
  | .reading _ =>
    { s with value := f i (s.held i), turns := advance s.turns i, writers := s.writers ++ [i] }
  | .done => s

variable {f} {s : Cell ι α} {i : ι} {a : α}

lemma move_fresh (h : s.turns i = .fresh) : s.move f i =
    { s with held := Function.update s.held i s.value, turns := advance s.turns i } := by
  rw [move, h]

lemma move_reading {b : Bool} (h : s.turns i = .reading b) : s.move f i =
    { s with value := f i (s.held i), turns := advance s.turns i,
             writers := s.writers ++ [i] } := by
  rw [move, h]

lemma move_done (h : s.turns i = .done) : s.move f i = s := by
  rw [move, h]

lemma move_turns (s : Cell ι α) (i : ι) : (s.move f i).turns = advance s.turns i := by
  cases h : s.turns i with
  | fresh => rw [move_fresh h]
  | reading b => rw [move_reading h]
  | done => rw [move_done h, advance_done h]

lemma value_of_fresh (h : s.turns i = .fresh) : (s.move f i).value = s.value := by
  rw [move_fresh h]

lemma writers_of_fresh (h : s.turns i = .fresh) : (s.move f i).writers = s.writers := by
  rw [move_fresh h]

/-- After a read, the reader holds the value; the others are where they were. -/
lemma readers_of_fresh (hi : s.turns i = .fresh) {j : ι} {b : Bool}
    (hj : (s.move f i).turns j = .reading b) :
    (b = false ∧ (s.move f i).held j = s.value) ∨
      ((s.move f i).held j = s.held j ∧ s.turns j = .reading b) := by
  rw [move_turns, advance_fresh hi] at hj
  rw [move_fresh hi]
  show (b = false ∧ Function.update s.held i s.value j = s.value) ∨
    (Function.update s.held i s.value j = s.held j ∧ s.turns j = .reading b)
  by_cases hji : j = i
  · rw [hji, Function.update_self] at hj
    rw [hji, Function.update_self]
    exact .inl ⟨(Turn.reading.inj hj).symm, rfl⟩
  · rw [Function.update_of_ne hji] at hj ⊢
    exact .inr ⟨rfl, hj⟩

/-- What is true of the value and of all that is held stays true of all that is held after a
read. -/
lemma held_of_fresh {R : α → Prop} (hi : s.turns i = .fresh) (hvalue : R s.value)
    (hheld : ∀ j b, s.turns j = .reading b → R (s.held j)) {j : ι} {b : Bool}
    (hj : (s.move f i).turns j = .reading b) : R ((s.move f i).held j) := by
  rcases readers_of_fresh hi hj with ⟨-, heq⟩ | ⟨heq, hj'⟩
  · rw [heq]
    exact hvalue
  · rw [heq]
    exact hheld j b hj'

/-- After a write, whoever still reads is disturbed. -/
lemma readers_of_reading {b' : Bool} (hi : s.turns i = .reading b') {j : ι} {b : Bool}
    (hj : (s.move f i).turns j = .reading b) :
    b = true ∧ (s.move f i).held j = s.held j ∧ ∃ b'', s.turns j = .reading b'' := by
  rw [move_turns, advance_reading hi] at hj
  have hheld : (s.move f i).held = s.held := by rw [move_reading hi]
  by_cases hji : j = i
  · rw [hji, Function.update_self] at hj
    cases hj
  · rw [Function.update_of_ne hji] at hj
    obtain ⟨htrue, hreading⟩ := disturb_eq_reading hj
    exact ⟨htrue, by rw [hheld], hreading⟩

/-- Whether a schedule is undisturbed can be read off the turns of a run. -/
lemma all_calm_iff (f : ι → α → α) (a : α) (schedule : List ι) :
    Runs.All (move f) (fun s i => Calm s.turns i) (start a) schedule ↔ Undisturbed schedule := by
  have hcalm : ∀ (s : Cell ι α) i, Calm s.turns i ↔ Calm (Cell.turns s) i := fun _ _ => Iff.rfl
  exact Runs.all_map Cell.turns move_turns hcalm

/-! ## Who has written -/

/-- The writers are those that are done, each once. -/
structure Recorded (s : Cell ι α) : Prop where
  nodup : s.writers.Nodup
  mem_iff : ∀ i, i ∈ s.writers ↔ s.turns i = .done

lemma Recorded.move (h : Recorded s) (i : ι) : Recorded (s.move f i) := by
  cases hi : s.turns i with
  | fresh =>
    rw [move_fresh hi]
    refine ⟨h.nodup, fun j => ?_⟩
    show j ∈ s.writers ↔ advance s.turns i j = .done
    rw [advance_fresh hi, h.mem_iff]
    by_cases hj : j = i
    · rw [hj, hi, Function.update_self]
      simp
    · rw [Function.update_of_ne hj]
  | reading b =>
    have hnew : i ∉ s.writers := by
      rw [h.mem_iff, hi]
      simp
    rw [move_reading hi]
    refine ⟨?_, fun j => ?_⟩
    · rw [← List.concat_eq_append]
      exact h.nodup.concat hnew
    show j ∈ s.writers ++ [i] ↔ advance s.turns i j = .done
    rw [advance_reading hi, List.mem_append, List.mem_singleton, h.mem_iff]
    by_cases hj : j = i
    · simp [hj]
    · simp [hj]
  | done =>
    rw [move_done hi]
    exact h

lemma run_recorded (f : ι → α → α) (a : α) (schedule : List ι) :
    Recorded (schedule.foldl (Cell.move f) (start a)) :=
  Runs.invariant (fun _ i h => h.move i) schedule ⟨List.nodup_nil, by simp [start]⟩

omit [DecidableEq ι] in
/-- Whoever is about to write is not among the writers. -/
lemma Recorded.length_lt [Fintype ι] (h : Recorded s) (hi : s.turns i ≠ .done) :
    s.writers.length < Fintype.card ι := by
  have hnew : i ∉ s.writers := mt (h.mem_iff i).mp hi
  exact (List.nodup_cons.mpr ⟨hnew, h.nodup⟩).length_le_card

/-- When everybody is done, everybody has written. -/
lemma Recorded.length_eq [Fintype ι] (h : Recorded s) (hall : ∀ i, s.turns i = .done) :
    s.writers.length = Fintype.card ι := by
  have huniv : s.writers.toFinset = Finset.univ := by
    ext i
    simp [h.mem_iff, hall]
  rw [← List.toFinset_card_of_nodup h.nodup, huniv, Finset.card_univ]

/-! ## Serial outcomes -/

/-- Whoever has not been disturbed holds the value that is there, and this value is that of the
writers one after the other, each at a value with `G`. -/
structure Serial (f : ι → α → α) (G : ι → α → Prop) (a : α) (s : Cell ι α) : Prop where
  held_eq : ∀ i, s.turns i = .reading false → s.held i = s.value
  value_eq : s.value = s.writers.foldl (fun b i => f i b) a
  all : Runs.All (fun b i => f i b) (fun b i => G i b) a s.writers

variable {G : ι → α → Prop}

lemma Serial.move (h : Serial f G a s) (hcalm : Calm s.turns i)
    (hG : ∀ b, s.turns i = .reading b → G i (s.held i)) : Serial f G a (s.move f i) := by
  cases hi : s.turns i with
  | fresh =>
    refine ⟨fun j hj => ?_, ?_, ?_⟩
    · rw [value_of_fresh hi]
      rcases readers_of_fresh hi hj with ⟨-, heq⟩ | ⟨heq, hj'⟩
      · exact heq
      · exact heq.trans (h.held_eq j hj')
    · rw [move_fresh hi]
      exact h.value_eq
    · rw [move_fresh hi]
      exact h.all
  | reading b =>
    obtain rfl : b = false := by
      cases b with
      | false => rfl
      | true => exact absurd hi hcalm
    have hheld : s.held i = s.value := h.held_eq i hi
    refine ⟨fun j hj => ?_, ?_, ?_⟩
    · -- after a write nobody is undisturbed
      exact absurd (readers_of_reading hi hj).1 (by decide)
    · rw [move_reading hi]
      show f i (s.held i) = (s.writers ++ [i]).foldl (fun b i => f i b) a
      rw [List.foldl_append, ← h.value_eq, hheld]
      rfl
    · rw [move_reading hi]
      refine Runs.all_append.mpr ⟨h.all, ?_, trivial⟩
      show G i (s.writers.foldl (fun b i => f i b) a)
      rw [← h.value_eq, ← hheld]
      exact hG false hi
  | done =>
    rw [move_done hi]
    exact h

/-- **Undisturbed schedules are serial.** The value is what the writers make of the first one, one
after the other, each at a value as it had at its write. -/
theorem run_serial {schedule : List ι} (h : Undisturbed schedule)
    (hG : Runs.All (move f) (fun s i => ∀ b, s.turns i = .reading b → G i (s.held i)) (start a)
      schedule) : Serial f G a (schedule.foldl (move f) (start a)) := by
  have hall := Runs.all_and.mpr ⟨(all_calm_iff f a schedule).mpr h, hG⟩
  refine hall.invariant (fun s i hs hi => hs.move hi.1 hi.2) ⟨?_, rfl, trivial⟩
  intro i hi
  rfl

/-! ## Counts -/

section
variable {P : α → Prop} {m : α → ℤ} {n : ℤ}

/-- The values in play satisfy `P`, and none of them counts more than the writes. -/
structure Bounded (P : α → Prop) (m : α → ℤ) (n : ℤ) (s : Cell ι α) : Prop where
  recorded : Recorded s
  value_prop : P s.value
  value_le : m s.value ≤ n + s.writers.length
  held_prop : ∀ i b, s.turns i = .reading b → P (s.held i)
  held_le : ∀ i b, s.turns i = .reading b → m (s.held i) ≤ n + s.writers.length

/-- Every write is counted. Whoever was disturbed holds less than the others. -/
structure Exact (m : α → ℤ) (n : ℤ) (s : Cell ι α) : Prop where
  value_eq : m s.value = n + s.writers.length
  held_eq : ∀ i, s.turns i = .reading false → m (s.held i) = n + s.writers.length
  held_lt : ∀ i, s.turns i = .reading true → m (s.held i) < n + s.writers.length

/-- A write is lost, and nobody holds a value that counts it. -/
structure Lost (m : α → ℤ) (n : ℤ) (s : Cell ι α) : Prop where
  value_lt : m s.value < n + s.writers.length
  held_lt : ∀ i b, s.turns i = .reading b → m (s.held i) < n + s.writers.length

lemma writers_length_of_reading {b : Bool} (hi : s.turns i = .reading b) :
    ((s.move f i).writers.length : ℤ) = s.writers.length + 1 := by
  rw [move_reading hi]
  show ((s.writers ++ [i]).length : ℤ) = _
  rw [List.length_append, List.length_singleton]
  push_cast
  rfl

section
variable [Fintype ι]
  (hf : ∀ i a, P a → m a < n + Fintype.card ι → P (f i a) ∧ m (f i a) = m a + 1)
include hf

/-- What a write makes of a value. -/
lemma Bounded.write (h : Bounded P m n s) {b : Bool} (hi : s.turns i = .reading b) :
    P (s.move f i).value ∧ m (s.move f i).value = m (s.held i) + 1 := by
  have hlength := h.recorded.length_lt (i := i) (by simp [hi])
  have hle := h.held_le i b hi
  rw [move_reading hi]
  exact hf i (s.held i) (h.held_prop i b hi) (by omega)

lemma Bounded.move (h : Bounded P m n s) (i : ι) : Bounded P m n (s.move f i) := by
  have hrecorded := h.recorded.move (f := f) i
  cases hi : s.turns i with
  | fresh =>
    refine ⟨hrecorded, ?_, ?_, fun j b hj => ?_, fun j b hj => ?_⟩
    · rw [value_of_fresh hi]
      exact h.value_prop
    · rw [value_of_fresh hi, writers_of_fresh hi]
      exact h.value_le
    · exact held_of_fresh hi h.value_prop h.held_prop hj
    · rw [writers_of_fresh hi]
      exact held_of_fresh (R := fun a => m a ≤ n + s.writers.length) hi h.value_le h.held_le hj
  | reading b =>
    obtain ⟨hP, hm⟩ := h.write hf hi
    have hlength := writers_length_of_reading (f := f) hi
    refine ⟨hrecorded, hP, ?_, fun j b' hj => ?_, fun j b' hj => ?_⟩
    · have hle := h.held_le i b hi
      omega
    · obtain ⟨-, heq, b'', hj'⟩ := readers_of_reading hi hj
      rw [heq]
      exact h.held_prop j b'' hj'
    · obtain ⟨-, heq, b'', hj'⟩ := readers_of_reading hi hj
      have hle := h.held_le j b'' hj'
      rw [heq]
      omega
  | done =>
    rw [move_done hi]
    exact h

/-- An undisturbed write is counted. -/
lemma Exact.move (h : Exact m n s) (hb : Bounded P m n s) (hcalm : Calm s.turns i) :
    Exact m n (s.move f i) := by
  cases hi : s.turns i with
  | fresh =>
    refine ⟨?_, fun j hj => ?_, fun j hj => ?_⟩
    · rw [value_of_fresh hi, writers_of_fresh hi]
      exact h.value_eq
    · rw [writers_of_fresh hi]
      rcases readers_of_fresh hi hj with ⟨-, heq⟩ | ⟨heq, hj'⟩
      · rw [heq]
        exact h.value_eq
      · rw [heq]
        exact h.held_eq j hj'
    · rw [writers_of_fresh hi]
      rcases readers_of_fresh hi hj with ⟨hfalse, -⟩ | ⟨heq, hj'⟩
      · cases hfalse
      · rw [heq]
        exact h.held_lt j hj'
  | reading b =>
    obtain ⟨-, hm⟩ := hb.write hf hi
    have hlength := writers_length_of_reading (f := f) hi
    -- a calm write is of what the value is
    obtain rfl : b = false := by
      cases b with
      | false => rfl
      | true => exact absurd hi hcalm
    have hheld := h.held_eq i hi
    refine ⟨by omega, fun j hj => ?_, fun j hj => ?_⟩
    · exact absurd (readers_of_reading hi hj).1 (by decide)
    · obtain ⟨-, heq, b'', hj'⟩ := readers_of_reading hi hj
      have hle := hb.held_le j b'' hj'
      rw [heq]
      omega
  | done =>
    rw [move_done hi]
    exact h

/-- A disturbed write loses the writes between. -/
lemma Exact.lose (h : Exact m n s) (hb : Bounded P m n s) (hi : s.turns i = .reading true) :
    Lost m n (s.move f i) := by
  obtain ⟨-, hm⟩ := hb.write hf hi
  have hlength := writers_length_of_reading (f := f) hi
  have hheld := h.held_lt i hi
  refine ⟨by omega, fun j b hj => ?_⟩
  obtain ⟨-, heq, b'', hj'⟩ := readers_of_reading hi hj
  have hle := hb.held_le j b'' hj'
  rw [heq]
  omega

/-- What is lost stays lost. -/
lemma Lost.move (h : Lost m n s) (hb : Bounded P m n s) (i : ι) : Lost m n (s.move f i) := by
  cases hi : s.turns i with
  | fresh =>
    refine ⟨?_, fun j b hj => ?_⟩
    · rw [value_of_fresh hi, writers_of_fresh hi]
      exact h.value_lt
    · rw [writers_of_fresh hi]
      exact held_of_fresh (R := fun a => m a < n + s.writers.length) hi h.value_lt h.held_lt hj
  | reading b =>
    obtain ⟨-, hm⟩ := hb.write hf hi
    have hlength := writers_length_of_reading (f := f) hi
    have hheld := h.held_lt i b hi
    refine ⟨by omega, fun j b' hj => ?_⟩
    obtain ⟨-, heq, b'', hj'⟩ := readers_of_reading hi hj
    have hlt := h.held_lt j b'' hj'
    rw [heq]
    omega
  | done =>
    rw [move_done hi]
    exact h

/-- From an exact cell on, the outcome is exact just when every write is undisturbed, and a write is
lost otherwise. -/
lemma Exact.run (h : Exact m n s) (hb : Bounded P m n s) (schedule : List ι) :
    (Runs.All (Cell.move f) (fun s i => Calm s.turns i) s schedule ∧
        Exact m n (schedule.foldl (Cell.move f) s)) ∨
      (¬Runs.All (Cell.move f) (fun s i => Calm s.turns i) s schedule ∧
        Lost m n (schedule.foldl (Cell.move f) s)) := by
  induction schedule generalizing s with
  | nil => exact .inl ⟨trivial, h⟩
  | cons i rest ih =>
    have hb' := hb.move hf i
    by_cases hcalm : Calm s.turns i
    · rcases ih (h.move hf hb hcalm) hb' with ⟨hall, hexact⟩ | ⟨hnot, hlost⟩
      · exact .inl ⟨⟨hcalm, hall⟩, hexact⟩
      · exact .inr ⟨fun hall => hnot hall.2, hlost⟩
    · -- the first disturbed write; no later one makes up for it
      have hi : s.turns i = .reading true := by simpa [Calm] using hcalm
      have hstep : ∀ s' j, Bounded P m n s' ∧ Lost m n s' →
          Bounded P m n (s'.move f j) ∧ Lost m n (s'.move f j) :=
        fun s' j hs => ⟨hs.1.move hf j, hs.2.move hf hs.1 j⟩
      have hrest := Runs.invariant hstep rest ⟨hb', h.lose hf hb hi⟩
      exact .inr ⟨fun hall => hcalm hall.1, hrest.2⟩

lemma run_bounded {a : α} (ha : P a) (hn : m a = n) (schedule : List ι) :
    Bounded P m n (schedule.foldl (Cell.move f) (start a)) :=
  Runs.invariant (fun _ i h => h.move hf i) schedule
    ⟨⟨List.nodup_nil, by simp [start]⟩, ha, by simp [start, hn], by simp [start], by simp [start]⟩

/-- **Counts are exact for undisturbed schedules only.** -/
theorem count_iff {a : α} (ha : P a) (hn : m a = n) (schedule : List ι) :
    m (schedule.foldl (Cell.move f) (start a)).value =
        n + (schedule.foldl (Cell.move f) (start a)).writers.length ↔
      Undisturbed schedule := by
  have hstart : Bounded P m n (start a : Cell ι α) := run_bounded hf ha hn []
  have hexact : Exact m n (start a : Cell ι α) := ⟨by simp [start, hn], by simp [start],
    by simp [start]⟩
  rw [← all_calm_iff f a]
  rcases hexact.run hf hstart schedule with ⟨hall, h⟩ | ⟨hnot, h⟩
  · exact iff_of_true h.value_eq hall
  · exact iff_of_false h.value_lt.ne hnot

end
end
end Cell
end ReadModifyWrite
