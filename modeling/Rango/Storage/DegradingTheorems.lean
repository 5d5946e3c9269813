import Rango.Lib.Periodic
import Rango.Lib.Runs
import Rango.Storage.Fallible
import Rango.Storage.Redb

/-!
# How far a degrading storage lags behind the disk

The counter of writes and the flag of `DegradingStorage` are a `Periodic.Gauge`, and every attempt
to write is one tick of it (`next_write`). So the flag is set at every `N`-th attempt, and when the
checker's answers no longer change, fewer than `N` attempts go the other way.
-/

namespace Rango

/-- The error of a storage that is degraded. -/
def degradedError : RangoError := .storage "Storage degraded: insufficient disk space"

namespace StorageCall

def isWrite : StorageCall → Bool
  | .put .. => true
  | .delete .. => true
  | _ => false

/-- The answer to a call that is refused. -/
def refusal : StorageCall → StorageAnswer
  | .get .. => .get (.error degradedError)
  | .put .. => .put (.error degradedError)
  | .delete .. => .delete (.error degradedError)
  | .scan _ => .scan (.error degradedError)

end StorageCall

namespace DegradingStorage

open Periodic StorageCall

variable {σ : Type} {s : DegradingStorage σ} {x : StorageCall} {b : Bool}

/-- Whether an answer of the space checker degrades the storage. -/
def short (s : DegradingStorage σ) : Except RangoError ℕ → Bool
  | .ok available => available < s.minFreeBytes
  | .error _ => true

/-- The counter and the flag. -/
def gauge (s : DegradingStorage σ) : Gauge := ⟨s.writeCounter, s.degraded⟩

/-- The attempt is answered with an error of the storage's own. -/
def Refused (s : DegradingStorage σ) (x : StorageCall) : Prop :=
  x.isWrite = true ∧ s.maybeCheckAndDegrade.2.degraded = true

/-- The attempt reaches the backend. -/
def Reached (s : DegradingStorage σ) (x : StorageCall) : Prop :=
  x.isWrite = true ∧ s.maybeCheckAndDegrade.2.degraded = false

instance : Decidable (s.Refused x) := inferInstanceAs (Decidable (_ ∧ _))

instance : Decidable (s.Reached x) := inferInstanceAs (Decidable (_ ∧ _))

/-! ## One call -/

/-- What a storage never changes. -/
structure Fixed (s s' : DegradingStorage σ) : Prop where
  checkInterval : s'.checkInterval = s.checkInterval
  minFreeBytes : s'.minFreeBytes = s.minFreeBytes
  spaceChecker : s'.spaceChecker = s.spaceChecker

lemma Fixed.short_eq {s' : DegradingStorage σ} (h : s.Fixed s') (j : ℕ) :
    s'.short (s'.spaceChecker j) = s.short (s.spaceChecker j) := by
  rw [h.spaceChecker]
  cases s.spaceChecker j with
  | error err => rfl
  | ok available =>
    show decide (available < s'.minFreeBytes) = decide (available < s.minFreeBytes)
    rw [h.minFreeBytes]

/-- One attempt is one tick. -/
structure Ticked (s s' : DegradingStorage σ) : Prop extends Fixed s s' where
  gauge : s'.gauge = s.gauge.tick s.checkInterval (s.short (s.spaceChecker s.checks))
  checks : s'.checks = s.checks + if s.checkInterval ≤ s.gauge.counter + 1 then 1 else 0

lemma maybeCheckAndDegrade_ticked (s : DegradingStorage σ) : s.Ticked s.maybeCheckAndDegrade.2 := by
  have hstate : s.maybeCheckAndDegrade.2 =
      if s.checkInterval ≤ s.writeCounter + 1 then
        checkSpace { s with writeCounter := s.writeCounter + 1 }
      else { s with writeCounter := s.writeCounter + 1 } := by
    unfold maybeCheckAndDegrade
    dsimp only
    split_ifs <;> rfl
  rw [hstate]
  by_cases hdue : s.checkInterval ≤ s.writeCounter + 1
  · rw [if_pos hdue]
    unfold checkSpace
    dsimp only
    cases hanswer : s.spaceChecker s.checks with
    | error err =>
      refine ⟨⟨rfl, rfl, rfl⟩, ?_, (if_pos hdue).symm ▸ rfl⟩
      rw [Gauge.tick_of_due hdue, hanswer]
      rfl
    | ok available =>
      refine ⟨⟨rfl, rfl, rfl⟩, ?_, (if_pos hdue).symm ▸ rfl⟩
      rw [Gauge.tick_of_due hdue, hanswer]
      rfl
  · rw [if_neg hdue]
    refine ⟨⟨rfl, rfl, rfl⟩, ?_, (if_neg hdue).symm ▸ rfl⟩
    rw [Gauge.tick_of_not_due hdue]
    rfl

/-- The answer is an error exactly when the storage is degraded after the check. -/
lemma maybeCheckAndDegrade_answer (s : DegradingStorage σ) :
    s.maybeCheckAndDegrade.1 =
      if s.maybeCheckAndDegrade.2.degraded then .error degradedError else .ok () := by
  unfold maybeCheckAndDegrade
  dsimp only
  split_ifs <;> rfl

/-- A write that is refused. -/
lemma guarded_refused {α : Type} (write : σ → Except RangoError α × σ)
    (h : s.maybeCheckAndDegrade.2.degraded = true) :
    s.guarded write = (.error degradedError, s.maybeCheckAndDegrade.2) := by
  have hanswer := maybeCheckAndDegrade_answer s
  rw [h, if_pos rfl] at hanswer
  unfold guarded
  rcases hcheck : s.maybeCheckAndDegrade with ⟨result, s'⟩
  rw [hcheck] at hanswer
  obtain rfl : result = .error degradedError := hanswer
  rfl

/-- A write that is passed on. -/
lemma guarded_passed {α : Type} (write : σ → Except RangoError α × σ)
    (h : s.maybeCheckAndDegrade.2.degraded = false) :
    s.guarded write = s.maybeCheckAndDegrade.2.pass (write s.inner) := by
  have hanswer := maybeCheckAndDegrade_answer s
  have hinner := maybeCheckAndDegrade_inner s
  rw [h, if_neg (by simp)] at hanswer
  unfold guarded
  rcases hcheck : s.maybeCheckAndDegrade with ⟨result, s'⟩
  rw [hcheck] at hanswer hinner
  obtain rfl : result = .ok () := hanswer
  show s'.pass (write s'.inner) = s'.pass (write s.inner)
  rw [show s'.inner = s.inner from hinner]

lemma refused_or_reached (hx : x.isWrite = true) : s.Refused x ∨ s.Reached x := by
  cases hflag : s.maybeCheckAndDegrade.2.degraded with
  | true => exact .inl ⟨hx, hflag⟩
  | false => exact .inr ⟨hx, hflag⟩

section
variable [StorageEngine σ]

/-- A read is passed on, and nothing else changes. -/
lemma perform_read (hx : x.isWrite = false) :
    x.perform s = ((x.perform s.inner).1, { s with inner := (x.perform s.inner).2 }) := by
  cases x with
  | get c id => rfl
  | scan c => rfl
  | put c id doc => cases hx
  | delete c id => cases hx

/-- A refused attempt leaves what the check leaves. -/
lemma perform_refused (h : s.Refused x) : x.perform s = (x.refusal, s.maybeCheckAndDegrade.2) := by
  obtain ⟨hx, hflag⟩ := h
  cases x with
  | get c id => cases hx
  | scan c => cases hx
  | put c id doc =>
    show (StorageAnswer.put (s.guarded _).1, (s.guarded _).2) = _
    rw [guarded_refused _ hflag]
    rfl
  | delete c id =>
    show (StorageAnswer.delete (s.guarded _).1, (s.guarded _).2) = _
    rw [guarded_refused _ hflag]
    rfl

/-- One that reaches the backend is the backend's own call, behind the check. -/
lemma perform_reached (h : s.Reached x) :
    x.perform s = ((x.perform s.inner).1,
      { s.maybeCheckAndDegrade.2 with inner := (x.perform s.inner).2 }) := by
  obtain ⟨hx, hflag⟩ := h
  cases x with
  | get c id => cases hx
  | scan c => cases hx
  | put c id doc =>
    show (StorageAnswer.put (s.guarded _).1, (s.guarded _).2) = _
    rw [guarded_passed _ hflag]
    rfl
  | delete c id =>
    show (StorageAnswer.delete (s.guarded _).1, (s.guarded _).2) = _
    rw [guarded_passed _ hflag]
    rfl

/-- Every attempt is one tick, and its flag decides about it. -/
lemma next_write (hx : x.isWrite = true) :
    s.Ticked (x.next s) ∧ (x.next s).degraded = s.maybeCheckAndDegrade.2.degraded := by
  have hticked := maybeCheckAndDegrade_ticked s
  rcases refused_or_reached (s := s) hx with h | h
  · rw [next, perform_refused h]
    exact ⟨hticked, rfl⟩
  · rw [next, perform_reached h]
    exact ⟨⟨⟨hticked.checkInterval, hticked.minFreeBytes, hticked.spaceChecker⟩, hticked.gauge,
      hticked.checks⟩, rfl⟩

lemma next_read (hx : x.isWrite = false) :
    s.Fixed (x.next s) ∧ (x.next s).gauge = s.gauge ∧ (x.next s).checks = s.checks := by
  rw [next, perform_read hx]
  exact ⟨⟨rfl, rfl, rfl⟩, rfl, rfl⟩

/-! ## Runs -/

/-- The counter is the number of attempts, modulo the interval. -/
lemma run_counter {k : ℕ} (hpos : 1 ≤ s.checkInterval) (h : s.writeCounter = k % s.checkInterval)
    (calls : List StorageCall) :
    (calls.foldl next s).checkInterval = s.checkInterval ∧
      (calls.foldl next s).writeCounter =
        (k + calls.countP isWrite) % s.checkInterval := by
  induction calls generalizing s k with
  | nil => exact ⟨rfl, h⟩
  | cons x rest ih =>
    rw [List.foldl_cons]
    cases hx : x.isWrite with
    | false =>
      obtain ⟨hfixed, hgauge, -⟩ := next_read (s := s) hx
      have hcounter : (x.next s).writeCounter = k % (x.next s).checkInterval := by
        rw [hfixed.checkInterval, ← h]
        exact congrArg Gauge.counter hgauge
      have hrest := ih (hfixed.checkInterval ▸ hpos) hcounter
      rwa [hfixed.checkInterval, ← List.countP_cons_of_neg (a := x) (by simp [hx])] at hrest
    | true =>
      obtain ⟨hticked, -⟩ := next_write (s := s) hx
      have hcounter : (x.next s).writeCounter = (k + 1) % (x.next s).checkInterval := by
        rw [hticked.checkInterval]
        exact (congrArg Gauge.counter hticked.gauge).trans (Gauge.tick_counter hpos h)
      have hrest := ih (hticked.checkInterval ▸ hpos) hcounter
      rwa [hticked.checkInterval, Nat.add_assoc, Nat.add_comm 1,
        ← List.countP_cons_of_pos (a := x) (by exact hx)] at hrest

/-- From now on the checker's answers all mean the same. -/
def Settled (b : Bool) (s : DegradingStorage σ) : Prop :=
  ∀ j ≥ s.checks, s.short (s.spaceChecker j) = b

omit [StorageEngine σ] in
lemma Settled.next {s' : DegradingStorage σ} (h : s.Settled b) (hfixed : s.Fixed s')
    (hchecks : s.checks ≤ s'.checks) : s'.Settled b := fun j hj => by
  rw [hfixed.short_eq]
  exact h j (hchecks.trans hj)

/-- While the answers all mean the same, fewer attempts than the interval go the other way. -/
lemma total_other (h : s.Settled b) (calls : List StorageCall) :
    Runs.total next (fun s x =>
        if x.isWrite = true ∧ s.maybeCheckAndDegrade.2.degraded = !b then 1 else 0) s calls ≤
      s.checkInterval - 1 := by
  have hstep : ∀ (s' : DegradingStorage σ) (x : StorageCall),
      s'.checkInterval = s.checkInterval ∧ s'.Settled b →
      (x.next s').checkInterval = s.checkInterval ∧ (x.next s').Settled b := by
    rintro s' x ⟨hinterval, hsettled⟩
    cases hx : x.isWrite with
    | false =>
      obtain ⟨hfixed, -, hchecks⟩ := next_read (s := s') hx
      exact ⟨hfixed.checkInterval.trans hinterval, hsettled.next hfixed hchecks.ge⟩
    | true =>
      obtain ⟨hticked, -⟩ := next_write (s := s') hx
      refine ⟨hticked.checkInterval.trans hinterval, hsettled.next hticked.toFixed ?_⟩
      rw [hticked.checks]
      exact Nat.le_add_right _ _
  have hpays : ∀ (s' : DegradingStorage σ) (x : StorageCall),
      s'.checkInterval = s.checkInterval ∧ s'.Settled b →
      (if x.isWrite = true ∧ s'.maybeCheckAndDegrade.2.degraded = !b then 1 else 0) +
        (x.next s').gauge.stale s.checkInterval b ≤ s'.gauge.stale s.checkInterval b := by
    rintro s' x ⟨hinterval, hsettled⟩
    cases hx : x.isWrite with
    | false =>
      obtain ⟨-, hgauge, -⟩ := next_read (s := s') hx
      simp [hgauge]
    | true =>
      obtain ⟨hticked, hflag⟩ := next_write (s := s') hx
      have htick := Gauge.stale_tick s.checkInterval b s'.gauge
      rw [← hsettled s'.checks le_rfl, ← hinterval, ← hticked.gauge, hsettled s'.checks le_rfl,
        hinterval] at htick
      have hcost : (if true = true ∧ s'.maybeCheckAndDegrade.2.degraded = !b then 1 else 0) =
          if (x.next s').gauge.flag = b then 0 else 1 := by
        rw [← hflag]
        show _ = if (x.next s').degraded = b then 0 else 1
        cases (x.next s').degraded <;> cases b <;> rfl
      rw [hcost]
      exact htick
  have htotal := Runs.total_le_potential (fun s' : DegradingStorage σ =>
    s'.gauge.stale s.checkInterval b) hstep hpays calls ⟨rfl, h⟩
  exact htotal.trans (Gauge.stale_le _ _ _)

end

/-- **Bounded and complete.** Whatever was called before on a new storage, and whatever the checker
answered: a refused attempt leaves the backend as it is, one that is not refused and every read are
the backend's own calls, and the checker is asked at every `N`-th attempt and at no other time. If
from then on the checker would always report too little space or fail, fewer than `N` further
attempts reach the backend; if it would always report enough, fewer than `N` are refused. -/
theorem degradation_bounded [RangeStorage σ] {s₀ : DegradingStorage σ}
    (hpos : 1 ≤ s₀.checkInterval) (hnew : s₀.writeCounter = 0) (before : List StorageCall) :
    let s := before.foldl next s₀
    (∀ x, s.Refused x → (x.perform s).1 = x.refusal ∧ (x.next s).inner = s.inner) ∧
    (∀ x, ¬ s.Refused x →
      (x.perform s).1 = (x.perform s.inner).1 ∧ (x.next s).inner = x.next s.inner) ∧
    (∀ c start stop, RangeStorage.range c start stop s =
      ((RangeStorage.range c start stop s.inner).1,
        { s with inner := (RangeStorage.range c start stop s.inner).2 })) ∧
    (∀ x : StorageCall, (x.next s).checks = s.checks +
      if x.isWrite = true ∧ s₀.checkInterval ∣ before.countP isWrite + 1 then 1 else 0) ∧
    ((∀ j ≥ s.checks, s.short (s.spaceChecker j) = true) → ∀ after : List StorageCall,
      Runs.total next (fun s x => if s.Reached x then 1 else 0) s after ≤ s₀.checkInterval - 1) ∧
    ((∀ j ≥ s.checks, s.short (s.spaceChecker j) = false) → ∀ after : List StorageCall,
      Runs.total next (fun s x => if s.Refused x then 1 else 0) s after ≤
        s₀.checkInterval - 1) := by
  have hzero : s₀.writeCounter = 0 % s₀.checkInterval := by rw [hnew, Nat.zero_mod]
  obtain ⟨hinterval, hcounter⟩ := run_counter hpos hzero before
  rw [Nat.zero_add] at hcounter
  dsimp only
  set s := before.foldl next s₀ with hs
  refine ⟨fun x hx => ?_, fun x hx => ?_, fun _ _ _ => rfl, fun x => ?_, fun h after => ?_,
    fun h after => ?_⟩
  · rw [next, perform_refused hx]
    exact ⟨rfl, maybeCheckAndDegrade_inner s⟩
  · rw [next, next]
    cases hwrite : x.isWrite with
    | false =>
      rw [perform_read hwrite]
      exact ⟨rfl, rfl⟩
    | true =>
      rw [perform_reached ((refused_or_reached hwrite).resolve_left hx)]
      exact ⟨rfl, rfl⟩
  · cases hwrite : x.isWrite with
    | false => simp [(next_read (s := s) hwrite).2.2]
    | true =>
      have hdue := Gauge.due_iff_dvd (g := s.gauge) hpos hcounter
      rw [(next_write hwrite).1.checks, hinterval]
      simp only [hdue, true_and]
  · rw [← hinterval]
    exact total_other h after
  · rw [← hinterval]
    exact total_other h after

/-! ## A worked example -/

/-- A storage that checks at every second attempt, with a checker that always reports a full
disk. -/
def sampleDegrading : DegradingStorage MemoryStorage where
  inner := .new
  minFreeBytes := 100
  degraded := false
  lastAvailable := 1000
  writeCounter := 0
  checkInterval := 2
  spaceChecker _ := .ok 50
  checks := 0

section
attribute [local instance] Formatting.sample

/-- For this storage, behind one write. -/
theorem degradation_bounded_full :
    let before : List StorageCall := [.put ⟨"c"⟩ ⟨.string "d"⟩ ⟨[]⟩]
    let s := before.foldl next sampleDegrading
    (∀ x, s.Refused x → (x.perform s).1 = x.refusal ∧ (x.next s).inner = s.inner) ∧
    (∀ x, ¬ s.Refused x →
      (x.perform s).1 = (x.perform s.inner).1 ∧ (x.next s).inner = x.next s.inner) ∧
    (∀ c start stop, RangeStorage.range c start stop s =
      ((RangeStorage.range c start stop s.inner).1,
        { s with inner := (RangeStorage.range c start stop s.inner).2 })) ∧
    (∀ x : StorageCall, (x.next s).checks = s.checks +
      if x.isWrite = true ∧ 2 ∣ before.countP isWrite + 1 then 1 else 0) ∧
    ((∀ j ≥ s.checks, s.short (s.spaceChecker j) = true) → ∀ after : List StorageCall,
      Runs.total next (fun s x => if s.Reached x then 1 else 0) s after ≤ 2 - 1) ∧
    ((∀ j ≥ s.checks, s.short (s.spaceChecker j) = false) → ∀ after : List StorageCall,
      Runs.total next (fun s x => if s.Refused x then 1 else 0) s after ≤ 2 - 1) :=
  have hpos : 1 ≤ sampleDegrading.checkInterval := by decide
  degradation_bounded hpos rfl _

end
end DegradingStorage
end Rango
