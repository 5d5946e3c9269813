import Mathlib.Data.List.Basic
import Mathlib.Data.Nat.Notation
import Mathlib.Algebra.Order.Ring.Nat

/-!
# Length-prefixed streams

A frame is a payload behind its length, in four little-endian bytes. A reader takes frames
off the front of a stream until the bytes run out. `payloads_frames` says that it reads back
what was written, `next_torn` that it stops at a frame that was cut short, `payloads_take_frames`
what it finds in a stream that was cut anywhere, and `next_swallow` what happens to bytes written
behind a torn frame.
-/

namespace Framing

/-! ## Little-endian numbers -/

/-- The low `w` bytes of a number, lowest first. -/
def toLe : ℕ → ℕ → List UInt8
  | 0, _ => []
  | w + 1, n => UInt8.ofNat (n % 256) :: toLe w (n / 256)

/-- The number that little-endian bytes denote. -/
def ofLe : List UInt8 → ℕ
  | [] => 0
  | b :: bs => b.toNat + 256 * ofLe bs

@[simp] lemma length_toLe (w n : ℕ) : (toLe w n).length = w := by
  induction w generalizing n with
  | zero => rfl
  | succ w ih => simp [toLe, ih]

theorem ofLe_toLe (w n : ℕ) : ofLe (toLe w n) = n % 256 ^ w := by
  induction w generalizing n with
  | zero => simp [toLe, ofLe, Nat.mod_one]
  | succ w ih =>
    have hbyte : (UInt8.ofNat (n % 256)).toNat = n % 256 := by
      simp [UInt8.toNat_ofNat']
    rw [toLe, ofLe, ih, hbyte, Nat.pow_succ, Nat.mul_comm (256 ^ w), Nat.mod_mul]

/-! ## Frames -/

/-- A payload behind its length, as far as that fits four bytes. -/
def frame (p : List UInt8) : List UInt8 := toLe 4 p.length ++ p

@[simp] lemma length_frame (p : List UInt8) : (frame p).length = 4 + p.length := by
  simp [frame]

/-- The length that the first four bytes announce. -/
def announced (bytes : List UInt8) : ℕ := ofLe (bytes.take 4)

lemma announced_frame_append {p : List UInt8} (hp : p.length < 2 ^ 32) (rest : List UInt8) :
    announced (frame p ++ rest) = p.length := by
  rw [announced, frame, List.append_assoc, List.take_left' (length_toLe 4 _), ofLe_toLe]
  exact Nat.mod_eq_of_lt hp

/-- Take one frame off the front: its payload and the bytes behind it. -/
def next (bytes : List UInt8) : Option (List UInt8 × List UInt8) :=
  if 4 ≤ bytes.length ∧ announced bytes ≤ (bytes.drop 4).length then
    some ((bytes.drop 4).splitAt (announced bytes))
  else none

theorem next_frame_append {p : List UInt8} (hp : p.length < 2 ^ 32) (rest : List UInt8) :
    next (frame p ++ rest) = some (p, rest) := by
  have hdrop : (frame p ++ rest).drop 4 = p ++ rest := by
    rw [frame, List.append_assoc, List.drop_left' (length_toLe 4 _)]
  rw [next, announced_frame_append hp, hdrop, if_pos ⟨by simp; omega, by simp⟩, List.splitAt_eq,
    List.take_left' rfl, List.drop_left' rfl]

/-- A frame that is taken off shortens the stream. -/
lemma next_length {bytes p rest : List UInt8} (h : next bytes = some (p, rest)) :
    rest.length < bytes.length := by
  unfold next at h
  split_ifs at h with hb
  rw [List.splitAt_eq, Option.some.injEq, Prod.mk.injEq] at h
  have hlen := congrArg List.length h.2
  simp only [List.length_drop] at hlen
  omega

/-! ## Reading a stream -/

/-- Take off at most `fuel` frames: their payloads, and the bytes that are left. -/
def scan : ℕ → List UInt8 → List (List UInt8) × List UInt8
  | 0, bytes => ([], bytes)
  | fuel + 1, bytes =>
    match next bytes with
    | none => ([], bytes)
    | some (p, rest) => (p :: (scan fuel rest).1, (scan fuel rest).2)

/-- The payloads of the frames of a stream, up to where the bytes run out. -/
def payloads (bytes : List UInt8) : List (List UInt8) := (scan bytes.length bytes).1

/-- The bytes behind the last whole frame. -/
def leftover (bytes : List UInt8) : List UInt8 := (scan bytes.length bytes).2

@[simp] lemma scan_nil (fuel : ℕ) : scan fuel [] = ([], []) := by
  cases fuel <;> rfl

/-- Two amounts of fuel that cover the stream read the same. -/
lemma scan_fuel {fuel fuel' : ℕ} {bytes : List UInt8} (h : bytes.length ≤ fuel)
    (h' : bytes.length ≤ fuel') : scan fuel bytes = scan fuel' bytes := by
  induction fuel generalizing fuel' bytes with
  | zero =>
    obtain rfl := List.length_eq_zero_iff.mp (Nat.le_zero.mp h)
    simp
  | succ fuel ih =>
    cases fuel' with
    | zero =>
      obtain rfl := List.length_eq_zero_iff.mp (Nat.le_zero.mp h')
      simp
    | succ fuel' =>
      rw [scan, scan]
      cases hnext : next bytes with
      | none => rfl
      | some pr =>
        have hlt := next_length hnext
        dsimp only
        rw [ih (by omega) (show pr.2.length ≤ fuel' by omega)]

/-- A stream whose first frame is whole: that frame, then the rest. -/
lemma scan_of_next {bytes p rest : List UInt8} (h : next bytes = some (p, rest)) :
    payloads bytes = p :: payloads rest ∧ leftover bytes = leftover rest := by
  have hlt := next_length h
  obtain ⟨n, hn⟩ : ∃ n, bytes.length = n + 1 := ⟨bytes.length - 1, by omega⟩
  have hscan : scan n rest = scan rest.length rest := scan_fuel (by omega) le_rfl
  rw [payloads, leftover, hn, scan, h]
  dsimp only
  rw [hscan]
  exact ⟨rfl, rfl⟩

/-- A stream whose first frame is cut short is not read. -/
lemma scan_of_next_none {bytes : List UInt8} (h : next bytes = none) :
    payloads bytes = [] ∧ leftover bytes = bytes := by
  rw [payloads, leftover]
  cases bytes.length with
  | zero => exact ⟨rfl, rfl⟩
  | succ n => rw [scan, h]; exact ⟨rfl, rfl⟩

/-- Frames that were written are read back, and reading goes on behind them. -/
theorem payloads_frames {ps : List (List UInt8)} (h : ∀ p ∈ ps, p.length < 2 ^ 32)
    (tail : List UInt8) :
    payloads (ps.flatMap frame ++ tail) = ps ++ payloads tail ∧
      leftover (ps.flatMap frame ++ tail) = leftover tail := by
  induction ps with
  | nil => exact ⟨rfl, rfl⟩
  | cons p ps ih =>
    obtain ⟨ihp, ihl⟩ := ih fun q hq => h q (List.mem_cons_of_mem _ hq)
    rw [List.flatMap_cons, List.append_assoc]
    obtain ⟨hp, hl⟩ := scan_of_next
      (next_frame_append (h p List.mem_cons_self) (ps.flatMap frame ++ tail))
    exact ⟨by rw [hp, ihp]; rfl, hl.trans ihl⟩

/-! ## Torn frames -/

/-- A frame of which only the first bytes were written. -/
structure Torn (t p : List UInt8) : Prop where
  initial : t <+: frame p
  short : t.length < (frame p).length

/-- The reader stops at a torn frame. -/
theorem next_torn {t p : List UInt8} (hp : p.length < 2 ^ 32) (h : Torn t p) : next t = none := by
  unfold next
  refine if_neg fun hb => ?_
  obtain ⟨rest, hrest⟩ := h.initial
  have hann : announced t = p.length := by
    rw [← announced_frame_append hp [], List.append_nil, announced, announced, ← hrest,
      List.take_append_of_le_length hb.1]
  have hshort := h.short
  rw [length_frame] at hshort
  rw [hann, List.length_drop] at hb
  omega

/-- Bytes written behind a torn frame are taken for its missing part: as long as there are
not enough of them, nothing is read. -/
theorem next_swallow {t p later : List UInt8} (hp : p.length < 2 ^ 32) (h : Torn t p)
    (hheader : 4 ≤ t.length) (hlater : t.length + later.length < (frame p).length) :
    next (t ++ later) = none := by
  unfold next
  refine if_neg fun hb => ?_
  obtain ⟨rest, hrest⟩ := h.initial
  have hann : announced (t ++ later) = p.length := by
    rw [← announced_frame_append hp [], List.append_nil, announced, announced, ← hrest,
      List.take_append_of_le_length hheader, List.take_append_of_le_length hheader]
  rw [length_frame] at hlater
  rw [hann, List.length_drop, List.length_append] at hb
  omega

/-! ## Streams cut short -/

/-- How many of the frames lie within the first `k` bytes. -/
def whole (k : ℕ) : List (List UInt8) → ℕ
  | [] => 0
  | p :: ps => if (frame p).length ≤ k then whole (k - (frame p).length) ps + 1 else 0

lemma whole_le (k : ℕ) (ps : List (List UInt8)) : whole k ps ≤ ps.length := by
  induction ps generalizing k with
  | nil => exact le_rfl
  | cons p ps ih =>
    rw [whole]
    split_ifs
    · exact Nat.succ_le_succ (ih _)
    · exact Nat.zero_le _

/-- All of them do when nothing is cut off. -/
lemma whole_eq_length_iff {k : ℕ} {ps : List (List UInt8)} :
    whole k ps = ps.length ↔ (ps.flatMap frame).length ≤ k := by
  induction ps generalizing k with
  | nil => simp [whole]
  | cons p ps ih =>
    rw [whole, List.flatMap_cons, List.length_append, List.length_cons]
    split_ifs with hk
    · rw [Nat.add_right_cancel_iff, ih]
      omega
    · exact iff_of_false id (by omega)

/-- A stream that was cut anywhere is read up to its last whole frame. -/
theorem payloads_take_frames {ps : List (List UInt8)} (h : ∀ p ∈ ps, p.length < 2 ^ 32) (k : ℕ) :
    payloads ((ps.flatMap frame).take k) = ps.take (whole k ps) := by
  induction ps generalizing k with
  | nil => simp [payloads, whole]
  | cons p ps ih =>
    have hp : p.length < 2 ^ 32 := h p List.mem_cons_self
    rw [List.flatMap_cons, List.take_append, whole]
    split_ifs with hk
    · rw [List.take_of_length_le hk, (scan_of_next (next_frame_append hp _)).1,
        ih (fun q hq => h q (List.mem_cons_of_mem _ hq)), List.take_succ_cons]
    · have hrest : k - (frame p).length = 0 := by omega
      have htorn : Torn ((frame p).take k) p :=
        ⟨List.take_prefix k (frame p), by rw [List.length_take]; omega⟩
      rw [hrest, List.take_zero, List.append_nil, (scan_of_next_none (next_torn hp htorn)).1,
        List.take_zero]

end Framing
