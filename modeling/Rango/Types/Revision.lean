import Rango.Types.Id
import Mathlib.Data.Prod.Lex
import Mathlib.Data.String.Basic

/-!
# Revisions

A revision is the text `<timestamp_ms>-<counter>-<node hash>`. `fromStr` accepts a text
whose first two parts are numbers; the ordering parses both texts again and compares
timestamp, counter and node part. `Revision.key` is that ordering as a key in a linear
order.
-/

namespace Rango

/-- `Revision(pub String)`. -/
structure Revision where
  text : String
deriving DecidableEq

namespace Revision

/-! ## Parsing -/

/-- The loop of `FromStr` for an unsigned integer with largest value `max`. -/
def parseDigits (max : ℕ) : ℕ → List Char → Except String ℕ
  | acc, [] => .ok acc
  | acc, c :: cs =>
    if c.isDigit then
      if acc * 10 + (c.toNat - '0'.toNat) ≤ max then
        parseDigits max (acc * 10 + (c.toNat - '0'.toNat)) cs
      else .error "number too large to fit in target type"
    else .error "invalid digit found in string"

/-- `str::parse` at an unsigned integer type with largest value `max`. -/
def parseUint (max : ℕ) (s : List Char) : Except String ℕ :=
  match s with
  | [] => .error "cannot parse integer from empty string"
  | ['+'] => .error "invalid digit found in string"
  | '+' :: rest => parseDigits max 0 rest
  | _ => parseDigits max 0 s

def maxU64 : ℕ := 2 ^ 64 - 1
def maxU16 : ℕ := 2 ^ 16 - 1

/-- `str::splitn(n, '-')`. -/
def splitn : ℕ → List Char → List (List Char)
  | 0, _ => []
  | 1, s => [s]
  | n + 2, s =>
    match s.dropWhile (· ≠ '-') with
    | [] => [s]
    | _ :: rest => s.takeWhile (· ≠ '-') :: splitn (n + 1) rest

/-- The three-part split of a revision's text. -/
def parts (r : Revision) : List (List Char) := splitn 3 r.text.toList

/-- `Revision::parse`: a part that does not parse counts as zero. -/
def parse (r : Revision) : ℕ × ℕ :=
  ((r.parts[0]?.bind fun s => (parseUint maxU64 s).toOption).getD 0,
    (r.parts[1]?.bind fun s => (parseUint maxU16 s).toOption).getD 0)

def timestampMs (r : Revision) : ℕ := r.parse.1

def counter (r : Revision) : ℕ := r.parse.2

/-- The text after the second dash. The source slices past the end and panics when there is
no second dash; `fromStr` accepts no such text and `new` builds none. -/
def nodeIdShort (r : Revision) : String := String.ofList (r.parts.getD 2 [])

/-- `Revision::from_str`. -/
def fromStr (s : String) : Except String Revision :=
  match splitn 3 s.toList with
  | [ts, cnt, _] =>
    match parseUint maxU64 ts with
    | .error e => .error ("Invalid timestamp: " ++ e)
    | .ok _ =>
      match parseUint maxU16 cnt with
      | .error e => .error ("Invalid counter: " ++ e)
      | .ok _ => .ok ⟨s⟩
  | _ => .error ("Invalid revision format: " ++ s)

/-! ## Construction -/

/-- The first four of the sixteen hexadecimal digits of the node id's hash. -/
def shortNodeId [Formatting] (nodeId : String) : String :=
  let h := (Formatting.defaultHash nodeId).toNat
  String.ofList ([60, 56, 52, 48].map fun s => Nat.digitChar (h / 2 ^ s % 16))

/-- `Revision::new`. -/
def new [Formatting] (timestampMs counter : ℕ) (nodeId : String) : Revision :=
  ⟨Nat.repr timestampMs ++ "-" ++ Nat.repr counter ++ "-" ++ shortNodeId nodeId⟩

/-- `Revision::initial`. -/
def initial [Formatting] (nodeId : String) : Revision := new 0 0 nodeId

/-! ## Ordering -/

/-- `Ord for Revision`. -/
def cmp (a b : Revision) : Ordering :=
  (compare a.timestampMs b.timestampMs).then <|
    (compare a.counter b.counter).then (compare a.nodeIdShort b.nodeIdShort)

/-- What the ordering compares. -/
def key (r : Revision) : ℕ ×ₗ ℕ ×ₗ String :=
  toLex (r.timestampMs, toLex (r.counter, r.nodeIdShort))

theorem cmp_eq_compare_key (a b : Revision) : a.cmp b = compare a.key b.key := rfl

theorem cmp_eq_lt {a b : Revision} : a.cmp b = .lt ↔ a.key < b.key := by
  rw [cmp_eq_compare_key, compare_lt_iff_lt]

theorem cmp_eq_gt {a b : Revision} : a.cmp b = .gt ↔ b.key < a.key := by
  rw [cmp_eq_compare_key, compare_gt_iff_gt]

theorem cmp_eq_eq {a b : Revision} : a.cmp b = .eq ↔ a.key = b.key := by
  rw [cmp_eq_compare_key, compare_eq_iff_eq]

/-- Parsing a text keeps the text. -/
theorem eq_of_fromStr {s : String} {r : Revision} (h : fromStr s = .ok r) : r = ⟨s⟩ := by
  unfold fromStr at h
  split at h
  · split at h
    · cases h
    · split at h
      · cases h
      · exact (Except.ok.inj h).symm
  · cases h

/-! ## Round trip -/

lemma le_ofDigitChars (cs : List Char) (acc : ℕ) : acc ≤ Nat.ofDigitChars 10 cs acc := by
  induction cs generalizing acc with
  | nil => rw [Nat.ofDigitChars_nil]
  | cons c cs ih =>
    rw [Nat.ofDigitChars_cons]
    have hrest := ih (10 * acc + (c.toNat - '0'.toNat))
    omega

/-- Digits are parsed to the number they stand for, unless it is too large. -/
lemma parseDigits_eq {max : ℕ} {cs : List Char} {acc : ℕ} (hdigits : ∀ c ∈ cs, c.isDigit = true)
    (hmax : Nat.ofDigitChars 10 cs acc ≤ max) :
    parseDigits max acc cs = .ok (Nat.ofDigitChars 10 cs acc) := by
  induction cs generalizing acc with
  | nil => rw [Nat.ofDigitChars_nil]; rfl
  | cons c cs ih =>
    have hacc : acc * 10 + (c.toNat - '0'.toNat) = 10 * acc + (c.toNat - '0'.toNat) := by
      rw [Nat.mul_comm]
    rw [Nat.ofDigitChars_cons] at hmax ⊢
    have hle := (le_ofDigitChars cs (10 * acc + (c.toNat - '0'.toNat))).trans hmax
    rw [parseDigits, if_pos (hdigits c List.mem_cons_self), hacc, if_pos hle]
    exact ih (fun x hx => hdigits x (List.mem_cons_of_mem _ hx)) hmax

lemma isDigit_of_mem_repr {n : ℕ} {c : Char} (hc : c ∈ (Nat.repr n).toList) : c.isDigit = true := by
  rw [Nat.toList_repr] at hc
  exact Nat.isDigit_of_mem_toDigits (by decide) (by decide) hc

/-- A printed number is parsed to itself. -/
lemma parseUint_repr {max n : ℕ} (h : n ≤ max) :
    parseUint max (Nat.repr n).toList = .ok n := by
  have hdigits : ∀ c ∈ (Nat.repr n).toList, c.isDigit = true := fun c => isDigit_of_mem_repr
  have hvalue : Nat.ofDigitChars 10 (Nat.repr n).toList 0 = n := by
    rw [Nat.toList_repr, Nat.ofDigitChars_ten_toDigits]
  have hparse : parseDigits max 0 (Nat.repr n).toList = .ok n := by
    rw [parseDigits_eq hdigits (by rw [hvalue]; exact h), hvalue]
  have hne : (Nat.repr n).toList ≠ [] := by
    rw [Nat.toList_repr]
    exact Nat.toDigits_ne_nil
  -- a printed number has no sign
  have hsign : ∀ rest, (Nat.repr n).toList ≠ '+' :: rest := by
    intro rest hrest
    have hplus := hdigits '+' (by rw [hrest]; exact List.mem_cons_self)
    exact absurd hplus (by decide)
  rw [parseUint.eq_def]
  split
  · next hnil => exact absurd hnil hne
  · next hplus => exact absurd hplus (hsign [])
  · next rest _ hplus => exact absurd hplus (hsign rest)
  · exact hparse

/-- The part before the first dash. -/
lemma splitn_dash {n : ℕ} {cs rest : List Char} (h : ∀ c ∈ cs, c ≠ '-') :
    splitn (n + 2) (cs ++ '-' :: rest) = cs :: splitn (n + 1) rest := by
  have hdrop : (cs ++ '-' :: rest).dropWhile (· ≠ '-') = '-' :: rest := by
    rw [List.dropWhile_append_of_pos (by simpa using h), List.dropWhile_cons_of_neg (by simp)]
  have htake : (cs ++ '-' :: rest).takeWhile (· ≠ '-') = cs := by
    rw [List.takeWhile_append_of_pos (by simpa using h), List.takeWhile_cons_of_neg (by simp),
      List.append_nil]
  rw [splitn, hdrop, htake]

variable [Formatting] {timestampMs counter : ℕ} {nodeId : String}

lemma splitn_new : splitn 3 (new timestampMs counter nodeId).text.toList =
    [(Nat.repr timestampMs).toList, (Nat.repr counter).toList, (shortNodeId nodeId).toList] := by
  have hdash : ∀ n, ∀ c ∈ (Nat.repr n).toList, c ≠ '-' := by
    intro n c hc heq
    have hdigit := isDigit_of_mem_repr hc
    rw [heq] at hdigit
    exact absurd hdigit (by decide)
  have htext : (new timestampMs counter nodeId).text.toList = (Nat.repr timestampMs).toList ++
      '-' :: ((Nat.repr counter).toList ++ '-' :: (shortNodeId nodeId).toList) := by
    simp [new]
  rw [htext, splitn_dash (hdash timestampMs), splitn_dash (hdash counter)]
  rfl

section
variable (hms : timestampMs < 2 ^ 64) (hcounter : counter < 2 ^ 16)
include hms hcounter

/-- **Built revisions are well formed.** -/
theorem fromStr_new :
    fromStr (new timestampMs counter nodeId).text = .ok (new timestampMs counter nodeId) := by
  have hparse : parseUint maxU64 (Nat.repr timestampMs).toList = .ok timestampMs :=
    parseUint_repr (Nat.le_pred_of_lt hms)
  have hparse' : parseUint maxU16 (Nat.repr counter).toList = .ok counter :=
    parseUint_repr (Nat.le_pred_of_lt hcounter)
  rw [fromStr, splitn_new]
  simp only [hparse, hparse']

/-- They are compared by the time and the counter they were built from. -/
theorem key_new : (new timestampMs counter nodeId).key =
    toLex (timestampMs, toLex (counter, shortNodeId nodeId)) := by
  have hparse : parseUint maxU64 (Nat.repr timestampMs).toList = .ok timestampMs :=
    parseUint_repr (Nat.le_pred_of_lt hms)
  have hparse' : parseUint maxU16 (Nat.repr counter).toList = .ok counter :=
    parseUint_repr (Nat.le_pred_of_lt hcounter)
  have hparts : (new timestampMs counter nodeId).parts = _ := splitn_new
  have hparsed : (new timestampMs counter nodeId).parse = (timestampMs, counter) := by
    rw [parse, hparts]
    show ((parseUint maxU64 (Nat.repr timestampMs).toList).toOption.getD 0,
      (parseUint maxU16 (Nat.repr counter).toList).toOption.getD 0) = (timestampMs, counter)
    rw [hparse, hparse']
    rfl
  have hshort : (new timestampMs counter nodeId).nodeIdShort = shortNodeId nodeId := by
    rw [nodeIdShort, hparts]
    exact String.ofList_toList
  rw [key, Revision.timestampMs, Revision.counter, hparsed, hshort]

end

end Revision
end Rango
