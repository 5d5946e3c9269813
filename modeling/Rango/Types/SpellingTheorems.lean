import Mathlib.Data.List.TakeWhile
import Rango.Lib.Decimal
import Rango.Types.Revision

/-!
# The text of a revision

A text that was built from a time, a counter and a node id says what they were, and the texts are
ordered as their parts are (`new_spec`). A text from elsewhere may spell its numbers in other ways,
and the ordering, which compares numbers, does not tell these texts apart (`cmp_eq_iff_bareParts`).
-/

namespace Rango.Revision

/-! ## The second dash -/

/-- `str::find('-')`, with positions that count characters. -/
def findDash (s : List Char) : Option ℕ := s.findIdx? (· = '-')

/-- `Revision::node_id_short`, by the positions of the two dashes. A slice that starts past the end
panics. -/
def nodeIdSlice (r : Revision) : Option String :=
  let text := r.text.toList
  let first := (findDash text).getD 0
  if first + 1 ≤ text.length then
    let second := ((findDash (text.drop (first + 1))).map fun i => first + 1 + i).getD text.length
    if second + 1 ≤ text.length then some (String.ofList (text.drop (second + 1))) else none
  else none

/-- A text without a dash, or one that is cut at its first one. -/
lemma dash_cases (s : List Char) : (∀ c ∈ s, c ≠ '-') ∨
    ∃ front rest, s = front ++ '-' :: rest ∧ ∀ c ∈ front, c ≠ '-' := by
  induction s with
  | nil => exact .inl (by simp)
  | cons c s ih =>
    by_cases hc : c = '-'
    · exact .inr ⟨[], s, by rw [hc]; rfl, by simp⟩
    · rcases ih with hnone | ⟨front, rest, rfl, hfront⟩
      · exact .inl (List.forall_mem_cons.mpr ⟨hc, hnone⟩)
      · exact .inr ⟨c :: front, rest, rfl, List.forall_mem_cons.mpr ⟨hc, hfront⟩⟩

lemma findDash_none {s : List Char} (h : ∀ c ∈ s, c ≠ '-') : findDash s = none := by
  simpa [findDash, List.findIdx?_eq_none_iff] using h

lemma findDash_some {front : List Char} (h : ∀ c ∈ front, c ≠ '-') (rest : List Char) :
    findDash (front ++ '-' :: rest) = some front.length := by
  have hnone : front.findIdx? (· = '-') = none := findDash_none h
  rw [findDash, List.findIdx?_append, hnone, List.findIdx?_cons]
  simp

lemma splitn_none {n : ℕ} {s : List Char} (h : ∀ c ∈ s, c ≠ '-') : splitn (n + 1) s = [s] := by
  cases n with
  | zero => rfl
  | succ n =>
    have hdrop : s.dropWhile (· ≠ '-') = [] := by
      rw [List.dropWhile_eq_nil_iff]
      simpa using h
    rw [splitn, hdrop]

/-- **Both ways of splitting.** The slice behind the second dash is the third part of the split. -/
theorem nodeIdSlice_eq (r : Revision) : r.nodeIdSlice = r.parts[2]?.map String.ofList := by
  rw [nodeIdSlice, parts]
  generalize r.text.toList = text
  rcases dash_cases text with hnone | ⟨front, rest, rfl, hfront⟩
  · -- no dash: the search for the second one starts behind the first character
    have hdrop : findDash (text.drop (0 + 1)) = none :=
      findDash_none fun c hc => hnone c ((List.drop_sublist 1 text).subset hc)
    rw [splitn_none hnone, findDash_none hnone]
    dsimp only [Option.getD_none]
    rw [hdrop]
    simp
  · have hdrop : (front ++ '-' :: rest).drop (front.length + 1) = rest := by simp
    rw [splitn_dash hfront, findDash_some hfront]
    dsimp only [Option.getD_some]
    rw [hdrop]
    rcases dash_cases rest with hnone | ⟨mid, last, rfl, hmid⟩
    · simp [splitn_none hnone, findDash_none hnone]
    · have hlast : (front ++ '-' :: (mid ++ '-' :: last)).drop (front.length + 1 + mid.length + 1) =
          last := by
        rw [Nat.add_assoc, ← List.drop_drop, hdrop]
        simp
      rw [splitn_dash hmid, findDash_some hmid]
      dsimp only [Option.map_some, Option.getD_some]
      rw [hlast, if_pos (by simp), if_pos (by simp; omega)]
      rfl

/-! ## Built texts -/

section
variable [Formatting]

/-- The node's hash, four hexadecimal digits. -/
lemma shortNodeId_digits (nodeId : String) : (shortNodeId nodeId).toList.length = 4 ∧
    ∀ c ∈ (shortNodeId nodeId).toList, c ∈ "0123456789abcdef".toList := by
  have hdigit : ∀ d < 16, Nat.digitChar d ∈ "0123456789abcdef".toList := by decide
  constructor
  · simp [shortNodeId]
  · intro c hc
    simp only [shortNodeId, String.toList_ofList, List.mem_map] at hc
    obtain ⟨shift, -, rfl⟩ := hc
    exact hdigit _ (Nat.mod_lt _ (by decide))

/-- **Built texts.** They parse, say what they were built from, and are ordered as that. -/
theorem new_spec (timestampMs timestampMs' : UInt64) (counter counter' : UInt16)
    (nodeId nodeId' : String) :
    let r := new timestampMs.toNat counter.toNat nodeId
    let r' := new timestampMs'.toNat counter'.toNat nodeId'
    fromStr r.text = .ok r ∧ r.timestampMs = timestampMs.toNat ∧ r.counter = counter.toNat ∧
      r.nodeIdSlice = some (shortNodeId nodeId) ∧
      r.cmp r' = (compare timestampMs.toNat timestampMs'.toNat).then
        ((compare counter.toNat counter'.toNat).then
          (compare (shortNodeId nodeId) (shortNodeId nodeId'))) := by
  intro r r'
  have hkey : r.key = toLex (timestampMs.toNat, toLex (counter.toNat, shortNodeId nodeId)) :=
    key_new timestampMs.toNat_lt counter.toNat_lt
  have hkey' : r'.key = toLex (timestampMs'.toNat, toLex (counter'.toNat, shortNodeId nodeId')) :=
    key_new timestampMs'.toNat_lt counter'.toNat_lt
  have hslice : r.nodeIdSlice = some (shortNodeId nodeId) := by
    rw [nodeIdSlice_eq, parts, splitn_new]
    exact congrArg some String.ofList_toList
  have hcmp : r.cmp r' = compare
      (toLex (timestampMs.toNat, toLex (counter.toNat, shortNodeId nodeId)))
      (toLex (timestampMs'.toNat, toLex (counter'.toNat, shortNodeId nodeId'))) := by
    rw [cmp_eq_compare_key, hkey, hkey']
  rw [key, toLex_inj, Prod.mk.injEq, toLex_inj, Prod.mk.injEq] at hkey
  exact ⟨fromStr_new timestampMs.toNat_lt counter.toNat_lt, hkey.1, hkey.2.1, hslice, hcmp⟩

end

/-! ## Other spellings -/

/-- A number without its sign. -/
def unsigned : List Char → List Char
  | '+' :: rest => rest
  | s => s

/-- The digits that count. -/
def bare (s : List Char) : List Char := Decimal.significant (unsigned s)

/-- Digits that were parsed. -/
lemma parseDigits_ok {max n acc : ℕ} {cs : List Char} (h : parseDigits max acc cs = .ok n) :
    (∀ c ∈ cs, c.isDigit = true) ∧ Nat.ofDigitChars 10 cs acc = n := by
  induction cs generalizing acc with
  | nil =>
    cases h
    exact ⟨by simp, Nat.ofDigitChars_nil⟩
  | cons c cs ih =>
    rw [parseDigits] at h
    split_ifs at h with hdigit hmax
    obtain ⟨hdigits, hvalue⟩ := ih h
    rw [Nat.mul_comm] at hvalue
    exact ⟨List.forall_mem_cons.mpr ⟨hdigit, hdigits⟩, by rw [Nat.ofDigitChars_cons]; exact hvalue⟩

/-- A number that was parsed. -/
lemma parseUint_ok {max n : ℕ} {s : List Char} (h : parseUint max s = .ok n) :
    (∀ c ∈ unsigned s, c.isDigit = true) ∧ Nat.ofDigitChars 10 (unsigned s) 0 = n := by
  unfold parseUint at h
  split at h
  · cases h
  · cases h
  · exact parseDigits_ok h
  · next _ _ hsign =>
    have hsame : unsigned s = s := by
      unfold unsigned
      split
      · exact (hsign _ rfl).elim
      · rfl
    rw [hsame]
    exact parseDigits_ok h

/-- Two spellings of a number have the same digits that count. -/
lemma bare_eq_iff {max n n' : ℕ} {s s' : List Char} (h : parseUint max s = .ok n)
    (h' : parseUint max s' = .ok n') : bare s = bare s' ↔ n = n' := by
  obtain ⟨hdigits, rfl⟩ := parseUint_ok h
  obtain ⟨hdigits', rfl⟩ := parseUint_ok h'
  exact (Decimal.ofDigitChars_eq_iff hdigits hdigits').symm

/-- A text that is accepted has three parts, the first two of which are numbers. -/
lemma fromStr_ok {s : String} {r : Revision} (h : fromStr s = .ok r) :
    ∃ time count node, r.parts = [time, count, node] ∧
      parseUint maxU64 time = .ok r.timestampMs ∧ parseUint maxU16 count = .ok r.counter := by
  obtain rfl := eq_of_fromStr h
  unfold fromStr at h
  split at h
  · next time count node hparts =>
    have hparts' : parts ⟨s⟩ = [time, count, node] := hparts
    split at h
    · cases h
    · next n htime =>
      split at h
      · cases h
      · next k hcount =>
        have htimestamp : timestampMs ⟨s⟩ = n := by
          simp [timestampMs, parse, hparts', htime, Except.toOption]
        have hcounter : counter ⟨s⟩ = k := by
          simp [counter, parse, hparts', hcount, Except.toOption]
        exact ⟨time, count, node, hparts', by rw [htimestamp, htime], by rw [hcounter, hcount]⟩
  · cases h

/-- The three parts of a text, of the numbers the digits that count. -/
def bareParts (r : Revision) : List (List Char) :=
  [bare (r.parts.getD 0 []), bare (r.parts.getD 1 []), r.parts.getD 2 []]

/-- **What the ordering compares.** Two accepted texts are `Equal` just when they are the same up to
signs and leading zeros. -/
theorem cmp_eq_iff_bareParts {s t : String} {a b : Revision} (ha : fromStr s = .ok a)
    (hb : fromStr t = .ok b) : a.cmp b = .eq ↔ a.bareParts = b.bareParts := by
  obtain ⟨time, count, node, hparts, htime, hcount⟩ := fromStr_ok ha
  obtain ⟨time', count', node', hparts', htime', hcount'⟩ := fromStr_ok hb
  have hnode : a.nodeIdShort = b.nodeIdShort ↔ node = node' := by
    rw [nodeIdShort, nodeIdShort, hparts, hparts']
    exact String.ofList_inj
  rw [cmp_eq_eq, key, key, bareParts, bareParts, hparts, hparts']
  simp [hnode, bare_eq_iff htime htime', bare_eq_iff hcount hcount']

/-- Two different spellings of the same numbers, with the same text behind the second dash. -/
def Respells (a b : Revision) : Prop := a ≠ b ∧ a.bareParts = b.bareParts

/-- **Equal order.** Of two accepted texts, `Equal` ones are equal unless one respells the other. -/
theorem eq_of_cmp_eq_iff {s t : String} {a b : Revision} (ha : fromStr s = .ok a)
    (hb : fromStr t = .ok b) : (a.cmp b = .eq → a = b) ↔ ¬Respells a b := by
  rw [cmp_eq_iff_bareParts ha hb, Respells, not_and', not_not]

/-- Two nodes at one time, one of them with a leading zero. -/
theorem eq_of_cmp_eq_nodes : ¬Respells ⟨"01-0-a"⟩ ⟨"1-0-b"⟩ ∧
    (Revision.cmp ⟨"01-0-a"⟩ ⟨"1-0-b"⟩ = .eq → (⟨"01-0-a"⟩ : Revision) = ⟨"1-0-b"⟩) := by
  have hapart : ¬Respells ⟨"01-0-a"⟩ ⟨"1-0-b"⟩ := fun h => absurd h.2 (by decide)
  exact ⟨hapart, (eq_of_cmp_eq_iff (s := "01-0-a") (t := "1-0-b") (by decide) (by decide)).mpr
    hapart⟩

end Rango.Revision
