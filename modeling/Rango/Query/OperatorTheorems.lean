import Rango.Query.FilterTheorems
import Rango.Query.OrderTheorems

/-!
# Comparison operators

A condition on one field, with an operator or with a value to be equal to. The two spellings of
equality with an operator agree on all values, and the one without an operator on all but documents
(`equality_spellings`). Equality and the range operators, which are computed by separate tables,
split the values that can be compared in three (`comparisons_consistent`).
-/

namespace Rango

/-- The derived `==`: values of two types are not equal, and those of one type are when their
contents are. -/
structure BsonTraits.Lawful [BsonTraits] : Prop where
  int32 : ∀ i j, eq (.int32 i) (.int32 j) = decide (i = j)
  int64 : ∀ i j, eq (.int64 i) (.int64 j) = decide (i = j)
  double : ∀ x y, eq (.double x) (.double y) = x.feq y
  string : ∀ s t, eq (.string s) (.string t) = decide (s = t)
  dateTime : ∀ t u, eq (.dateTime t) (.dateTime u) = decide (t = u)
  types : ∀ a b, a.ctorIdx ≠ b.ctorIdx → eq a b = false

/-- Traits for worked examples with doubles among the compared values. -/
@[reducible] def BsonTraits.ieee : BsonTraits where
  eq
    | .double x, .double y => x.feq y
    | a, b => Bson.same a b
  debug _ := "value"

lemma BsonTraits.ieee_lawful : @BsonTraits.Lawful .ieee :=
  @BsonTraits.Lawful.mk .ieee (fun _ _ => rfl) (fun _ _ => rfl) (fun _ _ => rfl) (fun _ _ => rfl)
    (fun _ _ => rfl) fun a b h => by cases a <;> cases b <;> first | rfl | exact absurd rfl h

namespace Query

open ShortCircuit (andThen_true)

/-! ## Doubles -/

section
variable {x y : F64} {ord : Ordering}

/-- A comparison of doubles that returns, and no NaN is among them. -/
lemma comparePartial_eq_ok_iff : comparePartial x y = .ok ord ↔
    x.isNaN = false ∧ y.isNaN = false ∧ compare x.rank y.rank = ord := by
  unfold comparePartial F64.partialCmp
  by_cases hnan : (x.isNaN || y.isNaN) = true
  · rw [if_pos hnan]
    constructor
    · intro h
      cases h
    · intro ⟨hx, hy, _⟩
      simp [hx, hy] at hnan
  · rw [if_neg hnan]
    rw [Bool.or_eq_true, not_or, Bool.not_eq_true, Bool.not_eq_true] at hnan
    simp [hnan.1, hnan.2]

lemma comparePartial_swap (h : comparePartial x y = .ok ord) :
    comparePartial y x = .ok ord.swap := by
  obtain ⟨hx, hy, hcmp⟩ := comparePartial_eq_ok_iff.mp h
  refine comparePartial_eq_ok_iff.mpr ⟨hy, hx, ?_⟩
  rw [← hcmp]
  exact Std.OrientedCmp.eq_swap

lemma feq_of_comparePartial (h : comparePartial x y = .ok ord) :
    x.feq y = decide (ord = .eq) := by
  obtain ⟨hx, hy, rfl⟩ := comparePartial_eq_ok_iff.mp h
  simp [F64.feq, hx, hy]

end

/-! ## Conditions on one field -/

section
variable [BsonTraits] {field : String} {v : Bson}

/-- The filter `{field: {op: operand}}`. -/
def fieldFilter (field op : String) (operand : Bson) : Document :=
  ⟨[(field, .document [(op, operand)])]⟩

/-- A filter with one key, which is a field. -/
lemma matchesFilter_field (hfield : isOperator field = false) (doc : Document) (v : Bson) :
    matchesFilter doc ⟨[(field, v)]⟩ = matchField doc field v := by
  have hand : field ≠ "$and" := fun h => by simp [h, isOperator] at hfield
  have hor : field ≠ "$or" := fun h => by simp [h, isOperator] at hfield
  have hkey : matchKey doc field v = matchField doc field v := by
    rw [matchKey, hfield]
    rfl
  rw [matchesFilter, matchEntries, matchEntries, andThen_true, ← hkey]
  cases v <;> simp only [matchOperator, if_neg hand, if_neg hor]

/-- A filter with one operator on a field. -/
lemma matchesFilter_operator (hfield : isOperator field = false) (doc : Document) (op : String)
    (operand : Bson) :
    matchesFilter doc (fieldFilter field op operand) =
      matchFieldOperator (doc.get field) op operand := by
  rw [fieldFilter, matchesFilter_field hfield, matchField, matchOperators, matchOperators,
    andThen_true]

/-! ## Equality -/

/-- A missing field equals no value. -/
lemma compareEq_eq_true_iff {found : Option Bson} :
    compareEq found (some v) = true ↔
      ∃ a, found = some a ∧ compareEq (some a) (some v) = true := by
  cases found with
  | none => simp [compareEq]
  | some a => simp

/-- **Spellings of equality.** `$eq` and an `$in` of one value hold of the documents that have an
equal field. So does a value without an operator that is no document; a document is read as
operators. -/
theorem equality_spellings (hfield : isOperator field = false) (doc : Document) (v : Bson) :
    ∃ equal : Bool,
      (equal = true ↔ ∃ a, doc.get field = some a ∧ compareEq (some a) (some v) = true) ∧
      matchesFilter doc (fieldFilter field "$eq" v) = .ok equal ∧
      matchesFilter doc (fieldFilter field "$in" (.array [v])) = .ok equal ∧
      (v.asDocument = none → matchesFilter doc ⟨[(field, v)]⟩ = .ok equal) ∧
      ∀ ops, v.asDocument = some ops →
        matchesFilter doc ⟨[(field, v)]⟩ = matchOperators (doc.get field) ops.entries := by
  refine ⟨compareEq (doc.get field) (some v), compareEq_eq_true_iff, ?_, ?_, ?_, ?_⟩
  · exact matchesFilter_operator hfield doc "$eq" v
  · rw [matchesFilter_operator hfield]
    show Except.ok ([v].any fun item => compareEq (doc.get field) (some item)) = _
    rw [List.any_cons, List.any_nil, Bool.or_false]
  · intro hv
    rw [matchesFilter_field hfield]
    cases v <;> first | rfl | cases hv
  · intro ops hv
    rw [matchesFilter_field hfield]
    cases v <;> cases hv
    rfl

end

section
attribute [local instance] BsonTraits.ieee

/-- A document with a sub-document. -/
def sampleNested : Document := ⟨[("a", .document [("b", .int32 1)])]⟩

/-- The spellings on a number of another width. -/
theorem equality_spellings_number : ∃ equal : Bool,
    matchesFilter ⟨[("a", .int32 1)]⟩ (fieldFilter "a" "$eq" (.int64 1)) = .ok equal ∧
      matchesFilter ⟨[("a", .int32 1)]⟩ (fieldFilter "a" "$in" (.array [.int64 1])) = .ok equal ∧
      matchesFilter ⟨[("a", .int32 1)]⟩ ⟨[("a", .int64 1)]⟩ = .ok equal := by
  have hfield : isOperator "a" = false := rfl
  obtain ⟨equal, -, heq, hin, hplain, -⟩ :=
    equality_spellings hfield ⟨[("a", .int32 1)]⟩ (.int64 1)
  exact ⟨equal, heq, hin, hplain rfl⟩

/-- A sub-document is equal to itself, but as a value without an operator it is not one that is
known. An empty one holds even where the field is missing. -/
theorem subdocument_read_as_operators :
    matchesFilter sampleNested (fieldFilter "a" "$eq" (.document [("b", .int32 1)])) = .ok true ∧
      matchesFilter sampleNested ⟨[("a", .document [("b", .int32 1)])]⟩ =
        .error (.invalidQueryOperator "b") ∧
      matchesFilter Document.empty (fieldFilter "a" "$eq" (.document [])) = .ok false ∧
      matchesFilter Document.empty ⟨[("a", .document [])]⟩ = .ok true := by
  decide

end

/-! ## Ranges -/

section
variable [BsonTraits] {doc doc' : Document} {field field' : String} {a b : Bson} {ord : Ordering}

/-- **Equality and order agree.** -/
lemma compareEq_of_compareValues (h : BsonTraits.Lawful) (hab : compareValues a b = .ok ord) :
    compareEq (some a) (some b) = decide (ord = .eq) := by
  have hmixed : a.ctorIdx ≠ b.ctorIdx → BsonTraits.eq a b = false := h.types a b
  unfold compareValues at hab
  unfold compareEq
  split at hab
  -- values of one type: only the derived equality can hold
  case h_1 => cases hab; simp [h.int32]
  case h_2 => cases hab; simp [h.int64]
  case h_3 => simp [h.double, feq_of_comparePartial hab]
  case h_4 => cases hab; simp [h.string]
  case h_5 => cases hab; simp [h.dateTime]
  case h_12 => cases hab
  -- numbers of two types: only the table can
  case h_6 | h_7 =>
    cases hab
    simp [hmixed (Nat.ne_of_beq_eq_false rfl)]
  all_goals simp [hmixed (Nat.ne_of_beq_eq_false rfl), feq_of_comparePartial hab]

/-- Exchanging the values turns the order round. -/
lemma compareValues_swap (hab : compareValues a b = .ok ord) :
    compareValues b a = .ok ord.swap := by
  unfold compareValues at hab
  split at hab
  case h_3 | h_8 | h_9 | h_10 | h_11 => exact comparePartial_swap hab
  case h_12 => cases hab
  all_goals
    cases hab
    exact congrArg Except.ok Std.OrientedOrd.eq_swap

/-- What the six operators tell of a field with a value. -/
lemma matchesFilter_of_compareValues (h : BsonTraits.Lawful) (hfield : isOperator field = false)
    (ha : doc.get field = some a) (hab : compareValues a b = .ok ord) :
    matchesFilter doc (fieldFilter field "$lt" b) = .ok (ord = .lt) ∧
      matchesFilter doc (fieldFilter field "$eq" b) = .ok (ord = .eq) ∧
      matchesFilter doc (fieldFilter field "$gt" b) = .ok (ord = .gt) ∧
      matchesFilter doc (fieldFilter field "$gte" b) = .ok (ord ≠ .lt) ∧
      matchesFilter doc (fieldFilter field "$lte" b) = .ok (ord ≠ .gt) := by
  have hrange : ∀ accept, compareRange accept (some a) (some b) = .ok (accept ord) := by
    intro accept
    rw [compareRange, hab]
    rfl
  simp only [matchesFilter_operator hfield, ha]
  refine ⟨hrange _, ?_, hrange _, hrange _, hrange _⟩
  exact congrArg Except.ok (compareEq_of_compareValues h hab)

/-- **Comparisons are consistent.** Of a field and an operand that can be compared, exactly one of
`$lt`, `$eq` and `$gt` holds; `$gte` and `$lte` hold if `$eq` does or the strict one; and exchanging
the values exchanges the two directions. -/
theorem comparisons_consistent (h : BsonTraits.Lawful) (hab : compareValues a b = .ok ord)
    (hfield : isOperator field = false) (ha : doc.get field = some a)
    (hfield' : isOperator field' = false) (hb : doc'.get field' = some b) :
    ∃ lt eq gt : Bool, [lt, eq, gt].count true = 1 ∧
      matchesFilter doc (fieldFilter field "$lt" b) = .ok lt ∧
      matchesFilter doc (fieldFilter field "$eq" b) = .ok eq ∧
      matchesFilter doc (fieldFilter field "$gt" b) = .ok gt ∧
      matchesFilter doc (fieldFilter field "$gte" b) = .ok (gt || eq) ∧
      matchesFilter doc (fieldFilter field "$lte" b) = .ok (lt || eq) ∧
      matchesFilter doc' (fieldFilter field' "$lt" a) = .ok gt ∧
      matchesFilter doc' (fieldFilter field' "$eq" a) = .ok eq ∧
      matchesFilter doc' (fieldFilter field' "$gt" a) = .ok lt ∧
      matchesFilter doc' (fieldFilter field' "$gte" a) = .ok (lt || eq) ∧
      matchesFilter doc' (fieldFilter field' "$lte" a) = .ok (gt || eq) := by
  obtain ⟨hlt, heq, hgt, hgte, hlte⟩ := matchesFilter_of_compareValues h hfield ha hab
  obtain ⟨hlt', heq', hgt', hgte', hlte'⟩ :=
    matchesFilter_of_compareValues h hfield' hb (compareValues_swap hab)
  refine ⟨ord = .lt, ord = .eq, ord = .gt, ?_, ?_⟩
  · cases ord <;> rfl
  · rw [hlt, heq, hgt, hgte, hlte, hlt', heq', hgt', hgte', hlte']
    cases ord <;> simp

end

/-- An integer field and a double. -/
theorem comparisons_consistent_mixed : ∃ lt eq gt : Bool, [lt, eq, gt].count true = 1 ∧
    @matchesFilter .ieee ⟨[("a", .int32 1)]⟩ (fieldFilter "a" "$gt" (.double F64.quarter)) =
      .ok gt ∧
    @matchesFilter .ieee ⟨[("b", .double F64.quarter)]⟩ (fieldFilter "b" "$lt" (.int32 1)) =
      .ok gt := by
  obtain ⟨lt, eq, gt, hone, -, -, hgt, -, -, hlt, -⟩ :=
    @comparisons_consistent .ieee ⟨[("a", .int32 1)]⟩ ⟨[("b", .double F64.quarter)]⟩ "a" "b"
      (.int32 1) (.double F64.quarter) .gt BsonTraits.ieee_lawful (by decide) rfl rfl rfl rfl
  exact ⟨lt, eq, gt, hone, hgt, hlt⟩

end Query
end Rango
