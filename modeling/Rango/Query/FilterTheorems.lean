import Rango.Query.Filter

/-!
# When a filter is an error

What a filter asks of a document (`Holds`), and when its evaluation reaches a condition that is an
error (`Exposed`): each condition is reached if those before it hold, each branch of an `$or` if
those before it do not. A filter that names an unknown operator (`Malformed`) is an error just for
the documents that expose it.
-/

namespace Rango.Query

open ShortCircuit

section
variable [BsonTraits]

/-! ## Operators of a field -/

/-- The operators that `match_field` knows. -/
def fieldOperators : List String := ["$eq", "$gt", "$gte", "$lt", "$lte", "$in"]

/-- The outcomes that a range operator accepts. -/
def rangeOperator (op : String) : Option (Ordering → Bool) :=
  if op = "$gt" then some (· = .gt)
  else if op = "$gte" then some (· ≠ .lt)
  else if op = "$lt" then some (· = .lt)
  else if op = "$lte" then some (· ≠ .gt)
  else none

/-- What an operator asks of a field. -/
def OperatorHolds (found : Option Bson) (op : String) (operand : Bson) : Prop :=
  (op = "$eq" ∧ compareEq found (some operand) = true) ∨
    (∃ accept ∈ rangeOperator op, ∃ a ∈ found, ∃ ord,
      compareValues a operand = .ok ord ∧ accept ord = true) ∨
    (op = "$in" ∧ ∃ items, operand = .array items ∧
      ∃ item ∈ items, compareEq found (some item) = true)

/-- An operator that cannot be evaluated: it is unknown, its range is of another type than the
field, or it lacks the array it needs. -/
def OperatorFails (found : Option Bson) (op : String) (operand : Bson) : Prop :=
  op ∉ fieldOperators ∨
    (∃ accept ∈ rangeOperator op, ∃ a ∈ found, ∃ err, compareValues a operand = .error err) ∨
    (op = "$in" ∧ ∀ items, operand ≠ .array items)

/-- All operators of an operator document hold. -/
def OperatorsHold (found : Option Bson) (ops : List (String × Bson)) : Prop :=
  ∀ op ∈ ops, OperatorHolds found op.1 op.2

/-- The operators up to one that fails hold. -/
def OperatorsExposed (found : Option Bson) : List (String × Bson) → Prop
  | [] => False
  | (op, operand) :: rest =>
    OperatorFails found op operand ∨ (OperatorHolds found op operand ∧ OperatorsExposed found rest)

/-! ## Conditions of a filter -/

/-- What a key that is not `$and` or `$or` asks of a document. -/
def FieldHolds (doc : Document) (field : String) : Bson → Prop
  | .document ops => OperatorsHold (doc.get field) ops
  | value => compareEq (doc.get field) (some value) = true

/-- A key that is not `$and` or `$or` exposes an error. -/
def FieldExposed (doc : Document) (field : String) : Bson → Prop
  | .document ops => isOperator field ∨ OperatorsExposed (doc.get field) ops
  | _ => isOperator field

mutual
/-- All conditions of a filter hold. -/
def Holds (doc : Document) : List (String × Bson) → Prop
  | [] => True
  | (key, value) :: rest => HoldsAt doc key value ∧ Holds doc rest

/-- The condition of a key holds. An empty `$or` holds. -/
def HoldsAt (doc : Document) (key : String) : Bson → Prop
  | .array items =>
    if key = "$and" then HoldsAll doc items
    else if key = "$or" then items = [] ∨ HoldsSome doc items
    else FieldHolds doc key (.array items)
  | value => FieldHolds doc key value

/-- All filters of an `$and` hold. -/
def HoldsAll (doc : Document) : List Bson → Prop
  | [] => True
  | .document filter :: rest => Holds doc filter ∧ HoldsAll doc rest
  | _ :: _ => False

/-- A filter of an `$or` holds. -/
def HoldsSome (doc : Document) : List Bson → Prop
  | [] => False
  | .document filter :: rest => Holds doc filter ∨ HoldsSome doc rest
  | _ :: rest => HoldsSome doc rest
end

mutual
/-- A condition exposes an error, and those before it hold. -/
def Exposed (doc : Document) : List (String × Bson) → Prop
  | [] => False
  | (key, value) :: rest => ExposedAt doc key value ∨ (HoldsAt doc key value ∧ Exposed doc rest)

/-- The condition of a key exposes an error. `$and` and `$or` need arrays. -/
def ExposedAt (doc : Document) (key : String) : Bson → Prop
  | .array items =>
    if key = "$and" then ExposedAll doc items
    else if key = "$or" then ExposedSome doc items
    else FieldExposed doc key (.array items)
  | value => FieldExposed doc key value

/-- A filter of an `$and` exposes an error, and those before it hold. -/
def ExposedAll (doc : Document) : List Bson → Prop
  | [] => False
  | .document filter :: rest => Exposed doc filter ∨ (Holds doc filter ∧ ExposedAll doc rest)
  | _ :: _ => True

/-- A filter of an `$or` exposes an error, and none before it holds. -/
def ExposedSome (doc : Document) : List Bson → Prop
  | [] => False
  | .document filter :: rest => Exposed doc filter ∨ (¬Holds doc filter ∧ ExposedSome doc rest)
  | _ :: _ => True
end

/-- A key with the sign of an operator that is not one. -/
def Unknown (known : List String) (key : String) : Prop := isOperator key ∧ key ∉ known

mutual
/-- The filter names an unknown operator, at any depth and position. -/
def Malformed : List (String × Bson) → Prop
  | [] => False
  | (key, value) :: rest => MalformedAt key value ∨ Malformed rest

/-- The key or its operators are unknown, or a filter below `$and` or `$or` is malformed. -/
def MalformedAt (key : String) : Bson → Prop
  | .array items => Unknown ["$and", "$or"] key ∨ (key ∈ ["$and", "$or"] ∧ MalformedIn items)
  | .document ops => Unknown ["$and", "$or"] key ∨ ∃ op ∈ ops, Unknown fieldOperators op.1
  | _ => Unknown ["$and", "$or"] key

/-- A filter among the items is malformed. -/
def MalformedIn : List Bson → Prop
  | [] => False
  | .document filter :: rest => Malformed filter ∨ MalformedIn rest
  | _ :: rest => MalformedIn rest
end

/-! ## One field -/

/-- The errors of a filter. -/
def OperatorError (err : RangoError) : Prop := ∃ op, err = .invalidQueryOperator op

lemma compareValues_error {a b : Bson} {err : RangoError} (h : compareValues a b = .error err) :
    OperatorError err := by
  have hpartial : ∀ {x y : F64}, comparePartial x y = .error err → OperatorError err := by
    intro x y h
    unfold comparePartial at h
    split at h
    · exact absurd h (by simp)
    · exact ⟨_, (Except.error.inj h).symm⟩
  unfold compareValues at h
  split at h
  all_goals first
    | exact hpartial h
    | exact ⟨_, (Except.error.inj h).symm⟩
    | exact absurd h (by simp)

/-- A missing field is in no range, without an error. -/
lemma compareRange_settles (accept : Ordering → Bool) (found : Option Bson) (operand : Bson) :
    Settles OperatorError (compareRange accept found (some operand))
      (∃ a ∈ found, ∃ ord, compareValues a operand = .ok ord ∧ accept ord = true)
      (∃ a ∈ found, ∃ err, compareValues a operand = .error err) := by
  cases found with
  | none => exact .of_bool (by simp) (by simp)
  | some a =>
    have hmap : Settles OperatorError ((compareValues a operand).map accept) _ _ :=
      .of_map accept fun _ => compareValues_error
    exact hmap.congr (by simp) (by simp)

lemma compareIn_settles (found : Option Bson) (operand : Bson) :
    Settles OperatorError (compareIn found operand)
      (∃ items, operand = .array items ∧ ∃ item ∈ items, compareEq found (some item) = true)
      (∀ items, operand ≠ .array items) := by
  unfold compareIn
  split
  · exact .of_bool (by simp) (by simp)
  · rename_i hother
    exact .fails _ ⟨_, rfl⟩ hother

lemma matchFieldOperator_range {op : String} {accept : Ordering → Bool}
    (h : accept ∈ rangeOperator op) (found : Option Bson) (operand : Bson) :
    matchFieldOperator found op operand = compareRange accept found (some operand) := by
  unfold rangeOperator at h
  split_ifs at h with hgt hgte hlt hlte
  -- the last case is that of no range operator
  all_goals first
    | subst op
      cases h
      rfl
    | exact absurd h (by simp)

lemma matchFieldOperator_settles (found : Option Bson) (op : String) (operand : Bson) :
    Settles OperatorError (matchFieldOperator found op operand) (OperatorHolds found op operand)
      (OperatorFails found op operand) := by
  by_cases heq : op = "$eq"
  · subst heq
    exact .of_bool (by simp [OperatorHolds, rangeOperator])
      (by simp [OperatorFails, rangeOperator, fieldOperators])
  by_cases hin : op = "$in"
  · subst hin
    exact (compareIn_settles found operand).congr (by simp [OperatorHolds, rangeOperator])
      (by simp [OperatorFails, rangeOperator, fieldOperators])
  cases hrange : rangeOperator op with
  | some accept =>
    have hknown : op ∈ fieldOperators := by
      by_contra hop
      simp only [fieldOperators, List.mem_cons, not_or] at hop
      simp [rangeOperator, hop] at hrange
    rw [matchFieldOperator_range hrange]
    exact (compareRange_settles accept found operand).congr
      (by simp [OperatorHolds, heq, hin, hrange]) (by simp [OperatorFails, hin, hrange, hknown])
  | none =>
    -- not a range operator, so it is none of the six
    unfold rangeOperator at hrange
    split_ifs at hrange with hgt hgte hlt hlte
    have hunknown : op ∉ fieldOperators := by simp [fieldOperators, *]
    have herror : matchFieldOperator found op operand = .error (.invalidQueryOperator op) := by
      simp [matchFieldOperator, *]
    rw [herror]
    exact .fails _ ⟨_, rfl⟩ (.inl hunknown)

lemma matchOperators_settles (found : Option Bson) (ops : List (String × Bson)) :
    Settles OperatorError (matchOperators found ops) (OperatorsHold found ops)
      (OperatorsExposed found ops) := by
  induction ops with
  | nil => exact .of_bool (by simp [OperatorsHold]) (by simp [OperatorsExposed])
  | cons kv rest ih =>
    obtain ⟨op, operand⟩ := kv
    exact ((matchFieldOperator_settles found op operand).andThen ih).congr
      (by simp [OperatorsHold]) (by simp [OperatorsExposed])

lemma matchKey_settles (doc : Document) (key : String) (value : Bson) :
    Settles OperatorError (matchKey doc key value) (FieldHolds doc key value)
      (FieldExposed doc key value) := by
  unfold matchKey
  split_ifs with hop
  · refine .fails _ ⟨_, rfl⟩ ?_
    cases value <;> simp [FieldExposed, hop]
  · unfold matchField
    split
    · exact (matchOperators_settles _ _).congr (by simp [FieldHolds]) (by simp [FieldExposed, hop])
    · rename_i hother
      refine .of_bool ?_ ?_
      · cases value <;> simp_all [FieldHolds]
      · cases value <;> simp_all [FieldExposed]

/-! ## A filter -/

/-- `$and` and `$or` are operators that no other value than an array makes known. -/
lemma matchOperator_settles_of_not_array (doc : Document) (key : String) {value : Bson}
    (h : ∀ items, value ≠ .array items) :
    Settles OperatorError (matchOperator doc key value) (HoldsAt doc key value)
      (ExposedAt doc key value) := by
  have hfails : isOperator key → FieldExposed doc key value := by
    intro hop
    cases value <;> simp [FieldExposed, hop]
  have hmatch : matchOperator doc key value =
      if key = "$and" then .error (.invalidQueryOperator "$and/$or expects array")
      else if key = "$or" then .error (.invalidQueryOperator "$or expects array")
      else matchKey doc key value := by
    cases value <;> first | rfl | exact absurd rfl (h _)
  have hholds : HoldsAt doc key value = FieldHolds doc key value := by
    cases value <;> first | rfl | exact absurd rfl (h _)
  have hexposed : ExposedAt doc key value = FieldExposed doc key value := by
    cases value <;> first | rfl | exact absurd rfl (h _)
  rw [hmatch, hholds, hexposed]
  split_ifs with hand hor
  · subst hand
    exact .fails _ ⟨_, rfl⟩ (hfails rfl)
  · subst hor
    exact .fails _ ⟨_, rfl⟩ (hfails rfl)
  · exact matchKey_settles doc key value

mutual
lemma matchEntries_settles (doc : Document) : ∀ entries : List (String × Bson),
    Settles OperatorError (matchEntries doc entries) (Holds doc entries) (Exposed doc entries)
  | [] => .of_bool (by simp [Holds]) (by simp [Exposed])
  | (key, value) :: rest => by
    rw [matchEntries, Holds, Exposed]
    exact (matchOperator_settles doc key value).andThen (matchEntries_settles doc rest)

lemma matchOperator_settles (doc : Document) (key : String) : ∀ value : Bson,
    Settles OperatorError (matchOperator doc key value) (HoldsAt doc key value)
      (ExposedAt doc key value)
  | .array items => by
    rw [matchOperator, HoldsAt, ExposedAt]
    split_ifs with hand hor hempty
    · exact matchArray_settles doc items
    · have hnil : items = [] := List.isEmpty_iff.mp hempty
      subst hnil
      exact .of_bool (by simp) (by simp [ExposedSome])
    · have hcons : items ≠ [] := fun hnil => hempty (List.isEmpty_iff.mpr hnil)
      exact (matchArrayOr_settles doc items).congr (by simp [hcons]) Iff.rfl
    · exact matchKey_settles doc key (.array items)
  | .double _ | .string _ | .document _ | .boolean _ | .null | .regularExpression _ _
  | .javaScriptCode _ | .javaScriptCodeWithScope _ _ | .int32 _ | .int64 _ | .timestamp _ _
  | .binary _ _ | .objectId _ | .dateTime _ | .symbol _ | .decimal128 _ | .undefined | .maxKey
  | .minKey | .dbPointer _ _ => matchOperator_settles_of_not_array doc key (by simp)

lemma matchArray_settles (doc : Document) : ∀ items : List Bson,
    Settles OperatorError (matchArray doc items) (HoldsAll doc items) (ExposedAll doc items)
  | [] => .of_bool (by simp [HoldsAll]) (by simp [ExposedAll])
  | .document filter :: rest => by
    rw [matchArray, HoldsAll, ExposedAll]
    exact (matchEntries_settles doc filter).andThen (matchArray_settles doc rest)
  | .double _ :: _ | .string _ :: _ | .array _ :: _ | .boolean _ :: _ | .null :: _
  | .regularExpression _ _ :: _ | .javaScriptCode _ :: _ | .javaScriptCodeWithScope _ _ :: _
  | .int32 _ :: _ | .int64 _ :: _ | .timestamp _ _ :: _ | .binary _ _ :: _ | .objectId _ :: _
  | .dateTime _ :: _ | .symbol _ :: _ | .decimal128 _ :: _ | .undefined :: _ | .maxKey :: _
  | .minKey :: _ | .dbPointer _ _ :: _ => .fails _ ⟨_, rfl⟩ trivial

lemma matchArrayOr_settles (doc : Document) : ∀ items : List Bson,
    Settles OperatorError (matchArrayOr doc items) (HoldsSome doc items) (ExposedSome doc items)
  | [] => .of_bool (by simp [HoldsSome]) (by simp [ExposedSome])
  | .document filter :: rest => by
    rw [matchArrayOr, HoldsSome, ExposedSome]
    exact (matchEntries_settles doc filter).orElse (matchArrayOr_settles doc rest)
  | .double _ :: _ | .string _ :: _ | .array _ :: _ | .boolean _ :: _ | .null :: _
  | .regularExpression _ _ :: _ | .javaScriptCode _ :: _ | .javaScriptCodeWithScope _ _ :: _
  | .int32 _ :: _ | .int64 _ :: _ | .timestamp _ _ :: _ | .binary _ _ :: _ | .objectId _ :: _
  | .dateTime _ :: _ | .symbol _ :: _ | .decimal128 _ :: _ | .undefined :: _ | .maxKey :: _
  | .minKey :: _ | .dbPointer _ _ :: _ => .fails _ ⟨_, rfl⟩ trivial
end

/-- **A filter that evaluates tells whether its conditions hold.** -/
theorem matchesFilter_ok_iff {doc filter : Document} {b : Bool}
    (h : matchesFilter doc filter = .ok b) : b = true ↔ Holds doc filter.entries :=
  (matchEntries_settles doc filter.entries).ok_iff h

/-- **A filter is an error for the documents that expose one of its conditions.** -/
theorem matchesFilter_error_iff (doc filter : Document) :
    (∃ op, matchesFilter doc filter = .error (.invalidQueryOperator op)) ↔
      Exposed doc filter.entries := by
  rw [← (matchEntries_settles doc filter.entries).error_iff]
  constructor
  · intro ⟨op, hop⟩
    exact ⟨_, ⟨op, rfl⟩, hop⟩
  · intro ⟨_, ⟨op, herr⟩, hop⟩
    exact ⟨op, by rw [matchesFilter, hop, herr]⟩

end

/-- A filter with an unknown operator behind a condition that an empty document does not meet. -/
def guardedFilter : Document := ⟨[("a", .int32 1), ("$bad", .int32 1)]⟩

/-- The same conditions, the unknown operator first. -/
def unguardedFilter : Document := ⟨[("$bad", .int32 1), ("a", .int32 1)]⟩

/-- An unknown operator goes unnoticed behind a condition that fails. -/
theorem unknown_operator_unnoticed :
    Malformed guardedFilter.entries ∧
      @matchesFilter .sample Document.empty guardedFilter = .ok false ∧
      @matchesFilter .sample Document.empty unguardedFilter =
        .error (.invalidQueryOperator "$bad") := by
  refine ⟨?_, rfl, rfl⟩
  right
  left
  exact ⟨by decide, by decide⟩

end Rango.Query
