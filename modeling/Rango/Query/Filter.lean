import Rango.Types.Id
import Rango.Lib.ShortCircuit

/-!
# Filters

`rango_query::matches` and the functions below it. A filter is a document: its keys are fields or
`$and` and `$or`, and the value of a field is an operand to be equal to, or a document of
operators. Evaluation stops at the first condition that fails and at the first error.
-/

namespace Rango

/-- What the code takes from `bson`: the `==` of its values and their `{:?}` text. -/
class BsonTraits where
  eq : Bson → Bson → Bool
  debug : Bson → String

/-- Traits for worked examples: structural comparison, which agrees on values without doubles. -/
@[reducible] def BsonTraits.sample : BsonTraits := ⟨Bson.same, fun _ => "value"⟩

/-! ## Integers as doubles -/

namespace F64

/-- A positive number with its bits below the leading 53 rounded off, to the nearest and half-way to
even, as a significand of 53 bits that counts units of `2 ^ shift`. A carry gives 54 bits. -/
def roundOff (n shift : ℕ) : ℕ :=
  let quotient := n / 2 ^ shift
  let remainder := n % 2 ^ shift
  if 2 ^ shift < 2 * remainder ∨ (2 ^ shift = 2 * remainder ∧ quotient % 2 = 1) then quotient + 1
  else quotient

/-- The bits of `n as f64` below the sign. The implicit leading bit of the significand and its
carry count towards the exponent. -/
def natBits (n : ℕ) : ℕ :=
  if n = 0 then 0
  else
    let exponent := n.log2
    let significand :=
      if exponent ≤ 52 then n * 2 ^ (52 - exponent) else roundOff n (exponent - 52)
    (exponent + 1022) * 2 ^ 52 + significand

/-- `i as f64`. -/
def ofInt (i : ℤ) : F64 :=
  ⟨UInt64.ofNat (if i < 0 then 2 ^ 63 + natBits i.natAbs else natBits i.natAbs)⟩

/-- `a == b` on `f64`. -/
def feq (a b : F64) : Bool := !a.isNaN && !b.isNaN && a.rank = b.rank

/-- `a.partial_cmp(b)`. -/
def partialCmp (a b : F64) : Option Ordering :=
  if a.isNaN || b.isNaN then none else some (compare a.rank b.rank)

example : ofInt 1 = one := by decide

-- half-way numbers, to the even neighbour on either side
example : ofInt (2 ^ 53 + 1) = ofInt (2 ^ 53) ∧ ofInt (2 ^ 53 + 3) = ofInt (2 ^ 53 + 4) := by
  decide

end F64

namespace Query

open ShortCircuit

section
variable [BsonTraits]

/-! ## Comparisons -/

/-- The error of a comparison with a NaN. -/
def nanError : RangoError := .invalidQueryOperator "Cannot compare NaN values"

/-- `a.partial_cmp(b)` or the error. -/
def comparePartial (a b : F64) : Except RangoError Ordering :=
  match a.partialCmp b with
  | some ord => .ok ord
  | none => .error nanError

/-- `compare_values`. -/
def compareValues (a b : Bson) : Except RangoError Ordering :=
  match a, b with
  | .int32 a, .int32 b => .ok (compare a b)
  | .int64 a, .int64 b => .ok (compare a b)
  | .double a, .double b => comparePartial a b
  | .string a, .string b => .ok (compare a b)
  | .dateTime a, .dateTime b => .ok (compare a b)
  -- integers of different widths, and integers with doubles
  | .int32 a, .int64 b => .ok (compare a b)
  | .int64 a, .int32 b => .ok (compare a b)
  | .int32 a, .double b => comparePartial (F64.ofInt a) b
  | .double a, .int32 b => comparePartial a (F64.ofInt b)
  | .int64 a, .double b => comparePartial (F64.ofInt a) b
  | .double a, .int64 b => comparePartial a (F64.ofInt b)
  | a, b =>
    .error (.invalidQueryOperator
      ("Cannot compare " ++ BsonTraits.debug a ++ " with " ++ BsonTraits.debug b))

/-- `compare_eq`. -/
def compareEq (a b : Option Bson) : Bool :=
  match a, b with
  | some a, some b =>
    BsonTraits.eq a b ||
      match a, b with
      | .int32 a, .int64 b => a = b
      | .int64 a, .int32 b => a = b
      | .int32 a, .double b => (F64.ofInt a).feq b
      | .double a, .int32 b => a.feq (F64.ofInt b)
      | .int64 a, .double b => (F64.ofInt a).feq b
      | .double a, .int64 b => a.feq (F64.ofInt b)
      | _, _ => false
  | none, none => true
  | _, _ => false

/-- A range comparison, which accepts some outcomes. A missing value is in no range. -/
def compareRange (accept : Ordering → Bool) (a b : Option Bson) : Except RangoError Bool :=
  match a, b with
  | some a, some b => (compareValues a b).map accept
  | _, _ => .ok false

/-- `compare_gt`. -/
def compareGt : Option Bson → Option Bson → Except RangoError Bool := compareRange (· = .gt)

/-- `compare_gte`. -/
def compareGte : Option Bson → Option Bson → Except RangoError Bool := compareRange (· ≠ .lt)

/-- `compare_lt`. -/
def compareLt : Option Bson → Option Bson → Except RangoError Bool := compareRange (· = .lt)

/-- `compare_lte`. -/
def compareLte : Option Bson → Option Bson → Except RangoError Bool := compareRange (· ≠ .gt)

/-- `compare_in`. -/
def compareIn (found : Option Bson) (operand : Bson) : Except RangoError Bool :=
  match operand with
  | .array items => .ok (items.any fun item => compareEq found (some item))
  | _ => .error (.invalidQueryOperator "$in expects array")

/-! ## Fields -/

/-- One operator of a field's operator document. -/
def matchFieldOperator (found : Option Bson) (op : String) (operand : Bson) :
    Except RangoError Bool :=
  if op = "$eq" then .ok (compareEq found (some operand))
  else if op = "$gt" then compareGt found (some operand)
  else if op = "$gte" then compareGte found (some operand)
  else if op = "$lt" then compareLt found (some operand)
  else if op = "$lte" then compareLte found (some operand)
  else if op = "$in" then compareIn found operand
  else .error (.invalidQueryOperator op)

/-- The loop of `match_field` over an operator document. -/
def matchOperators (found : Option Bson) : List (String × Bson) → Except RangoError Bool
  | [] => .ok true
  | (op, operand) :: rest =>
    andThen (matchFieldOperator found op operand) (matchOperators found rest)

/-- `match_field`. -/
def matchField (doc : Document) (field : String) (value : Bson) : Except RangoError Bool :=
  match value with
  | .document ops => matchOperators (doc.get field) ops
  | value => .ok (compareEq (doc.get field) (some value))

/-- `key.starts_with('$')`. -/
def isOperator (key : String) : Bool := key.toList.head? = some '$'

/-- `match_operator` behind `$and` and `$or`: a field, or an operator that is not known. -/
def matchKey (doc : Document) (key : String) (value : Bson) : Except RangoError Bool :=
  if isOperator key then .error (.invalidQueryOperator key) else matchField doc key value

/-! ## Documents -/

mutual
/-- The loop of `matches` over the keys of a filter. -/
def matchEntries (doc : Document) : List (String × Bson) → Except RangoError Bool
  | [] => .ok true
  | (key, value) :: rest => andThen (matchOperator doc key value) (matchEntries doc rest)

/-- `match_operator`. -/
def matchOperator (doc : Document) (key : String) : Bson → Except RangoError Bool
  | .array items =>
    if key = "$and" then matchArray doc items
    else if key = "$or" then
      -- an empty `$or` holds
      if items.isEmpty then .ok true else matchArrayOr doc items
    else matchKey doc key (.array items)
  | value =>
    if key = "$and" then .error (.invalidQueryOperator "$and/$or expects array")
    else if key = "$or" then .error (.invalidQueryOperator "$or expects array")
    else matchKey doc key value

/-- The loop of `match_array` over the items of `$and`. -/
def matchArray (doc : Document) : List Bson → Except RangoError Bool
  | [] => .ok true
  | .document filter :: rest => andThen (matchEntries doc filter) (matchArray doc rest)
  | _ :: _ => .error (.invalidQueryOperator "$and/$or expects array of documents")

/-- The loop of `match_array_or` over the items of `$or`. -/
def matchArrayOr (doc : Document) : List Bson → Except RangoError Bool
  | [] => .ok false
  | .document filter :: rest => orElse (matchEntries doc filter) (matchArrayOr doc rest)
  | _ :: _ => .error (.invalidQueryOperator "$or expects array of documents")
end

/-- `rango_query::matches`. -/
def matchesFilter (doc filter : Document) : Except RangoError Bool :=
  matchEntries doc filter.entries

end
end Query
end Rango
