import Rango.Lib.IndexMap
import Mathlib.Algebra.Order.Ring.Nat
import Mathlib.Data.Int.Order.Basic

/-!
# BSON values and documents

The values the engine stores: `bson::Bson` and `bson::Document`. A document is an
insertion-ordered map, so its operations are those of `IndexMap`. Doubles are kept as
their bit patterns, with the IEEE comparisons computed from them.
-/

namespace Rango

/-! ## Doubles -/

/-- An `f64`, as its 64 bits. -/
structure F64 where
  bits : UInt64
deriving DecidableEq

namespace F64

/-- The bits below the sign. -/
def magnitude (x : F64) : ℕ := x.bits.toNat % 2 ^ 63

def isNaN (x : F64) : Bool := 0x7FF0000000000000 < x.magnitude

def isFinite (x : F64) : Bool := x.magnitude < 0x7FF0000000000000

/-- Signed magnitude: orders all doubles that are not NaN, with both zeros at `0`. -/
def rank (x : F64) : ℤ :=
  if x.bits.toNat < 2 ^ 63 then (x.magnitude : ℤ) else -(x.magnitude : ℤ)

/-- `a < b` on `f64`. -/
def lt (a b : F64) : Bool := !a.isNaN && !b.isNaN && a.rank < b.rank

/-- `a <= b` on `f64`. -/
def le (a b : F64) : Bool := !a.isNaN && !b.isNaN && a.rank ≤ b.rank

def zero : F64 := ⟨0⟩
def quarter : F64 := ⟨0x3FD0000000000000⟩
def one : F64 := ⟨0x3FF0000000000000⟩

/-- `(0.0..=1.0).contains(&x)`. -/
def inUnit (x : F64) : Bool := zero.le x && x.le one

lemma inUnit_bounds {x : F64} (h : x.inUnit = true) :
    x.isNaN = false ∧ 0 ≤ x.rank ∧ x.rank ≤ one.rank := by
  simp only [inUnit, le, Bool.and_eq_true, Bool.not_eq_true', decide_eq_true_eq] at h
  have hzero : zero.rank = 0 := by decide
  exact ⟨h.1.1.2, by omega, h.2.2⟩

/-- A number in the unit interval is finite. -/
lemma isFinite_of_inUnit {x : F64} (h : x.inUnit = true) : x.isFinite = true := by
  obtain ⟨-, hlow, hhigh⟩ := inUnit_bounds h
  have hone : one.rank = 0x3FF0000000000000 := by decide
  have hrank : x.rank.natAbs = x.magnitude := by
    unfold rank
    split_ifs
    · exact Int.natAbs_natCast _
    · rw [Int.natAbs_neg, Int.natAbs_natCast]
  show decide (x.magnitude < 0x7FF0000000000000) = true
  rw [decide_eq_true_eq]
  omega

/-- A number in the unit interval that is not below a quarter reaches it. -/
lemma quarter_le_iff {x : F64} (h : x.inUnit = true) :
    quarter.le x = true ↔ x.lt quarter = false := by
  have hnan : x.isNaN = false := (inUnit_bounds h).1
  have hquarter : quarter.isNaN = false := by decide
  simp only [le, lt, hnan, hquarter, Bool.not_false, Bool.true_and, decide_eq_true_eq,
    decide_eq_false_iff_not]
  omega

end F64

/-! ## Values -/

/-- Milliseconds since the Unix epoch: `bson::DateTime`. -/
abbrev DateTime := ℤ

/-- `bson::Bson`. Integers are the mathematical values of the `i32` and `i64` they hold. -/
inductive Bson where
  | double (x : F64)
  | string (s : String)
  | array (xs : List Bson)
  | document (entries : List (String × Bson))
  | boolean (b : Bool)
  | null
  | regularExpression (pattern options : String)
  | javaScriptCode (code : String)
  | javaScriptCodeWithScope (code : String) (scope : List (String × Bson))
  | int32 (i : ℤ)
  | int64 (i : ℤ)
  | timestamp (time increment : ℕ)
  | binary (subtype : UInt8) (bytes : List UInt8)
  | objectId (bytes : List UInt8)
  | dateTime (t : DateTime)
  | symbol (s : String)
  | decimal128 (bytes : List UInt8)
  | undefined
  | maxKey
  | minKey
  | dbPointer (ns : String) (id : List UInt8)

namespace Bson

mutual
/-- Structural comparison of two values (not the IEEE comparison of doubles). -/
def same : Bson → Bson → Bool
  | double x, double y => x = y
  | string s, string t => s = t
  | array xs, array ys => sameList xs ys
  | document xs, document ys => sameEntries xs ys
  | boolean b, boolean c => b = c
  | null, null => true
  | regularExpression p o, regularExpression p' o' => p = p' && o = o'
  | javaScriptCode c, javaScriptCode c' => c = c'
  | javaScriptCodeWithScope c s, javaScriptCodeWithScope c' s' => c = c' && sameEntries s s'
  | int32 i, int32 j => i = j
  | int64 i, int64 j => i = j
  | timestamp t i, timestamp t' i' => t = t' && i = i'
  | binary s b, binary s' b' => s = s' && b = b'
  | objectId b, objectId b' => b = b'
  | dateTime t, dateTime t' => t = t'
  | symbol s, symbol t => s = t
  | decimal128 b, decimal128 b' => b = b'
  | undefined, undefined => true
  | maxKey, maxKey => true
  | minKey, minKey => true
  | dbPointer n i, dbPointer n' i' => n = n' && i = i'
  | _, _ => false

def sameList : List Bson → List Bson → Bool
  | [], [] => true
  | x :: xs, y :: ys => same x y && sameList xs ys
  | _, _ => false

def sameEntries : List (String × Bson) → List (String × Bson) → Bool
  | [], [] => true
  | (k, x) :: xs, (k', y) :: ys => k = k' && same x y && sameEntries xs ys
  | _, _ => false
end

mutual
theorem same_iff : ∀ a b : Bson, same a b = true ↔ a = b
  | array xs, b => by cases b <;> simp [same, sameList_iff xs]
  | document xs, b => by cases b <;> simp [same, sameEntries_iff xs]
  | javaScriptCodeWithScope c xs, b => by cases b <;> simp [same, sameEntries_iff xs]
  | double _, b | string _, b | boolean _, b | null, b | regularExpression _ _, b
  | javaScriptCode _, b | int32 _, b | int64 _, b | timestamp _ _, b | binary _ _, b
  | objectId _, b | dateTime _, b | symbol _, b | decimal128 _, b | undefined, b
  | maxKey, b | minKey, b | dbPointer _ _, b => by cases b <;> simp [same]

theorem sameList_iff : ∀ xs ys : List Bson, sameList xs ys = true ↔ xs = ys
  | [], ys => by cases ys <;> simp [sameList]
  | x :: xs, ys => by cases ys <;> simp [sameList, same_iff x, sameList_iff xs]

theorem sameEntries_iff : ∀ xs ys : List (String × Bson), sameEntries xs ys = true ↔ xs = ys
  | [], ys => by cases ys <;> simp [sameEntries]
  | (k, x) :: xs, ys => by
    cases ys <;> simp [sameEntries, same_iff x, sameEntries_iff xs, Prod.ext_iff]
end

instance : DecidableEq Bson := fun a b => decidable_of_iff _ (same_iff a b)

end Bson

/-! ## Documents -/

/-- `bson::Document`. -/
structure Document where
  entries : List (String × Bson)
deriving DecidableEq

namespace Document

def empty : Document := ⟨[]⟩

def get (d : Document) (key : String) : Option Bson := IndexMap.get d.entries key

def insert (d : Document) (key : String) (v : Bson) : Document :=
  ⟨IndexMap.insert d.entries key v⟩

def remove (d : Document) (key : String) : Document := ⟨IndexMap.remove d.entries key⟩

/-- `get_str(key).ok()`. -/
def getStr (d : Document) (key : String) : Option String :=
  match d.get key with
  | some (.string s) => some s
  | _ => none

/-- `get_bool(key).ok()`. -/
def getBool (d : Document) (key : String) : Option Bool :=
  match d.get key with
  | some (.boolean b) => some b
  | _ => none

/-- `get_i64(key).ok()`. -/
def getI64 (d : Document) (key : String) : Option ℤ :=
  match d.get key with
  | some (.int64 i) => some i
  | _ => none

/-- `get_array(key).ok()`. -/
def getArray (d : Document) (key : String) : Option (List Bson) :=
  match d.get key with
  | some (.array xs) => some xs
  | _ => none

@[simp] theorem get_insert_self (d : Document) (key : String) (v : Bson) :
    (d.insert key v).get key = some v := IndexMap.get_insert_self _ _ _

@[simp] theorem get_insert_of_ne (d : Document) {key key' : String} (v : Bson)
    (h : key ≠ key') : (d.insert key v).get key' = d.get key' :=
  IndexMap.get_insert_of_ne _ _ h

@[simp] theorem get_remove_self (d : Document) (key : String) : (d.remove key).get key = none :=
  IndexMap.get_remove_self _ _

@[simp] theorem get_remove_of_ne (d : Document) {key key' : String} (h : key ≠ key') :
    (d.remove key).get key' = d.get key' := IndexMap.get_remove_of_ne _ h

@[simp] theorem insert_insert_self (d : Document) (key : String) (v v' : Bson) :
    (d.insert key v).insert key v' = d.insert key v' :=
  congrArg Document.mk (IndexMap.insert_insert_self _ _ _ _)

theorem insert_of_get {d : Document} {key : String} {v : Bson} (h : d.get key = some v) :
    d.insert key v = d := congrArg Document.mk (IndexMap.insert_of_get h)

@[simp] theorem remove_insert_self (d : Document) (key : String) (v : Bson) :
    (d.insert key v).remove key = d.remove key :=
  congrArg Document.mk (IndexMap.remove_insert_self _ _ _)

end Document

/-- `Bson::as_i64`. -/
def Bson.asI64 : Bson → Option ℤ
  | .int64 i => some i
  | _ => none

/-- `Bson::as_document`. -/
def Bson.asDocument : Bson → Option Document
  | .document entries => some ⟨entries⟩
  | _ => none

end Rango
