import Rango.Lib.SortedMap
import Rango.Query.Filter
import Rango.Types.Codec

/-!
# JSON values

`serde_json::Value` and what the code takes from `serde_json`: values to text and back. An object
is a `BTreeMap`, so its entries stand by ascending key. `SerdeJson.RoundTrips` is what the crate
does with its own output: it reads a value back up to the last bit of its doubles, unless the value
is nested too deeply.
-/

namespace Rango

/-! ## Numbers -/

/-- `serde_json::Number`. -/
inductive JsonNumber where
  | posInt (n : ℕ)
  | negInt (i : ℤ)
  | float (x : F64)
deriving DecidableEq

namespace JsonNumber

/-- `Number::from` on a signed integer. -/
def ofInt (i : ℤ) : JsonNumber := if i < 0 then .negInt i else .posInt i.toNat

/-- `Number::from_f64`. -/
def ofF64 (x : F64) : Option JsonNumber := if x.isFinite then some (.float x) else none

def asI64 : JsonNumber → Option ℤ
  | posInt n => if n < 2 ^ 63 then some n else none
  | negInt i => some i
  | float _ => none

def asF64 : JsonNumber → Option F64
  | posInt n => some (F64.ofInt n)
  | negInt i => some (F64.ofInt i)
  | float x => some x

/-- The values that the three arms hold: a `u64`, a negative `i64`, a finite double. -/
def proper : JsonNumber → Bool
  | posInt n => n < 2 ^ 64
  | negInt i => -2 ^ 63 ≤ i && i < 0
  | float x => x.isFinite

/-- An integer is in the range of `i64`. -/
def fitsI64 : JsonNumber → Bool
  | posInt n => n < 2 ^ 63
  | negInt i => -2 ^ 63 ≤ i
  | float _ => true

end JsonNumber

/-! ## Values -/

/-- `serde_json::Value`. -/
inductive Json where
  | null
  | bool (b : Bool)
  | number (n : JsonNumber)
  | string (s : String)
  | array (xs : List Json)
  | object (entries : List (String × Json))

namespace Json

mutual
def same : Json → Json → Bool
  | null, null => true
  | bool b, bool c => b = c
  | number m, number n => m = n
  | string s, string t => s = t
  | array xs, array ys => sameList xs ys
  | object xs, object ys => sameEntries xs ys
  | _, _ => false

def sameList : List Json → List Json → Bool
  | [], [] => true
  | x :: xs, y :: ys => same x y && sameList xs ys
  | _, _ => false

def sameEntries : List (String × Json) → List (String × Json) → Bool
  | [], [] => true
  | (k, x) :: xs, (k', y) :: ys => k = k' && same x y && sameEntries xs ys
  | _, _ => false
end

mutual
theorem same_iff : ∀ a b : Json, same a b = true ↔ a = b
  | array xs, b => by cases b <;> simp [same, sameList_iff xs]
  | object xs, b => by cases b <;> simp [same, sameEntries_iff xs]
  | null, b | bool _, b | number _, b | string _, b => by cases b <;> simp [same]

theorem sameList_iff : ∀ xs ys : List Json, sameList xs ys = true ↔ xs = ys
  | [], ys => by cases ys <;> simp [sameList]
  | x :: xs, ys => by cases ys <;> simp [sameList, same_iff x, sameList_iff xs]

theorem sameEntries_iff : ∀ xs ys : List (String × Json), sameEntries xs ys = true ↔ xs = ys
  | [], ys => by cases ys <;> simp [sameEntries]
  | (k, x) :: xs, ys => by
    cases ys <;> simp [sameEntries, same_iff x, sameEntries_iff xs, Prod.ext_iff]
end

instance : DecidableEq Json := fun a b => decidable_of_iff _ (same_iff a b)

mutual
/-- Every number in the value satisfies `p`, the entries of every object satisfy `q`. -/
def all (p : JsonNumber → Bool) (q : List (String × Json) → Bool) : Json → Bool
  | null | bool _ | string _ => true
  | number n => p n
  | array xs => allList p q xs
  | object entries => q entries && allEntries p q entries

def allList (p : JsonNumber → Bool) (q : List (String × Json) → Bool) : List Json → Bool
  | [] => true
  | x :: xs => all p q x && allList p q xs

def allEntries (p : JsonNumber → Bool) (q : List (String × Json) → Bool) :
    List (String × Json) → Bool
  | [] => true
  | (_, x) :: rest => all p q x && allEntries p q rest
end

lemma allEntries_iff {p : JsonNumber → Bool} {q : List (String × Json) → Bool}
    (es : List (String × Json)) :
    allEntries p q es = true ↔ ∀ e ∈ es, e.2.all p q = true := by
  induction es with
  | nil => simp [allEntries]
  | cons e es ih => simp [allEntries, ih]

mutual
lemma all_and (p p' : JsonNumber → Bool) (q q' : List (String × Json) → Bool) :
    ∀ v : Json, v.all (fun n => p n && p' n) (fun es => q es && q' es) =
      (v.all p q && v.all p' q')
  | null | bool _ | number _ | string _ => by simp [all]
  | array xs => by rw [all, all, all, allList_and p p' q q' xs]
  | object entries => by
    rw [all, all, all, allEntries_and p p' q q' entries]
    cases q entries <;> cases q' entries <;> simp

lemma allList_and (p p' : JsonNumber → Bool) (q q' : List (String × Json) → Bool) :
    ∀ xs : List Json, allList (fun n => p n && p' n) (fun es => q es && q' es) xs =
      (allList p q xs && allList p' q' xs)
  | [] => rfl
  | x :: xs => by
    rw [allList, allList, allList, all_and p p' q q' x, allList_and p p' q q' xs]
    cases all p q x <;> cases all p' q' x <;> simp

lemma allEntries_and (p p' : JsonNumber → Bool) (q q' : List (String × Json) → Bool) :
    ∀ es : List (String × Json), allEntries (fun n => p n && p' n) (fun es => q es && q' es) es =
      (allEntries p q es && allEntries p' q' es)
  | [] => rfl
  | (_, x) :: rest => by
    rw [allEntries, allEntries, allEntries, all_and p p' q q' x, allEntries_and p p' q q' rest]
    cases all p q x <;> cases all p' q' x <;> simp
end

lemma allEntries_perm {p : JsonNumber → Bool} {q : List (String × Json) → Bool}
    {es es' : List (String × Json)} (h : es.Perm es') :
    allEntries p q es = true ↔ allEntries p q es' = true := by
  simp only [allEntries_iff, h.mem_iff]

/-- A value that the types of `serde_json` can hold. -/
def proper (v : Json) : Bool := v.all JsonNumber.proper fun es => decide (SortedMap.Ascending es)

/-- All integers are in the range of `i64`. -/
def fitsI64 (v : Json) : Bool := v.all JsonNumber.fitsI64 fun _ => true

mutual
/-- How many arrays and objects stand around the innermost values. -/
def depth : Json → ℕ
  | null | bool _ | number _ | string _ => 0
  | array xs => depthList xs + 1
  | object entries => depthEntries entries + 1

def depthList : List Json → ℕ
  | [] => 0
  | x :: xs => max (depth x) (depthList xs)

def depthEntries : List (String × Json) → ℕ
  | [] => 0
  | (_, x) :: rest => max (depth x) (depthEntries rest)
end

end Json

/-! ## Text -/

/-- `serde_json::to_string` and `from_str`. -/
class SerdeJson where
  toText : Json → Except String String
  ofText : String → Except String Json
  /-- What the text of a finite double is read as. Without the feature `float_roundtrip` that may
  be a neighbour, or too large. -/
  rereadF64 : F64 → Option F64

section
variable [SerdeJson]

namespace Json

mutual
/-- The value with every double replaced by what its text is read as. -/
def reread : Json → Option Json
  | null => some .null
  | bool b => some (.bool b)
  | number (.float x) => (SerdeJson.rereadF64 x).map fun y => .number (.float y)
  | number n => some (.number n)
  | string s => some (.string s)
  | array xs => (rereadList xs).map .array
  | object entries => (rereadEntries entries).map .object

def rereadList : List Json → Option (List Json)
  | [] => some []
  | x :: xs => (reread x).bind fun x' => (rereadList xs).map (x' :: ·)

def rereadEntries : List (String × Json) → Option (List (String × Json))
  | [] => some []
  | (k, x) :: rest => (reread x).bind fun x' => (rereadEntries rest).map ((k, x') :: ·)
end

lemma rereadEntries_eq (es : List (String × Json)) :
    rereadEntries es = SortedMap.mapValues reread es := by
  induction es with
  | nil => rfl
  | cons e rest ih => rw [rereadEntries, SortedMap.mapValues, ih]

end Json

/-- What the crate does with its own output. -/
structure SerdeJson.RoundTrips : Prop where
  /-- the parser gives up at the 128th level -/
  of_to : ∀ v text, v.proper = true → SerdeJson.toText v = .ok text →
    (SerdeJson.ofText text).toOption = if v.depth < 128 then v.reread else none
  /-- an object is one line in braces -/
  object_text : ∀ es text, SerdeJson.toText (.object es) = .ok text →
    ∃ inner, text.toList = '{' :: (inner ++ ['}']) ∧ '\n' ∉ inner

end

/-! ## A serializer for worked examples

Compact JSON of the values without doubles and without characters that need an escape. Reading goes
through a table of the values that an example uses. -/

namespace SerdeJson

/-- A text in quotes. -/
def quoted (s : String) : Option (List Char) :=
  if s.toList.all fun c => 0x20 ≤ c.toNat && c ≠ '"' && c ≠ '\\' then
    some ('"' :: (s.toList ++ ['"']))
  else none

mutual
def layout : Json → Option (List Char)
  | .null => some "null".toList
  | .bool b => some (if b then "true" else "false").toList
  | .number (.posInt n) => some (Nat.repr n).toList
  | .number (.negInt i) => some ('-' :: (Nat.repr i.natAbs).toList)
  | .number (.float _) => none
  | .string s => quoted s
  | .array xs => (layoutList xs).map fun inner => '[' :: (inner ++ [']'])
  | .object entries => (layoutEntries entries).map fun inner => '{' :: (inner ++ ['}'])

def layoutList : List Json → Option (List Char)
  | [] => some []
  | [x] => layout x
  | x :: xs => (layout x).bind fun cs => (layoutList xs).map fun rest => cs ++ ',' :: rest

def layoutEntries : List (String × Json) → Option (List Char)
  | [] => some []
  | [(k, x)] => (quoted k).bind fun key => (layout x).map fun cs => key ++ ':' :: cs
  | (k, x) :: es => (quoted k).bind fun key => (layout x).bind fun cs =>
      (layoutEntries es).map fun rest => key ++ ':' :: (cs ++ ',' :: rest)
end

/-- The text of a value that fits on one line. -/
def lineOf (v : Json) : Option String :=
  ((layout v).filter fun cs => '\n' ∉ cs).map String.ofList

/-- The serializer that knows the given values. -/
@[reducible] def ofTable (rows : List Json) : SerdeJson where
  toText := BsonCodec.tableEncode rows lineOf
  ofText := BsonCodec.tableDecode rows lineOf
  rereadF64 := some

theorem ofTable_roundTrips {rows : List Json}
    (hinj : ∀ v ∈ rows, ∀ v' ∈ rows, lineOf v = lineOf v' → v = v')
    (hread : ∀ v ∈ rows, v.depth < 128 ∧ @Json.reread (ofTable rows) v = some v) :
    @RoundTrips (ofTable rows) := by
  refine @RoundTrips.mk (ofTable rows) (fun v text _ h => ?_) (fun es text h => ?_)
  · obtain ⟨hdepth, hsame⟩ := hread v (BsonCodec.of_tableEncode h).1
    rw [if_pos hdepth, hsame]
    exact congrArg Except.toOption (BsonCodec.tableDecode_of_tableEncode hinj h)
  · obtain ⟨cs, hcs, rfl⟩ := Option.map_eq_some_iff.mp (BsonCodec.of_tableEncode h).2
    obtain ⟨hlayout, hline⟩ := Option.filter_eq_some_iff.mp hcs
    rw [layout] at hlayout
    obtain ⟨inner, -, rfl⟩ := Option.map_eq_some_iff.mp hlayout
    refine ⟨inner, String.toList_ofList, fun hmem => ?_⟩
    exact of_decide_eq_true hline (List.mem_cons_of_mem _ (List.mem_append_left _ hmem))

end SerdeJson
end Rango
