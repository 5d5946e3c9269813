import Rango.Types.Bson
import Mathlib.Data.Nat.Notation

/-!
# Document ids, collection names and errors

Formatting and hashing that the code takes from `bson` and from the standard library's
unspecified `DefaultHasher` are the fields of `Formatting`; everything here is stated over
an arbitrary one.
-/

namespace Rango

/-- The `Display` impls and the hasher whose source the repository does not hold. -/
class Formatting where
  /-- `format!("{}", bson)` on the values that `DocumentId` does not print itself. -/
  bsonDisplay : Bson → String
  /-- `DefaultHasher` on a `str`. -/
  defaultHash : String → UInt64
  /-- `format!("{x}")` on an `f64`. -/
  f64Display : F64 → String
  /-- `format!("{x:.2}")` on an `f64`. -/
  f64Display2 : F64 → String

/-- A formatting for worked examples: as `bson` prints strings and integers. -/
@[reducible] def Formatting.sample : Formatting where
  bsonDisplay
    | .string s => "\"" ++ s ++ "\""
    | .int32 i | .int64 i => toString i
    | _ => ""
  defaultHash _ := 0
  f64Display _ := "1"
  f64Display2 _ := "1.00"

/-- The two lower-case hexadecimal digits of a byte. -/
def hexByte (b : UInt8) : List Char :=
  [Nat.digitChar (b.toNat / 16), Nat.digitChar (b.toNat % 16)]

def hex (bytes : List UInt8) : List Char := bytes.flatMap hexByte

/-! ## Document ids -/

/-- `DocumentId(pub Bson)`. -/
structure DocumentId where
  bson : Bson
deriving DecidableEq

namespace DocumentId

/-- `BinarySubtype::Uuid`. -/
def uuidSubtype : UInt8 := 4

def fromBson (bson : Bson) : DocumentId := ⟨bson⟩

/-- A fresh id from the sixteen bytes that `Uuid::now_v7` drew. -/
def newUuidV7 (bytes : List UInt8) : DocumentId := ⟨.binary uuidSubtype bytes⟩

/-- The hyphenated form of a UUID. -/
def uuidDisplay (bytes : List UInt8) : List Char :=
  hex (bytes.take 4) ++ '-' :: hex ((bytes.drop 4).take 2) ++ '-' :: hex ((bytes.drop 6).take 2)
    ++ '-' :: hex ((bytes.drop 8).take 2) ++ '-' :: hex (bytes.drop 10)

/-- `format!("{:?}", bytes)`. -/
def bytesDebug (bytes : List UInt8) : String :=
  "[" ++ String.intercalate ", " (bytes.map fun b => Nat.repr b.toNat) ++ "]"

/-- `impl Display for DocumentId`. -/
def toString [Formatting] (id : DocumentId) : String :=
  match id.bson with
  | .objectId oid => String.ofList (hex oid)
  | .binary subtype bytes =>
    if subtype = uuidSubtype then
      if bytes.length = 16 then String.ofList (uuidDisplay bytes) else bytesDebug bytes
    else Formatting.bsonDisplay (.binary subtype bytes)
  | other => Formatting.bsonDisplay other

end DocumentId

/-- `CollectionName(pub String)`. -/
structure CollectionName where
  name : String
deriving DecidableEq

/-! ## Errors -/

/-- `RangoError`. -/
inductive RangoError where
  | documentNotFound (id : String)
  | collectionNotFound (name : String)
  | invalidQueryOperator (op : String)
  | storage (msg : String)
  | sync (msg : String)
  | conflict (msg : String)
  | documentTooLarge (size limit : ℕ)
deriving DecidableEq

/-- `RangoError::to_string`. -/
def RangoError.display : RangoError → String
  | documentNotFound id => "document not found: " ++ id
  | collectionNotFound name => "collection not found: " ++ name
  | invalidQueryOperator op => "invalid query operator: " ++ op
  | storage msg => "storage error: " ++ msg
  | sync msg => "sync error: " ++ msg
  | conflict msg => "conflict detected for document " ++ msg
  | documentTooLarge size limit =>
    "document too large: " ++ Nat.repr size ++ " bytes exceeds limit of " ++ Nat.repr limit ++
      " bytes"

end Rango
