import Rango.Query.Filter

/-!
# Projections and sort keys

`rango_query::project`, which keeps the fields that a projection names or drops them, and
`rango_query::sort_key`, the value that a document is sorted by. Sort keys of one kind compare by
value, those of different kinds by the rank of the kind.
-/

namespace Rango

/-- `Bson::as_i32`. -/
def Bson.asI32 : Bson → Option ℤ
  | .int32 i => some i
  | _ => none

namespace Query

/-- One field of an inclusion. -/
def includeField (doc : Document) (result : Document) (key : String) : Document :=
  match doc.get key with
  | some v => result.insert key v
  | none => result

/-- `rango_query::project`. -/
def project (doc projection : Document) : Except RangoError Document :=
  let flag (key : String) : Option ℤ := (projection.get key).bind Bson.asI32
  if projection.entries.any fun kv => kv.2.asI32 = some 1 then
    let result := projection.entries.foldl (fun result kv =>
      if kv.2.asI32 = some 1 then includeField doc result kv.1 else result) Document.empty
    -- the id is included unless it is excluded
    .ok (if flag "_id" ≠ some 0 then includeField doc result "_id" else result)
  else
    .ok (doc.entries.foldl (fun result kv =>
      if flag kv.1 ≠ some 0 then result.insert kv.1 kv.2 else result) Document.empty)

/-- `SortKey`. -/
inductive SortKey where
  | null
  | int64 (i : ℤ)
  | double (x : F64)
  | string (s : String)
  | dateTime (t : DateTime)
deriving DecidableEq

namespace SortKey

/-- `rank` in `SortKey::cmp`. -/
def rank : SortKey → ℕ
  | null => 0
  | int64 _ => 1
  | double _ => 2
  | string _ => 3
  | dateTime _ => 4

/-- `SortKey::cmp`. -/
def cmp (a b : SortKey) : Ordering :=
  match a, b with
  | null, null => .eq
  | int64 a, int64 b => compare a b
  -- a NaN counts as equal to any double
  | double a, double b => (a.partialCmp b).getD .eq
  | string a, string b => compare a b
  | dateTime a, dateTime b => compare a b
  | a, b => compare a.rank b.rank

end SortKey

/-- `rango_query::sort_key`. -/
def sortKey [BsonTraits] (doc : Document) (field : String) : Except RangoError SortKey :=
  match doc.get field with
  | some (.int32 v) => .ok (.int64 v)
  | some (.int64 v) => .ok (.int64 v)
  | some (.double v) => .ok (.double v)
  | some (.string v) => .ok (.string v)
  | some (.dateTime v) => .ok (.dateTime v)
  | some .null => .ok .null
  | none => .ok .null
  | some other =>
    .error (.invalidQueryOperator ("Cannot sort by field type: " ++ BsonTraits.debug other))

end Query
end Rango
