import Rango.Types.Id

/-!
# Secondary indexes

`IndexManager`, which maps a collection and a field to the ids of the documents that were indexed,
by the value of the field. Only the field of an index is read, not its name or whether it is
unique. The key order of the B-tree does not show in any answer, so a tree is a map like the others.
-/

namespace Rango

/-- `IndexDefinition`, the field that is read. -/
structure IndexDefinition where
  fields : List String

/-- `IndexKey`. -/
inductive IndexKey where
  | null
  | int64 (i : ℤ)
  | string (s : String)
deriving DecidableEq

/-- The documents of an index, by key. -/
abbrev IndexTree := List (IndexKey × List DocumentId)

/-- `IndexManager`. -/
structure IndexManager where
  indexes : List ((String × String) × IndexTree)

namespace IndexManager

/-- `IndexManager::new`. -/
def new : IndexManager := ⟨[]⟩

/-- `IndexManager::create_index`. An index that is there is emptied. -/
def createIndex (m : IndexManager) (c : CollectionName) (d : IndexDefinition) :
    Except RangoError Unit × IndexManager :=
  match d.fields with
  | [field] => (.ok (), ⟨IndexMap.insert m.indexes (c.name, field) []⟩)
  | _ => (.error (.invalidQueryOperator "Compound indexes not yet supported"), m)

/-- `IndexManager::drop_index`. -/
def dropIndex (m : IndexManager) (c : CollectionName) (name : String) :
    Except RangoError Bool × IndexManager :=
  (.ok (IndexMap.get m.indexes (c.name, name)).isSome,
    ⟨IndexMap.remove m.indexes (c.name, name)⟩)

/-- The key of a value that an index can hold. -/
def valueKey : Bson → Option IndexKey
  | .int32 v => some (.int64 v)
  | .int64 v => some (.int64 v)
  | .string v => some (.string v)
  | .null => some .null
  | _ => none

/-- The key that a document is indexed under; a missing field counts as null. -/
def indexKey (doc : Document) (field : String) : Option IndexKey :=
  match doc.get field with
  | some v => valueKey v
  | none => some .null

/-- One tree of `index_document`. -/
def indexInto (tree : IndexTree) (doc : Document) (field : String) (id : DocumentId) : IndexTree :=
  match indexKey doc field with
  | some key => IndexMap.insert tree key ((IndexMap.get tree key).getD [] ++ [id])
  | none => tree

/-- `IndexManager::index_document`. -/
def indexDocument (m : IndexManager) (c : CollectionName) (doc : Document) :
    Except RangoError Unit × IndexManager :=
  match doc.get "_id" with
  | none => (.error (.documentNotFound "missing _id"), m)
  | some id =>
    (.ok (), ⟨m.indexes.map fun e =>
      (e.1, if e.1.1 ≠ c.name then e.2
        else indexInto e.2 doc e.1.2 (DocumentId.fromBson id))⟩)

/-- `IndexManager::remove_document`. The document is not looked at. -/
def removeDocument (m : IndexManager) (c : CollectionName) (_doc : Document) :
    Except RangoError Unit × IndexManager :=
  (.ok (), ⟨m.indexes.map fun e => (e.1, if e.1.1 ≠ c.name then e.2 else [])⟩)

/-- `IndexManager::find_by_index`. -/
def findByIndex (m : IndexManager) (c : CollectionName) (field : String) (value : Bson) :
    Except RangoError (List DocumentId) :=
  match IndexMap.get m.indexes (c.name, field) with
  | none => .error (.invalidQueryOperator ("No index on field: " ++ field))
  | some tree =>
    match valueKey value with
    | some key => .ok ((IndexMap.get tree key).getD [])
    | none => .ok []

end IndexManager

/-! ## Runs -/

/-- One call that changes what is indexed. -/
inductive IndexCall where
  | index (c : CollectionName) (doc : Document)
  | remove (c : CollectionName) (doc : Document)

/-- A manager together with its history: of every document, the version that was indexed last,
unless it was removed since. -/
structure IndexRun where
  manager : IndexManager
  latest : CollectionName → DocumentId → Option Document

namespace IndexRun

/-- The history with one document's version replaced. -/
def setLatest (r : IndexRun) (c : CollectionName) (id : DocumentId) (version : Option Document) :
    CollectionName → DocumentId → Option Document :=
  fun c' id' => if c' = c ∧ id' = id then version else r.latest c' id'

/-- What one call leaves. A document without an id is no indexed document. -/
def step (r : IndexRun) : IndexCall → IndexRun
  | .index c doc =>
    { manager := (r.manager.indexDocument c doc).2
      latest :=
        match doc.get "_id" with
        | some id => r.setLatest c (DocumentId.fromBson id) (some doc)
        | none => r.latest }
  | .remove c doc =>
    { manager := (r.manager.removeDocument c doc).2
      latest :=
        match doc.get "_id" with
        | some id => r.setLatest c (DocumentId.fromBson id) none
        | none => r.latest }

/-- A manager that has just got an index, with nothing indexed yet. -/
def start (m : IndexManager) (c : CollectionName) (field : String) : IndexRun :=
  ⟨(m.createIndex c ⟨[field]⟩).2, fun _ _ => none⟩

end IndexRun
end Rango
