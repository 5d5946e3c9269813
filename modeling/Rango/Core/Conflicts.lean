import Rango.Core.Engine

/-!
# Conflicts

`list_conflicts` shows the versions that lost against a stored document, `resolve_conflict`
installs one of them in its place. Neither writes to the oplog.
-/

namespace Rango
namespace RangoEngine

variable {σ ω : Type} [StorageEngine σ]

/-! ## Listing -/

/-- The documents among the values of an array. -/
def documentsOf (arr : List Bson) : List Document := arr.filterMap Bson.asDocument

/-- The loop of `list_conflicts` over what the scan found. `draw n` are the bytes of the `n`th
UUID that is drawn for a document without an `_id`. -/
def listConflictsLoop (draw : ℕ → List UInt8) (drawn : ℕ)
    (results : List (DocumentId × List Document)) :
    List (Except RangoError Document) → Except RangoError (List (DocumentId × List Document))
  | [] => .ok results
  | .error err :: _ => .error err
  | .ok doc :: rest =>
    if isDeleted doc then listConflictsLoop draw drawn results rest
    else
      match doc.getArray "_conflicts" with
      | none => listConflictsLoop draw drawn results rest
      | some arr =>
        if documentsOf arr = [] then listConflictsLoop draw drawn results rest
        else
          match doc.get "_id" with
          | some idBson => listConflictsLoop draw drawn
              (results ++ [(DocumentId.fromBson idBson, documentsOf arr)]) rest
          | none => listConflictsLoop draw (drawn + 1)
              (results ++ [(DocumentId.newUuidV7 (draw drawn), documentsOf arr)]) rest

/-- `RangoEngine::list_conflicts`. -/
def listConflicts (e : RangoEngine σ ω) (c : CollectionName) (draw : ℕ → List UInt8) :
    Except RangoError (List (DocumentId × List Document)) × RangoEngine σ ω :=
  match e.storageScan c with
  | (.error err, e) => (.error err, e)
  | (.ok results, e) => (listConflictsLoop draw 0 [] results, e)

/-! ## Resolving -/

/-- The item is a document with that revision. -/
def isRevision (rev : Revision) (item : Bson) : Bool :=
  match item.asDocument with
  | none => false
  | some doc => ((doc.getStr "_rev").bind fun s => (Revision.fromStr s).toOption) = some rev

/-- The loop of `resolve_conflict` over the array: the conflicts that stay, and the last one with
the chosen revision. Items that are no documents are dropped. -/
def chooseLoop (chosenRev : Revision) (newConflicts : List Bson) (chosenDoc : Option Document) :
    List Bson → List Bson × Option Document
  | [] => (newConflicts, chosenDoc)
  | item :: rest =>
    match item.asDocument with
    | none => chooseLoop chosenRev newConflicts chosenDoc rest
    | some conflictDoc =>
      if isRevision chosenRev item then chooseLoop chosenRev newConflicts (some conflictDoc) rest
      else chooseLoop chosenRev (newConflicts ++ [item]) chosenDoc rest

/-- The chosen document with the conflicts that stay. -/
def withConflicts (doc : Document) (newConflicts : List Bson) : Document :=
  if newConflicts = [] then doc.remove "_conflicts"
  else doc.insert "_conflicts" (.array newConflicts)

/-- `RangoEngine::resolve_conflict`. -/
def resolveConflict [Formatting] (e : RangoEngine σ ω) (c : CollectionName) (id : DocumentId)
    (chosenRev : Revision) : Except RangoError Unit × RangoEngine σ ω :=
  match e.storageGet c id with
  | (.error err, e) => (.error err, e)
  | (.ok none, e) => (.error (.documentNotFound id.toString), e)
  | (.ok (some doc), e) =>
    match doc.getArray "_conflicts" with
    | none => (.error (.conflict "No conflicts found"), e)
    | some arr =>
      match chooseLoop chosenRev [] none arr with
      | (_, none) => (.error (.conflict "Chosen revision not found in conflicts"), e)
      | (newConflicts, some chosenDoc) =>
        e.storagePut c id (withConflicts chosenDoc newConflicts)

end RangoEngine
end Rango
