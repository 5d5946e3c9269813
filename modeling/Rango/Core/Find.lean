import Rango.Core.LocalWrites
import Rango.Lib.StableSort
import Rango.Query.Engine

/-!
# Queries

`RangoEngine::find` and the calls on top of it. An iterator is the list of what it yields until it
ends. Without a sort, documents stream from the scan to the cursor, past `FilteredIter` and a
closure that counts what it skips and emits. With a sort, all documents are collected first.
-/

namespace Rango

/-- `slice::sort_by` on documents. Of a comparison that is no total order on the slice it returns
the elements in some order, or panics. -/
class SliceSort where
  sortBy : (Document → Document → Ordering) → List Document → Except Fault (List Document)
  perm : ∀ {cmp : Document → Document → Ordering} {l r : List Document},
    sortBy cmp l = .ok r → r.Perm l
  sorts : ∀ {cmp : Document → Document → Ordering} {l : List Document},
    StableSort.Consistent cmp l → ∃ r, sortBy cmp l = .ok r ∧ StableSort.StableSorted cmp l r

/-- A sort for worked examples. -/
@[reducible] def SliceSort.sample : SliceSort where
  sortBy cmp l := .ok (l.insertionSort (StableSort.Before cmp))
  perm h := by
    cases h
    exact List.perm_insertionSort _ _
  sorts h := ⟨_, rfl, StableSort.insertionSort_stableSorted h⟩

section
variable [BsonTraits]

/-- `FilteredIter`: what `next` yields until it ends. -/
def filteredIter (filter : Document) (includeDeleted : Bool) :
    List (Except RangoError Document) → List (Except RangoError Document)
  | [] => []
  | .error err :: rest => .error err :: filteredIter filter includeDeleted rest
  | .ok doc :: rest =>
    if !includeDeleted && isDeleted doc then filteredIter filter includeDeleted rest
    else
      match Query.matchesFilter doc filter with
      | .ok true => .ok doc :: filteredIter filter includeDeleted rest
      | .ok false => filteredIter filter includeDeleted rest
      | .error err => .error err :: filteredIter filter includeDeleted rest

omit [BsonTraits] in
/-- The document as it is returned: `project(..).unwrap_or(doc)` if there is a projection. -/
def projected (projection : Option Document) (doc : Document) : Document :=
  match projection with
  | some proj => (Query.project doc proj).toOption.getD doc
  | none => doc

omit [BsonTraits] in
/-- The documents without the first `skip`, truncated to the limit. -/
def sliced (skip : ℕ) (limit : Option ℕ) (docs : List Document) : List Document :=
  match limit with
  | some n => (docs.drop skip).take n
  | none => docs.drop skip

/-- The closure of a `find` without a sort: what it yields from the filtered documents, `skipped`
and `emitted` so far. -/
def streamed (filter : Document) (projection : Option Document) (skip : ℕ) (limit : Option ℕ)
    (skipped emitted : ℕ) : List (Except RangoError Document) → List (Except RangoError Document)
  | [] => []
  | item :: rest =>
    if limit.any (· ≤ emitted) then []
    else
      match item with
      | .error err => .error err :: streamed filter projection skip limit skipped emitted rest
      | .ok doc =>
        -- the filter is applied a second time, where an error counts as no match
        if (Query.matchesFilter doc filter).toOption.getD false = false then
          streamed filter projection skip limit skipped emitted rest
        else if skipped < skip then
          streamed filter projection skip limit (skipped + 1) emitted rest
        else
          .ok (projected projection doc) ::
            streamed filter projection skip limit skipped (emitted + 1) rest

/-- `sort_key(..).unwrap_or(SortKey::Null)`. -/
def sortKeyOrNull (field : String) (doc : Document) : Query.SortKey :=
  (Query.sortKey doc field).toOption.getD .null

/-- The comparison of a sort. -/
def sortOrder (field : String) (desc : Bool) (a b : Document) : Ordering :=
  let ord := (sortKeyOrNull field a).cmp (sortKeyOrNull field b)
  if desc then ord.swap else ord

namespace RangoEngine

variable {σ ω : Type} [StorageEngine σ] [SliceSort]

/-- `RangoEngine::find`: the items of the cursor. The sort is a field and whether it descends. -/
def find (e : RangoEngine σ ω) (c : CollectionName) (filter : Document)
    (projection : Option Document) (sort : Option (String × Bool)) (skip limit : Option ℕ) :
    Except Fault (List (Except RangoError Document)) × RangoEngine σ ω :=
  match e.storageScan c with
  | (.error err, e) => (.error (.error err), e)
  | (.ok results, e) =>
    let filtered := filteredIter filter false results
    match sort with
    | none => (.ok (streamed filter projection (skip.getD 0) limit 0 0 filtered), e)
    | some (field, desc) =>
      -- errors among the documents are dropped here
      match SliceSort.sortBy (sortOrder field desc) (filtered.filterMap Except.toOption) with
      | .error fault => (.error fault, e)
      | .ok docs =>
        (.ok ((sliced (skip.getD 0) limit docs).map fun doc => .ok (projected projection doc)), e)

/-- `RangoEngine::find_many`. -/
def findMany (e : RangoEngine σ ω) (c : CollectionName) :
    Except Fault (List (Except RangoError Document)) × RangoEngine σ ω :=
  e.find c Document.empty none none none none

/-- `RangoEngine::find_one_by_filter`. -/
def findOneByFilter (e : RangoEngine σ ω) (c : CollectionName) (filter : Document) :
    Except Fault (Option Document) × RangoEngine σ ω :=
  match e.find c filter none none none none with
  | (.error fault, e) => (.error fault, e)
  | (.ok [], e) => (.ok none, e)
  | (.ok (.ok doc :: _), e) => (.ok (some doc), e)
  | (.ok (.error err :: _), e) => (.error (.error err), e)

end RangoEngine
end
end Rango
