import Rango.Types.Id

/-!
# Storage engines

`StorageEngine` is the interface the engine calls: every operation acts on the backend's
own state and may fail. `MapStorage` adds what a backend that never fails is for: it is a
map from a collection and a printed document id to a document, and scanning a collection
lists that map. `DocMap` is the map itself, the abstract state that the results about the
engine speak of.
-/

namespace Rango

/-- The trait `StorageEngine`, for a backend with state `σ`. -/
class StorageEngine (σ : Type) where
  get : CollectionName → DocumentId → σ → Except RangoError (Option Document) × σ
  put : CollectionName → DocumentId → Document → σ → Except RangoError Unit × σ
  delete : CollectionName → DocumentId → σ → Except RangoError Bool × σ
  scan : CollectionName → σ → Except RangoError (List (Except RangoError Document)) × σ

/-- A backend with the trait's `range`. -/
class RangeStorage (σ : Type) extends StorageEngine σ where
  range : CollectionName → Option (List UInt8) → Option (List UInt8) → σ →
    Except RangoError (List (Except RangoError (List UInt8 × Document))) × σ

/-! ## Document maps -/

/-- The documents of every collection, by printed id. -/
abbrev DocMap := CollectionName → String → Option Document

namespace DocMap

def empty : DocMap := fun _ _ => none

/-- The map with one place overwritten. -/
def set (D : DocMap) (c : CollectionName) (k : String) (v : Option Document) : DocMap :=
  fun c' k' => if c' = c ∧ k' = k then v else D c' k'

@[simp] theorem set_self (D : DocMap) (c : CollectionName) (k : String) (v : Option Document) :
    D.set c k v c k = v := by
  simp [set]

theorem set_of_ne (D : DocMap) {c c' : CollectionName} {k k' : String} (v : Option Document)
    (h : ¬ (c' = c ∧ k' = k)) : D.set c k v c' k' = D c' k' := by
  simp only [set, if_neg h]

theorem set_of_collection_ne (D : DocMap) {c c' : CollectionName} (k k' : String)
    (v : Option Document) (h : c' ≠ c) : D.set c k v c' k' = D c' k' :=
  D.set_of_ne v fun hc => h hc.1

theorem set_of_key_ne (D : DocMap) {c c' : CollectionName} {k k' : String}
    (v : Option Document) (h : k' ≠ k) : D.set c k v c' k' = D c' k' :=
  D.set_of_ne v fun hc => h hc.2

/-- What the map then holds is what was written, or was there before. -/
theorem of_set {D : DocMap} {c c' : CollectionName} {k k' : String} {v : Option Document}
    {d : Document} (h : D.set c k v c' k' = some d) :
    (c' = c ∧ k' = k ∧ v = some d) ∨ D c' k' = some d := by
  by_cases hk : c' = c ∧ k' = k
  · rw [hk.1, hk.2, set_self] at h
    exact .inl ⟨hk.1, hk.2, h⟩
  · rw [set_of_ne _ _ hk] at h
    exact .inr h

/-- The last write to a place decides. -/
theorem set_set (D : DocMap) (c : CollectionName) (k : String) (v v' : Option Document) :
    (D.set c k v).set c k v' = D.set c k v' := by
  funext c' k'
  by_cases h : c' = c ∧ k' = k
  · rw [h.1, h.2, set_self, set_self]
  · rw [set_of_ne _ _ h, set_of_ne _ _ h, set_of_ne _ _ h]

/-- Writing what is there changes nothing. -/
theorem set_get (D : DocMap) (c : CollectionName) (k : String) : D.set c k (D c k) = D := by
  funext c' k'
  by_cases h : c' = c ∧ k' = k
  · rw [h.1, h.2, set_self]
  · exact D.set_of_ne _ h

end DocMap

/-! ## Backends that are maps -/

/-- A backend that behaves as a map from collection and printed id to document. -/
class MapStorage (σ : Type) [Formatting] extends StorageEngine σ where
  toDocMap : σ → DocMap
  get_eq : ∀ c id s, get c id s = (.ok (toDocMap s c id.toString), s)
  put_ok : ∀ c id d s, (put c id d s).1 = .ok ()
  toDocMap_put : ∀ c id d s,
    toDocMap (put c id d s).2 = (toDocMap s).set c id.toString (some d)
  delete_ok : ∀ c id s, (delete c id s).1 = .ok (toDocMap s c id.toString).isSome
  toDocMap_delete : ∀ c id s,
    toDocMap (delete c id s).2 = (toDocMap s).set c id.toString none
  /-- A scan lists the collection, each document once, in some order. -/
  scan_eq : ∀ c s, ∃ docs : List (String × Document),
    scan c s = (.ok (docs.map fun e => .ok e.2), s) ∧ (docs.map Prod.fst).Nodup ∧
      ∀ k d, (k, d) ∈ docs ↔ toDocMap s c k = some d

section
variable {σ : Type} [Formatting] [MapStorage σ]

/-- The map that a backend's state denotes. -/
def docMap (s : σ) : DocMap := MapStorage.toDocMap s

theorem storage_get_eq (c : CollectionName) (id : DocumentId) (s : σ) :
    StorageEngine.get c id s = (.ok (docMap s c id.toString), s) := MapStorage.get_eq c id s

theorem storage_put_eq (c : CollectionName) (id : DocumentId) (d : Document) (s : σ) :
    ∃ s' : σ, StorageEngine.put c id d s = (.ok (), s') ∧
      docMap s' = (docMap s).set c id.toString (some d) :=
  ⟨_, Prod.ext (MapStorage.put_ok c id d s) rfl, MapStorage.toDocMap_put c id d s⟩

theorem storage_delete_eq (c : CollectionName) (id : DocumentId) (s : σ) :
    ∃ s' : σ, StorageEngine.delete c id s = (.ok (docMap s c id.toString).isSome, s') ∧
      docMap s' = (docMap s).set c id.toString none :=
  ⟨_, Prod.ext (MapStorage.delete_ok c id s) rfl, MapStorage.toDocMap_delete c id s⟩

theorem storage_scan_eq (c : CollectionName) (s : σ) : ∃ docs : List (String × Document),
    StorageEngine.scan c s = (.ok (docs.map fun e => .ok e.2), s) ∧
      (docs.map Prod.fst).Nodup ∧ ∀ k d, (k, d) ∈ docs ↔ docMap s c k = some d :=
  MapStorage.scan_eq c s

end

end Rango
