import Rango.Storage.Engine
import Mathlib.Data.List.AList

/-!
# The in-memory backend

`MemoryStorage` keeps one hash map for each collection, keyed by the encoded document key.
BSON encoding and decoding of the stored bytes is taken as a round trip, so the documents
themselves are stored. A hash map's iteration order is the order of the association list.
-/

namespace Rango

/-- The key of a document: collection, a NUL, printed id. -/
def encodeKey (collection : CollectionName) (id : String) : String :=
  collection.name ++ "\x00" ++ id

/-- The id part of an encoded key. -/
def decodeKey (collection : CollectionName) (key : String) : String :=
  String.ofList (key.toList.drop (collection.name.toList.length + 1))

@[simp] theorem decodeKey_encodeKey (c : CollectionName) (id : String) :
    decodeKey c (encodeKey c id) = id := by
  simp [decodeKey, encodeKey, List.drop_append]

theorem encodeKey_injective (c : CollectionName) : Function.Injective (encodeKey c) :=
  fun a b h => by rw [← decodeKey_encodeKey c a, h, decodeKey_encodeKey]

/-- The documents of one collection, by encoded key. -/
abbrev MemoryCollection := AList fun _ : String => Document

/-- `MemoryStorage`. Every key of a collection's map carries the collection's prefix. -/
structure MemoryStorage where
  data : AList fun _ : String => MemoryCollection
  keys_encoded : ∀ c coll, data.lookup c.name = some coll →
    ∀ key ∈ coll, ∃ id, key = encodeKey c id

namespace MemoryStorage

/-- `MemoryStorage::new`. -/
def new : MemoryStorage := ⟨∅, by simp⟩

/-- The map of a collection, empty when the collection was never written. -/
def collection (s : MemoryStorage) (c : CollectionName) : MemoryCollection :=
  (s.data.lookup c.name).getD ∅

theorem mem_collection (s : MemoryStorage) (c : CollectionName) {key : String}
    (h : key ∈ s.collection c) : ∃ id, key = encodeKey c id := by
  unfold collection at h
  cases hc : s.data.lookup c.name with
  | none => simp [hc] at h
  | some coll => exact s.keys_encoded c coll hc key (by simpa [hc] using h)

/-- The storage with the map of one collection replaced. -/
def setCollection (s : MemoryStorage) (c : CollectionName) (coll : MemoryCollection)
    (h : ∀ key ∈ coll, ∃ id, key = encodeKey c id) : MemoryStorage where
  data := s.data.insert c.name coll
  keys_encoded := by
    intro c' coll' hlook key hkey
    by_cases hc : c'.name = c.name
    · have hc' : c' = c := by cases c'; cases c; simpa using hc
      subst hc'
      rw [AList.lookup_insert] at hlook
      exact h key (Option.some.inj hlook ▸ hkey)
    · rw [AList.lookup_insert_ne hc] at hlook
      exact s.keys_encoded c' coll' hlook key hkey

variable [Formatting]

def get (c : CollectionName) (id : DocumentId) (s : MemoryStorage) :
    Except RangoError (Option Document) × MemoryStorage :=
  (.ok ((s.collection c).lookup (encodeKey c id.toString)), s)

def put (c : CollectionName) (id : DocumentId) (doc : Document) (s : MemoryStorage) :
    Except RangoError Unit × MemoryStorage :=
  (.ok (), s.setCollection c ((s.collection c).insert (encodeKey c id.toString) doc) (by
    intro key hkey
    rcases (AList.mem_insert _).mp hkey with rfl | hmem
    · exact ⟨_, rfl⟩
    · exact s.mem_collection c hmem))

def delete (c : CollectionName) (id : DocumentId) (s : MemoryStorage) :
    Except RangoError Bool × MemoryStorage :=
  match s.data.lookup c.name with
  | none => (.ok false, s)
  | some _ =>
    (.ok ((s.collection c).lookup (encodeKey c id.toString)).isSome,
      s.setCollection c ((s.collection c).erase (encodeKey c id.toString)) (by
        intro key hkey
        exact s.mem_collection c (AList.mem_erase.mp hkey).2))

def scan (c : CollectionName) (s : MemoryStorage) :
    Except RangoError (List (Except RangoError Document)) × MemoryStorage :=
  (.ok ((s.collection c).entries.map fun e => .ok e.2), s)

/-- The map that the backend's state denotes. -/
def view (s : MemoryStorage) : DocMap := fun c k => (s.collection c).lookup (encodeKey c k)

omit [Formatting] in
theorem collection_setCollection (s : MemoryStorage) (c c' : CollectionName)
    (coll : MemoryCollection) (h : ∀ key ∈ coll, ∃ id, key = encodeKey c id) :
    (s.setCollection c coll h).collection c' = if c' = c then coll else s.collection c' := by
  by_cases hc : c' = c
  · subst hc; simp [collection, setCollection]
  · have hname : c'.name ≠ c.name := fun hn => hc (by cases c'; cases c; simpa using hn)
    simp [collection, setCollection, AList.lookup_insert_ne hname, hc]

theorem view_put (c : CollectionName) (id : DocumentId) (doc : Document) (s : MemoryStorage) :
    (put c id doc s).2.view = s.view.set c id.toString (some doc) := by
  funext c' k
  simp only [view, put, collection_setCollection, DocMap.set]
  by_cases hc : c' = c
  · subst hc
    by_cases hk : k = id.toString
    · subst hk; simp
    · have hne : encodeKey c' k ≠ encodeKey c' id.toString :=
        fun h => hk (encodeKey_injective c' h)
      simp [hk, AList.lookup_insert_ne hne]
  · simp [hc]

theorem view_delete (c : CollectionName) (id : DocumentId) (s : MemoryStorage) :
    (delete c id s).2.view = s.view.set c id.toString none := by
  funext c' k
  unfold delete
  cases hc : s.data.lookup c.name with
  | none =>
    by_cases h : c' = c ∧ k = id.toString
    · obtain ⟨rfl, rfl⟩ := h
      simp [DocMap.set, view, collection, hc]
    · rw [DocMap.set_of_ne _ _ h]
  | some coll =>
    simp only [view, collection_setCollection, DocMap.set]
    by_cases hcc : c' = c
    · subst hcc
      by_cases hk : k = id.toString
      · subst hk; simp
      · have hne : encodeKey c' k ≠ encodeKey c' id.toString :=
          fun h => hk (encodeKey_injective c' h)
        simp [hk, AList.lookup_erase_ne hne]
    · simp [hcc]

theorem delete_ok (c : CollectionName) (id : DocumentId) (s : MemoryStorage) :
    (delete c id s).1 = .ok (s.view c id.toString).isSome := by
  unfold delete view
  cases hc : s.data.lookup c.name with
  | none => simp [collection, hc]
  | some coll => rfl

omit [Formatting] in
theorem scan_eq (c : CollectionName) (s : MemoryStorage) :
    ∃ docs : List (String × Document),
      scan c s = (.ok (docs.map fun e => .ok e.2), s) ∧ (docs.map Prod.fst).Nodup ∧
        ∀ k d, (k, d) ∈ docs ↔ s.view c k = some d := by
  refine ⟨(s.collection c).entries.map fun e => (decodeKey c e.1, e.2), ?_, ?_, ?_⟩
  · simp [scan, Function.comp_def]
  · have hnodup : ((s.collection c).entries.map Sigma.fst).Nodup := (s.collection c).keys_nodup
    rw [List.map_map, show Prod.fst ∘ (fun e : (_ : String) × Document => (decodeKey c e.1, e.2))
      = decodeKey c ∘ Sigma.fst from rfl, ← List.map_map]
    refine hnodup.map_on ?_
    intro a ha b hb hab
    obtain ⟨ia, rfl⟩ := s.mem_collection c ha
    obtain ⟨ib, rfl⟩ := s.mem_collection c hb
    rw [decodeKey_encodeKey, decodeKey_encodeKey] at hab
    rw [hab]
  · intro k d
    rw [view, ← Option.mem_def, AList.mem_lookup_iff, List.mem_map]
    constructor
    · rintro ⟨⟨key, d'⟩, hmem, heq⟩
      obtain ⟨id, rfl⟩ := s.mem_collection c (List.mem_map_of_mem (f := Sigma.fst) hmem)
      simp only [decodeKey_encodeKey, Prod.mk.injEq] at heq
      rw [← heq.1, ← heq.2]
      exact hmem
    · intro hmem
      exact ⟨_, hmem, by simp⟩

instance : StorageEngine MemoryStorage where
  get := get
  put := put
  delete := delete
  scan := scan

/-- `range` lists nothing. -/
instance : RangeStorage MemoryStorage where
  range _ _ _ s := (.ok [], s)

instance : MapStorage MemoryStorage where
  toDocMap := view
  get_eq _ _ _ := rfl
  put_ok _ _ _ _ := rfl
  toDocMap_put := view_put
  delete_ok := delete_ok
  toDocMap_delete := view_delete
  scan_eq := scan_eq

theorem docMap_new : docMap new = DocMap.empty := rfl

end MemoryStorage
end Rango
