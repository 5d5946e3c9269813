import Rango.Storage.Memory

/-!
# The redb backend

`RedbStorage` keeps the documents of all collections in one table, ordered by the encoded
key: collection, a zero byte, printed id. A scan walks the table and keeps what starts with
the collection and the zero byte. redb is taken as an ordered map, and BSON encoding and
decoding of the stored bytes as a round trip, as for the in-memory backend.
-/

namespace Rango

/-- `str::as_bytes`. -/
def asBytes (s : String) : List UInt8 := s.toUTF8.data.toList

theorem asBytes_injective : Function.Injective asBytes := by
  intro s t h
  refine String.toByteArray_inj.mp (ByteArray.ext ?_)
  exact Array.ext' h

/-- `RedbStorage`, the table `documents` of its database. -/
structure RedbStorage where
  table : Std.TreeMap (List UInt8) Document

namespace RedbStorage

/-- `RedbStorage::open` on a path without a database. -/
def openNew : RedbStorage := ⟨∅⟩

/-- `RedbStorage::encode_key`. -/
def encodeKey (collection : CollectionName) (id : String) : List UInt8 :=
  asBytes collection.name ++ [0] ++ asBytes id

/-- `RedbStorage::collection_prefix`. -/
def collectionPrefix (collection : CollectionName) : List UInt8 :=
  asBytes collection.name ++ [0]

theorem collectionPrefix_prefix_encodeKey (c : CollectionName) (id : String) :
    collectionPrefix c <+: encodeKey c id := List.prefix_append _ _

/-- In one collection, different ids have different keys. -/
theorem encodeKey_injective (c : CollectionName) : Function.Injective (encodeKey c) :=
  fun _ _ h => asBytes_injective (List.append_cancel_left h)

/-- A key that starts as those of another collection: one of the two names starts with the
other and a zero byte. -/
theorem prefix_encodeKey {c c' : CollectionName} {id : String}
    (h : collectionPrefix c <+: encodeKey c' id) :
    c = c' ∨ collectionPrefix c <+: asBytes c'.name ∨ collectionPrefix c' <+: asBytes c.name := by
  have hc : asBytes c.name <+: encodeKey c' id := (List.prefix_append _ _).trans h
  rcases lt_trichotomy (asBytes c.name).length (asBytes c'.name).length with hlt | heq | hgt
  · refine Or.inr (Or.inl (List.prefix_of_prefix_length_le h
      ((List.prefix_append _ [0]).trans (collectionPrefix_prefix_encodeKey c' id)) ?_))
    rw [collectionPrefix, List.length_append]
    exact hlt
  · have hpre : asBytes c'.name <+: encodeKey c' id :=
      (List.prefix_append _ [0]).trans (collectionPrefix_prefix_encodeKey c' id)
    have hname : asBytes c.name = asBytes c'.name :=
      (List.prefix_of_prefix_length_le hc hpre heq.le).eq_of_length heq
    refine Or.inl ?_
    cases c
    cases c'
    exact congrArg _ (asBytes_injective hname)
  · refine Or.inr (Or.inr (List.prefix_of_prefix_length_le
      (collectionPrefix_prefix_encodeKey c' id) hc ?_))
    rw [collectionPrefix, List.length_append]
    exact hgt

variable [Formatting]

def get (c : CollectionName) (id : DocumentId) (s : RedbStorage) :
    Except RangoError (Option Document) × RedbStorage :=
  (.ok s.table[encodeKey c id.toString]?, s)

def put (c : CollectionName) (id : DocumentId) (doc : Document) (s : RedbStorage) :
    Except RangoError Unit × RedbStorage :=
  (.ok (), ⟨s.table.insert (encodeKey c id.toString) doc⟩)

def delete (c : CollectionName) (id : DocumentId) (s : RedbStorage) :
    Except RangoError Bool × RedbStorage :=
  (.ok s.table[encodeKey c id.toString]?.isSome, ⟨s.table.erase (encodeKey c id.toString)⟩)

def scan (c : CollectionName) (s : RedbStorage) :
    Except RangoError (List (Except RangoError Document)) × RedbStorage :=
  (.ok ((s.table.toList.filter fun row => (collectionPrefix c).isPrefixOf row.1).map
    fun row => .ok row.2), s)

instance : StorageEngine RedbStorage where
  get := get
  put := put
  delete := delete
  scan := scan

end RedbStorage

/-! ## Calls -/

/-- One call of the trait, as any code makes it. -/
inductive StorageCall where
  | get (c : CollectionName) (id : DocumentId)
  | put (c : CollectionName) (id : DocumentId) (doc : Document)
  | delete (c : CollectionName) (id : DocumentId)
  | scan (c : CollectionName)

/-- What a call returns. -/
inductive StorageAnswer where
  | get (found : Except RangoError (Option Document))
  | put (done : Except RangoError Unit)
  | delete (existed : Except RangoError Bool)
  | scan (listed : Except RangoError (List (Except RangoError Document)))
deriving DecidableEq

/-- The documents that a scan lists. -/
def StorageAnswer.docs : StorageAnswer → List Document
  | .scan (.ok listed) => listed.filterMap Except.toOption
  | _ => []

/-- Two answers are the same, those of scans as multisets. -/
def StorageAnswer.Same : StorageAnswer → StorageAnswer → Prop
  | .scan (.ok xs), .scan (.ok ys) => xs.Perm ys
  | a, b => a = b

namespace StorageCall

def collection : StorageCall → CollectionName
  | .get c _ => c
  | .put c _ _ => c
  | .delete c _ => c
  | .scan c => c

def isPut : StorageCall → Bool
  | .put .. => true
  | _ => false

section
variable {σ : Type} [StorageEngine σ]

/-- The answer of a backend, and the state it is left in. -/
def perform (s : σ) : StorageCall → StorageAnswer × σ
  | .get c id => (.get (StorageEngine.get c id s).1, (StorageEngine.get c id s).2)
  | .put c id doc => (.put (StorageEngine.put c id doc s).1, (StorageEngine.put c id doc s).2)
  | .delete c id => (.delete (StorageEngine.delete c id s).1, (StorageEngine.delete c id s).2)
  | .scan c => (.scan (StorageEngine.scan c s).1, (StorageEngine.scan c s).2)

/-- The state that a call leaves. -/
def next (s : σ) (x : StorageCall) : σ := (x.perform s).2

end
end StorageCall
end Rango
