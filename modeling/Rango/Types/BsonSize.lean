import Rango.Types.Codec

/-!
# The size of a document

How many bytes BSON takes for a value, for a field and for a document, and what an insert changes
of it (`Document.encodedSize_insert`). `BsonCodec.Measured` says that the codec writes that many.
-/

namespace Rango

/-- The bytes of a text. -/
def utf8Size (s : String) : ℕ := (s.toList.flatMap String.utf8EncodeChar).length

mutual
/-- The bytes of a value, without its type and its key. -/
def Bson.encodedSize : Bson → ℕ
  | .double _ => 8
  | .string s => 4 + (utf8Size s + 1)
  | .document entries => entriesSize entries + 5
  | .array xs => itemsSize 0 xs + 5
  | .boolean _ => 1
  | .null => 0
  | .regularExpression pattern options => (utf8Size pattern + 1) + (utf8Size options + 1)
  | .javaScriptCode code => 4 + (utf8Size code + 1)
  | .javaScriptCodeWithScope code scope =>
    4 + (4 + (utf8Size code + 1)) + (entriesSize scope + 5)
  | .int32 _ => 4
  | .int64 _ => 8
  | .timestamp _ _ => 8
  -- the old subtype repeats the length
  | .binary subtype bytes => 4 + 1 + (if subtype = 2 then 4 else 0) + bytes.length
  | .objectId bytes => bytes.length
  | .dateTime _ => 8
  | .symbol s => 4 + (utf8Size s + 1)
  | .decimal128 bytes => bytes.length
  | .undefined => 0
  | .maxKey => 0
  | .minKey => 0
  | .dbPointer ns id => 4 + (utf8Size ns + 1) + id.length

/-- The bytes of the fields of a document. -/
def entriesSize : List (String × Bson) → ℕ
  | [] => 0
  | (k, v) :: rest => 1 + (utf8Size k + 1) + v.encodedSize + entriesSize rest

/-- The bytes of the elements of an array, the first under the given index. -/
def itemsSize : ℕ → List Bson → ℕ
  | _, [] => 0
  | n, v :: rest => 1 + (utf8Size (Nat.repr n) + 1) + v.encodedSize + itemsSize (n + 1) rest
end

/-- The bytes of a field. -/
def fieldSize (k : String) (v : Bson) : ℕ := 1 + (utf8Size k + 1) + v.encodedSize

lemma entriesSize_eq_sum (entries : List (String × Bson)) :
    entriesSize entries = (entries.map fun e => fieldSize e.1 e.2).sum := by
  induction entries with
  | nil => rw [entriesSize, List.map_nil, List.sum_nil]
  | cons e rest ih => rw [entriesSize, List.map_cons, List.sum_cons, ih, fieldSize]

/-- The keys of the first ten elements have one digit. -/
lemma itemsSize_of_le {n : ℕ} {xs : List Bson} (h : n + xs.length ≤ 10) :
    itemsSize n xs = (xs.map fun x => x.encodedSize + 3).sum := by
  have hdigit : ∀ i < 10, utf8Size (Nat.repr i) = 1 := by decide
  induction xs generalizing n with
  | nil => rw [itemsSize, List.map_nil, List.sum_nil]
  | cons x rest ih =>
    rw [List.length_cons] at h
    rw [itemsSize, List.map_cons, List.sum_cons, ih (by omega), hdigit n (by omega)]
    omega

namespace Document

/-- The bytes of a document. -/
def encodedSize (d : Document) : ℕ := entriesSize d.entries + 5

/-- The bytes that the field under a key takes, if it is there. -/
def held (d : Document) (k : String) : ℕ := (d.get k).elim 0 (fieldSize k)

/-- An insert puts the new field's bytes in the place of the old one's. -/
lemma encodedSize_insert (d : Document) (k : String) (v : Bson) :
    (d.insert k v).encodedSize + d.held k = d.encodedSize + fieldSize k v := by
  have hsum := IndexMap.sum_map_insert fieldSize d.entries k v
  rw [← entriesSize_eq_sum, ← entriesSize_eq_sum] at hsum
  show entriesSize (IndexMap.insert d.entries k v) + 5 +
    (IndexMap.get d.entries k).elim 0 (fieldSize k) = entriesSize d.entries + 5 + fieldSize k v
  omega

lemma held_insert_of_ne (d : Document) {k k' : String} (v : Bson) (h : k ≠ k') :
    (d.insert k v).held k' = d.held k' := by
  rw [held, get_insert_of_ne _ _ h, held]

end Document

/-! ## The codec -/

namespace BsonCodec

/-- A document is written in as many bytes as it takes. -/
def Measured [BsonCodec] : Prop :=
  ∀ d bytes, toWriter d = .ok bytes → bytes.length = d.encodedSize

lemma length_cstring (s : String) : (cstring s).length = utf8Size s + 1 := by
  rw [cstring, List.length_append, utf8Size, List.length_singleton]

lemma length_enclose (content : Bytes) : (enclose content).length = content.length + 5 := by
  rw [enclose, List.length_append, List.length_append, Framing.length_toLe, List.length_singleton]
  omega

mutual
lemma length_element : ∀ (v : Bson) {t : UInt8} {b : Bytes}, element v = some (t, b) →
    b.length = v.encodedSize
  | .double _, _, _, h => by cases h; simp [Bson.encodedSize]
  | .string s, _, _, h => by cases h; simp [Bson.encodedSize, length_cstring]
  | .boolean _, _, _, h => by cases h; simp [Bson.encodedSize]
  | .dateTime _, _, _, h => by cases h; simp [Bson.encodedSize]
  | .null, _, _, h => by cases h; simp [Bson.encodedSize]
  | .int32 _, _, _, h => by cases h; simp [Bson.encodedSize]
  | .int64 _, _, _, h => by cases h; simp [Bson.encodedSize]
  | .document entries, _, _, h => by
    rw [element] at h
    obtain ⟨b, hb, hout⟩ := Option.map_eq_some_iff.mp h
    cases hout
    rw [length_enclose, length_elements entries hb, Bson.encodedSize]
  | .array xs, _, _, h => by
    rw [element] at h
    obtain ⟨b, hb, hout⟩ := Option.map_eq_some_iff.mp h
    cases hout
    rw [length_enclose, length_items xs hb, Bson.encodedSize]

lemma length_elements : ∀ (entries : List (String × Bson)) {b : Bytes},
    elements entries = some b → b.length = entriesSize entries
  | [], b, h => by
    rw [elements] at h
    cases h
    rw [entriesSize, List.length_nil]
  | (k, v) :: rest, b, h => by
    rw [elements] at h
    split at h
    · next t bv r hv hrest =>
      cases h
      rw [entriesSize, ← length_element v hv, ← length_elements rest hrest]
      simp [length_cstring]
      omega
    · cases h

lemma length_items : ∀ (xs : List Bson) {n : ℕ} {b : Bytes}, items n xs = some b →
    b.length = itemsSize n xs
  | [], n, b, h => by
    rw [items] at h
    cases h
    rw [itemsSize, List.length_nil]
  | v :: rest, n, b, h => by
    rw [items] at h
    split at h
    · next t bv r hv hrest =>
      cases h
      rw [itemsSize, ← length_element v hv, ← length_items rest hrest]
      simp [length_cstring]
      omega
    · cases h
end

/-- A codec that goes through a table writes as many bytes as a document takes. -/
theorem ofTable_measured (entries : List OplogEntry) (docs : List Document) :
    @Measured (ofTable entries docs) := by
  intro d bytes h
  obtain ⟨content, hcontent, rfl⟩ := Option.map_eq_some_iff.mp (of_tableEncode h).2
  rw [length_enclose, length_elements _ hcontent, Document.encodedSize]

end BsonCodec
end Rango
