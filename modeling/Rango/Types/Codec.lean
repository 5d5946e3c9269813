import Rango.Lib.Framing
import Rango.Types.Mutation

/-!
# Encoding

What the code takes from the `bson` crate: documents to bytes and back, oplog entries to
documents and back. `BsonCodec.RoundTrips` and `BsonCodec.Sized` are what the oplog relies
on: what was encoded is decoded again, and the lengths and numbers are those that the format
can hold.
-/

namespace Rango

abbrev Bytes := List UInt8

/-- The entry as it is stored under the sequence number it was given. -/
def OplogEntry.withSeq (e : OplogEntry) (seq : ℕ) : OplogEntry := { e with seq }

@[simp] theorem OplogEntry.withSeq_seq (e : OplogEntry) (seq : ℕ) : (e.withSeq seq).seq = seq :=
  rfl

@[simp] theorem OplogEntry.withSeq_mutation (e : OplogEntry) (seq : ℕ) :
    (e.withSeq seq).mutation = e.mutation := rfl

/-- `Document::to_writer` and `from_reader`, `serialize_to_document` and
`deserialize_from_document`. -/
class BsonCodec where
  toWriter : Document → Except String Bytes
  fromReader : Bytes → Except String Document
  serializeEntry : OplogEntry → Except String Document
  deserializeEntry : Document → Except String OplogEntry

namespace BsonCodec

/-- What was encoded is decoded again. -/
structure RoundTrips [BsonCodec] : Prop where
  reader_writer : ∀ d bytes, toWriter d = .ok bytes → fromReader bytes = .ok d
  deserialize_serialize : ∀ e d, serializeEntry e = .ok d → deserializeEntry d = .ok e

/-- What the format can hold: a document's length is an `i32` and covers at least itself and
the final zero, and a sequence number is stored as an `i64`. -/
structure Sized [BsonCodec] : Prop where
  writer_length : ∀ d bytes, toWriter d = .ok bytes → 5 ≤ bytes.length ∧ bytes.length < 2 ^ 31
  serialize_seq : ∀ e d, serializeEntry e = .ok d → e.seq < 2 ^ 63

/-! ## A codec for worked examples

The layout of BSON and of a serialized entry, for the values that occur in them. Encoding and
decoding go through a table of the documents and entries that an example uses. -/

/-- A text with its final zero. -/
def cstring (s : String) : Bytes := s.toList.flatMap String.utf8EncodeChar ++ [0]

/-- A document's bytes behind their length. -/
def enclose (content : Bytes) : Bytes := Framing.toLe 4 (content.length + 5) ++ content ++ [0]

mutual
/-- The type byte and the bytes of a value. -/
def element : Bson → Option (UInt8 × Bytes)
  | .double x => some (0x01, Framing.toLe 8 x.bits.toNat)
  | .string s => some (0x02, Framing.toLe 4 (cstring s).length ++ cstring s)
  | .document entries => (elements entries).map fun b => (0x03, enclose b)
  | .array xs => (items 0 xs).map fun b => (0x04, enclose b)
  | .boolean b => some (0x08, [if b then 1 else 0])
  | .dateTime t => some (0x09, Framing.toLe 8 (t % 2 ^ 64).toNat)
  | .null => some (0x0A, [])
  | .int32 i => some (0x10, Framing.toLe 4 (i % 2 ^ 32).toNat)
  | .int64 i => some (0x12, Framing.toLe 8 (i % 2 ^ 64).toNat)
  | _ => none

def elements : List (String × Bson) → Option Bytes
  | [] => some []
  | (k, v) :: rest =>
    match element v, elements rest with
    | some (t, b), some r => some (t :: cstring k ++ b ++ r)
    | _, _ => none

def items : ℕ → List Bson → Option Bytes
  | _, [] => some []
  | n, v :: rest =>
    match element v, items (n + 1) rest with
    | some (t, b), some r => some (t :: cstring (Nat.repr n) ++ b ++ r)
    | _, _ => none
end

/-- The bytes of a document. -/
def layout (d : Document) : Option Bytes := (elements d.entries).map enclose

/-- The fields of a serialized entry. -/
def entryDocument (e : OplogEntry) : Document :=
  let op : MutationOp → String
    | .insert => "insert"
    | .update => "update"
    | .delete => "delete"
  let origin : OplogOrigin → String
    | .localWrite => "local"
    | .remote => "remote"
    | .replay => "replay"
  let m := e.mutation
  let md := m.metadata
  ⟨[("seq", .int64 e.seq), ("timestamp", .dateTime e.timestamp),
    ("mutation", .document
      [("op", .string (op m.op)), ("collection", .string m.collection),
        ("doc_id", m.docId.bson), ("patch", m.patch.elim .null fun d => .document d.entries),
        ("seq", .int64 m.seq), ("timestamp", .dateTime m.timestamp),
        ("rev", .string m.rev.text), ("write_id", .string m.writeId),
        ("metadata", .document
          [("id", md.id.bson), ("namespace", .string md.nameSpace),
            ("tenant_id", .string md.tenantId), ("type", .string md.type),
            ("rev", .string md.rev.text), ("created_at", .dateTime md.createdAt),
            ("updated_at", .dateTime md.updatedAt), ("source", .string md.source),
            ("actor", .string md.actor), ("lineage", .string md.lineage),
            ("schema_version", .int64 md.schemaVersion), ("trust_score", .double md.trustScore),
            ("verified", md.verified.elim .null .boolean),
            ("expires_at", md.expiresAt.elim .null .dateTime)])]),
    ("origin", .string (origin e.origin)), ("applied", .boolean e.applied),
    ("snapshot_anchor", e.snapshotAnchor.elim .null .string)]⟩

section Table

/-- Encode through a table: what is listed gets its image. -/
def tableEncode {α β : Type} [DecidableEq α] (rows : List α) (image : α → Option β) (a : α) :
    Except String β :=
  if a ∈ rows then
    match image a with
    | some b => .ok b
    | none => .error "unsupported value"
  else .error "not in the table"

/-- Decode through a table: the first row with the given image. -/
def tableDecode {α β : Type} [DecidableEq β] (rows : List α) (image : α → Option β) (b : β) :
    Except String α :=
  match rows.find? fun a => image a = some b with
  | some a => .ok a
  | none => .error "not in the table"

lemma of_tableEncode {α β : Type} [DecidableEq α] {rows : List α} {image : α → Option β} {a : α}
    {b : β} (h : tableEncode rows image a = .ok b) : a ∈ rows ∧ image a = some b := by
  unfold tableEncode at h
  split_ifs at h with ha
  cases himage : image a with
  | none => rw [himage] at h; cases h
  | some b' =>
    rw [himage] at h
    exact ⟨ha, congrArg some (Except.ok.inj h)⟩

/-- A table in which no two rows have the same image is a round trip. -/
lemma tableDecode_of_tableEncode {α β : Type} [DecidableEq α] [DecidableEq β] {rows : List α}
    {image : α → Option β} (hinj : ∀ a ∈ rows, ∀ a' ∈ rows, image a = image a' → a = a')
    {a : α} {b : β} (h : tableEncode rows image a = .ok b) :
    tableDecode rows image b = .ok a := by
  obtain ⟨ha, himage⟩ := of_tableEncode h
  unfold tableDecode
  cases hf : rows.find? fun a => image a = some b with
  | none => exact absurd himage (by simpa using List.find?_eq_none.mp hf a ha)
  | some a' =>
    have ha' : image a' = some b := by simpa using List.find?_some hf
    exact congrArg Except.ok (hinj a' (List.mem_of_find?_eq_some hf) a ha (ha'.trans himage.symm))

/-- The codec that knows the given entries and documents. -/
@[reducible] def ofTable (entries : List OplogEntry) (docs : List Document) : BsonCodec where
  toWriter := tableEncode docs layout
  fromReader := tableDecode docs layout
  serializeEntry := tableEncode entries fun e => some (entryDocument e)
  deserializeEntry := tableDecode entries fun e => some (entryDocument e)

theorem ofTable_roundTrips {entries : List OplogEntry} {docs : List Document}
    (hdocs : ∀ d ∈ docs, ∀ d' ∈ docs, layout d = layout d' → d = d')
    (hentries : ∀ e ∈ entries, ∀ e' ∈ entries,
      some (entryDocument e) = some (entryDocument e') → e = e') :
    @RoundTrips (ofTable entries docs) :=
  @RoundTrips.mk (ofTable entries docs) (fun _ _ => tableDecode_of_tableEncode hdocs)
    fun _ _ => tableDecode_of_tableEncode hentries

theorem ofTable_sized {entries : List OplogEntry} {docs : List Document}
    (hdocs : ∀ d ∈ docs, ∀ b ∈ layout d, 5 ≤ b.length ∧ b.length < 2 ^ 31)
    (hentries : ∀ e ∈ entries, e.seq < 2 ^ 63) : @Sized (ofTable entries docs) := by
  refine @Sized.mk (ofTable entries docs) (fun d bytes h => ?_) (fun e d h => ?_)
  · obtain ⟨hd, hb⟩ := of_tableEncode h
    exact hdocs d hd bytes hb
  · exact hentries e (of_tableEncode h).1

end Table

end BsonCodec

end Rango
