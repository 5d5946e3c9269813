import Rango.Storage.Redb
import Rango.Types.Revision
import Mathlib

/-!
# Document ids as keys

Both backends file a document under the printed form of its id, so that ids which print alike
share one place. Strings are printed in quotes, ObjectIds and UUIDs by their digits, and a number
by its value, whichever type it has. `different_ids_apart_iff` says which ids that leaves apart.
-/

namespace Rango

/-! ## Hexadecimal digits -/

lemma length_hex (bytes : List UInt8) : (hex bytes).length = 2 * bytes.length := by
  induction bytes with
  | nil => rfl
  | cons b rest ih =>
    rw [hex, List.flatMap_cons, List.length_append, ← hex, ih, List.length_cons]
    simp [hexByte]
    omega

lemma hexByte_injective : Function.Injective hexByte := by
  have hdigit : ∀ m < 16, ∀ n < 16, Nat.digitChar m = Nat.digitChar n → m = n := by decide
  intro a b h
  obtain ⟨hhigh, hlow⟩ : Nat.digitChar (a.toNat / 16) = Nat.digitChar (b.toNat / 16) ∧
      Nat.digitChar (a.toNat % 16) = Nat.digitChar (b.toNat % 16) := by
    simpa [hexByte] using h
  have ha := a.toNat_lt
  have hb := b.toNat_lt
  have hdiv := hdigit _ (by omega) _ (by omega) hhigh
  have hmod := hdigit _ (by omega) _ (by omega) hlow
  exact UInt8.toNat_inj.mp (by omega)

lemma hex_injective : Function.Injective hex := by
  intro xs ys h
  induction xs generalizing ys with
  | nil =>
    cases ys with
    | nil => rfl
    | cons y ys => simp [hex, hexByte] at h
  | cons x xs ih =>
    cases ys with
    | nil => simp [hex, hexByte] at h
    | cons y ys =>
      rw [hex, List.flatMap_cons, hex, List.flatMap_cons] at h
      obtain ⟨hbyte, hrest⟩ := List.append_inj h rfl
      rw [hexByte_injective hbyte, ih hrest]

lemma mem_hex {bytes : List UInt8} {c : Char} (h : c ∈ hex bytes) : c ≠ '-' ∧ c ≠ '"' := by
  have hdigit : ∀ n < 16, Nat.digitChar n ≠ '-' ∧ Nat.digitChar n ≠ '"' := by decide
  obtain ⟨b, -, hc⟩ := List.mem_flatMap.mp h
  have hb := b.toNat_lt
  rcases List.mem_pair.mp hc with rfl | rfl
  · exact hdigit _ (by omega)
  · exact hdigit _ (by omega)

namespace DocumentId

/-- Without the dashes a UUID is its digits. -/
lemma filter_uuidDisplay (bytes : List UInt8) :
    (uuidDisplay bytes).filter (· ≠ '-') = hex bytes := by
  have hkeep : ∀ bs : List UInt8, (hex bs).filter (· ≠ '-') = hex bs := fun bs =>
    List.filter_eq_self.mpr fun c hc => by simpa using (mem_hex hc).1
  have hsplit : bytes = bytes.take 4 ++ ((bytes.drop 4).take 2 ++ ((bytes.drop 6).take 2 ++
      ((bytes.drop 8).take 2 ++ bytes.drop 10))) := by
    have hdrop : ∀ n, bytes.drop n = (bytes.drop n).take 2 ++ bytes.drop (n + 2) := by
      intro n
      rw [← List.drop_drop]
      exact (List.take_append_drop 2 (bytes.drop n)).symm
    rw [← hdrop 8, ← hdrop 6, ← hdrop 4, List.take_append_drop]
  have hdash : ∀ bs : List UInt8, ('-' :: hex bs).filter (· ≠ '-') = hex bs := fun bs => by
    rw [List.filter_cons_of_neg (by simp), hkeep]
  rw [uuidDisplay, List.filter_append, List.filter_append, List.filter_append,
    List.filter_append, hkeep, hdash, hdash, hdash, hdash]
  conv_rhs => rw [hsplit]
  simp only [hex, List.flatMap_append, List.append_assoc]

lemma uuidDisplay_injective : Function.Injective uuidDisplay := fun a b h =>
  hex_injective (by rw [← filter_uuidDisplay, h, filter_uuidDisplay])

lemma uuidDisplay_dash {bytes : List UInt8} (h : bytes.length = 16) :
    (uuidDisplay bytes)[8]? = some '-' := by
  have hlength : (hex (bytes.take 4)).length = 8 := by
    rw [length_hex, List.length_take, h]
    rfl
  simp [uuidDisplay, hlength]

lemma uuidDisplay_head {bytes : List UInt8} (h : bytes.length = 16) :
    (uuidDisplay bytes).head? ≠ some '"' := by
  intro hquote
  have hlength : (hex (bytes.take 4)).length = 8 := by
    rw [length_hex, List.length_take, h]
    rfl
  cases hhex : hex (bytes.take 4) with
  | nil =>
    rw [hhex] at hlength
    cases hlength
  | cons c rest =>
    have hc : c ∈ hex (bytes.take 4) := by simp [hhex]
    refine (mem_hex hc).2 ?_
    simpa [uuidDisplay, hhex] using hquote

end DocumentId

/-! ## How ids are printed -/

/-- What `bson` prints: strings in quotes, integers as decimal numerals, doubles as Rust prints
them, which is without quotes and with no dash but a first one. -/
structure Prints [Formatting] : Prop where
  string : ∀ s, Formatting.bsonDisplay (.string s) = "\"" ++ s ++ "\""
  int32 : ∀ i, Formatting.bsonDisplay (.int32 i) = Int.repr i
  int64 : ∀ i, Formatting.bsonDisplay (.int64 i) = Int.repr i
  double : ∀ x, Formatting.bsonDisplay (.double x) = Formatting.f64Display x
  double_head : ∀ x, (Formatting.f64Display x).toList.head? ≠ some '"'
  double_tail : ∀ x, '-' ∉ (Formatting.f64Display x).toList.tail

/-- Ids as the types of `bson` hold them: integers are in range, and an ObjectId has twelve
bytes. -/
def DocumentId.Typed (id : DocumentId) : Prop :=
  match id.bson with
  | .int32 i => -2 ^ 31 ≤ i ∧ i < 2 ^ 31
  | .int64 i => -2 ^ 63 ≤ i ∧ i < 2 ^ 63
  | .objectId bytes => bytes.length = 12
  | _ => True

/-- The kinds of ids whose printed form is known. -/
inductive IdKind where
  | text
  | uuid
  | objectId
  | number
deriving DecidableEq

/-- The kind of an id, unless it is a double or of another type. -/
def Bson.idKind : Bson → Option IdKind
  | .string _ => some .text
  | .binary subtype bytes =>
    if subtype = DocumentId.uuidSubtype ∧ bytes.length = 16 then some .uuid else none
  | .objectId _ => some .objectId
  | .int32 _ => some .number
  | .int64 _ => some .number
  | _ => none

/-- The value of an integer of either type. -/
def Bson.wholeNumber : Bson → Option ℤ
  | .int32 i => some i
  | .int64 i => some i
  | _ => none

/-- Integers of the same value. -/
def SameInteger (a b : Bson) : Prop := ∃ n, a.wholeNumber = some n ∧ b.wholeNumber = some n

/-- The kind that a printed form shows: it is quoted, it has a dash after eight digits, or it is as
long as an ObjectId. -/
def IdKind.ofPrinted (s : List Char) : IdKind :=
  if s.head? = some '"' then .text
  else if s[8]? = some '-' then .uuid
  else if s.length = 24 then .objectId
  else .number

section
variable [Formatting]

/-- How an id of each kind is printed. -/
inductive Printed (id : DocumentId) : IdKind → Prop
  | text (s : String) (hbson : id.bson = .string s)
      (hprint : id.toString = "\"" ++ s ++ "\"") : Printed id .text
  | uuid (bytes : List UInt8) (hbson : id.bson = .binary DocumentId.uuidSubtype bytes)
      (hlength : bytes.length = 16)
      (hprint : id.toString = String.ofList (DocumentId.uuidDisplay bytes)) : Printed id .uuid
  | objectId (bytes : List UInt8) (hbson : id.bson = .objectId bytes) (hlength : bytes.length = 12)
      (hprint : id.toString = String.ofList (hex bytes)) : Printed id .objectId
  | number (n : ℤ) (hbson : id.bson.wholeNumber = some n) (hrange : n.natAbs < 10 ^ 19)
      (hprint : id.toString = Int.repr n) : Printed id .number

lemma printed_of_kind (hprints : Prints) {id : DocumentId} (ht : id.Typed) {kind : IdKind}
    (hkind : id.bson.idKind = some kind) : Printed id kind := by
  obtain ⟨b⟩ := id
  cases b with
  | string s =>
    obtain rfl := Option.some.inj hkind
    exact .text s rfl (hprints.string s)
  | objectId bytes =>
    obtain rfl := Option.some.inj hkind
    exact .objectId bytes rfl ht rfl
  | int32 i =>
    obtain rfl := Option.some.inj hkind
    have hrange : -2 ^ 31 ≤ i ∧ i < 2 ^ 31 := ht
    exact .number i rfl (by omega) (hprints.int32 i)
  | int64 i =>
    obtain rfl := Option.some.inj hkind
    have hrange : -2 ^ 63 ≤ i ∧ i < 2 ^ 63 := ht
    exact .number i rfl (by omega) (hprints.int64 i)
  | binary subtype bytes =>
    rw [Bson.idKind] at hkind
    split_ifs at hkind with huuid
    obtain rfl := Option.some.inj hkind
    refine .uuid bytes (by rw [huuid.1]) huuid.2 ?_
    rw [DocumentId.toString]
    dsimp only
    rw [if_pos huuid.1, if_pos huuid.2]
  | _ => cases hkind

omit [Formatting] in
lemma dash_not_mem_natRepr (m : ℕ) : '-' ∉ (Nat.repr m).toList := fun hmem =>
  absurd (Revision.isDigit_of_mem_repr hmem) (by decide)

omit [Formatting] in
lemma toList_repr_negSucc (m : ℕ) :
    (Int.repr (.negSucc m)).toList = '-' :: (Nat.repr (m + 1)).toList := by
  simp [Int.repr]

omit [Formatting] in
lemma repr_plain (n : ℤ) (h : n.natAbs < 10 ^ 19) : (Int.repr n).toList.head? ≠ some '"' ∧
    '-' ∉ (Int.repr n).toList.tail ∧ (Int.repr n).length ≤ 20 := by
  have hlength := Nat.repr_length n.natAbs 19 (by decide) h
  cases n with
  | ofNat m =>
    refine ⟨fun hquote => ?_, fun hmem => ?_, ?_⟩
    · exact absurd (Revision.isDigit_of_mem_repr (List.mem_of_head? hquote)) (by decide)
    · exact dash_not_mem_natRepr m (List.mem_of_mem_tail hmem)
    · exact hlength.trans (by decide)
  | negSucc m =>
    have hrepr := toList_repr_negSucc m
    refine ⟨?_, ?_, ?_⟩
    · rw [hrepr, List.head?_cons]
      decide
    · rw [hrepr]
      exact dash_not_mem_natRepr (m + 1)
    · rw [← String.length_toList, hrepr, List.length_cons, String.length_toList]
      exact Nat.succ_le_succ hlength

omit [Formatting] in
/-- A text without a dash but a first one has none after eight digits. -/
lemma ninth_ne_dash {s : List Char} (h : '-' ∉ s.tail) : s[8]? ≠ some '-' := fun hdash =>
  h (List.mem_of_getElem? (by rwa [List.getElem?_tail]))

/-- The printed form shows the kind. -/
lemma Printed.kind_eq {id : DocumentId} {kind : IdKind} (h : Printed id kind) :
    IdKind.ofPrinted id.toString.toList = kind := by
  cases h with
  | text s hbson hprint =>
    rw [hprint, IdKind.ofPrinted, if_pos (by simp)]
  | uuid bytes hbson hlength hprint =>
    rw [hprint, String.toList_ofList, IdKind.ofPrinted,
      if_neg (DocumentId.uuidDisplay_head hlength), if_pos (DocumentId.uuidDisplay_dash hlength)]
  | objectId bytes hbson hlength hprint =>
    have hhead : (hex bytes).head? ≠ some '"' := fun hquote =>
      (mem_hex (List.mem_of_head? hquote)).2 rfl
    have hninth : (hex bytes)[8]? ≠ some '-' := fun hdash =>
      (mem_hex (List.mem_of_getElem? hdash)).1 rfl
    rw [hprint, String.toList_ofList, IdKind.ofPrinted, if_neg hhead, if_neg hninth,
      if_pos (by rw [length_hex, hlength])]
  | number n hbson hrange hprint =>
    obtain ⟨hhead, htail, hlength⟩ := repr_plain n hrange
    rw [hprint, IdKind.ofPrinted, if_neg hhead, if_neg (ninth_ne_dash htail), if_neg]
    rw [String.length_toList]
    omega

/-- Ids of these kinds print alike when they are the same, or integers of the same value. -/
theorem Printed.toString_eq_iff {id id' : DocumentId} {kind kind' : IdKind}
    (h : Printed id kind) (h' : Printed id' kind') :
    id.toString = id'.toString ↔ id = id' ∨ SameInteger id.bson id'.bson := by
  obtain ⟨b⟩ := id
  obtain ⟨b'⟩ := id'
  rw [DocumentId.mk.injEq]
  constructor
  · intro heq
    -- the same text is of the same kind, and within a kind the text gives the value back
    have hkind : kind = kind' := by rw [← h.kind_eq, heq, h'.kind_eq]
    subst hkind
    cases h with
    | text s hbson hprint =>
      cases h' with
      | text s' hbson' hprint' =>
        rw [hprint, hprint', String.append_left_inj, String.append_right_inj] at heq
        exact Or.inl (hbson.trans (by rw [heq, ← hbson']))
    | uuid bytes hbson hlength hprint =>
      cases h' with
      | uuid bytes' hbson' hlength' hprint' =>
        rw [hprint, hprint', String.ofList_inj] at heq
        exact Or.inl (hbson.trans (by rw [DocumentId.uuidDisplay_injective heq, ← hbson']))
    | objectId bytes hbson hlength hprint =>
      cases h' with
      | objectId bytes' hbson' hlength' hprint' =>
        rw [hprint, hprint', String.ofList_inj] at heq
        exact Or.inl (hbson.trans (by rw [hex_injective heq, ← hbson']))
    | number n hbson hrange hprint =>
      cases h' with
      | number n' hbson' hrange' hprint' =>
        rw [hprint, hprint'] at heq
        -- but not its type
        exact Or.inr ⟨n, hbson, by rw [Int.repr_inj.mp heq, ← hbson']⟩
  · rintro (rfl | ⟨n, hn, hn'⟩)
    · rfl
    · cases h with
      | number m hbson hrange hprint =>
        cases h' with
        | number m' hbson' hrange' hprint' =>
          rw [hprint, hprint', Option.some.inj (hbson.symm.trans hn),
            Option.some.inj (hbson'.symm.trans hn')]
        | _ => simp_all [Bson.wholeNumber]
      | _ => simp_all [Bson.wholeNumber]

/-- Ids that share a place: the same id, integers of the same value, or, when the printed form of
one of them is not known, ids that print alike. -/
def Clash (id id' : DocumentId) : Prop :=
  if id.bson.idKind.isSome ∧ id'.bson.idKind.isSome then
    id = id' ∨ SameInteger id.bson id'.bson
  else id.toString = id'.toString

lemma clash_iff (hprints : Prints) {id id' : DocumentId} (ht : id.Typed) (ht' : id'.Typed) :
    Clash id id' ↔ id.toString = id'.toString := by
  unfold Clash
  split_ifs with hkinds
  · obtain ⟨kind, hkind⟩ := Option.isSome_iff_exists.mp hkinds.1
    obtain ⟨kind', hkind'⟩ := Option.isSome_iff_exists.mp hkinds.2
    exact ((printed_of_kind hprints ht hkind).toString_eq_iff
      (printed_of_kind hprints ht' hkind')).symm
  · rfl

/-- A double shares no place with a string or a UUID. -/
theorem double_apart (hprints : Prints) (x : F64) {id : DocumentId} (ht : id.Typed)
    (hkind : id.bson.idKind = some .text ∨ id.bson.idKind = some .uuid) :
    ¬ Clash ⟨.double x⟩ id := by
  intro hclash
  have hprinted : (Formatting.f64Display x) = id.toString := by
    rw [← hprints.double x]
    exact hclash
  have hshown : IdKind.ofPrinted (Formatting.f64Display x).toList ≠ .text ∧
      IdKind.ofPrinted (Formatting.f64Display x).toList ≠ .uuid := by
    rw [IdKind.ofPrinted, if_neg (hprints.double_head x),
      if_neg (ninth_ne_dash (hprints.double_tail x))]
    split_ifs <;> simp
  rw [hprinted] at hshown
  rcases hkind with hkind | hkind
  · exact hshown.1 (printed_of_kind hprints ht hkind).kind_eq
  · exact hshown.2 (printed_of_kind hprints ht hkind).kind_eq

/-! ## Places of their own -/

/-- What is put under `id` is not seen, overwritten or deleted under `id'`. -/
structure Hidden (σ : Type) [StorageEngine σ] (c : CollectionName) (id id' : DocumentId) :
    Prop where
  get : ∀ (s : σ) d, (StorageEngine.get c id' (StorageEngine.put c id d s).2).1 =
    (StorageEngine.get c id' s).1
  put : ∀ (s : σ) d d', (StorageEngine.get c id (StorageEngine.put c id' d'
    (StorageEngine.put c id d s).2).2).1 = .ok (some d)
  delete : ∀ (s : σ) d, (StorageEngine.get c id (StorageEngine.delete c id'
    (StorageEngine.put c id d s).2).2).1 = .ok (some d)
  existed : ∀ (s : σ) d, (StorageEngine.delete c id' (StorageEngine.put c id d s).2).1 =
    (StorageEngine.delete c id' s).1

/-- The two ids are different documents. -/
def Separate (σ : Type) [StorageEngine σ] (c : CollectionName) (id id' : DocumentId) : Prop :=
  Hidden σ c id id' ∧ Hidden σ c id' id

/-- A backend that keeps the documents of a collection by printed id. -/
structure KeepsByPrintedId (σ : Type) [StorageEngine σ] (c : CollectionName)
    (look : σ → String → Option Document) : Prop where
  get : ∀ id s, (StorageEngine.get c id s).1 = .ok (look s id.toString)
  put : ∀ id d s, look (StorageEngine.put c id d s).2 =
    Function.update (look s) id.toString (some d)
  delete : ∀ id s, look (StorageEngine.delete c id s).2 =
    Function.update (look s) id.toString none
  existed : ∀ id s, (StorageEngine.delete c id s).1 = .ok (look s id.toString).isSome

section
variable {σ : Type} [StorageEngine σ] {c : CollectionName}
  {look : σ → String → Option Document}

lemma KeepsByPrintedId.hidden (h : KeepsByPrintedId σ c look) {id id' : DocumentId}
    (hne : id.toString ≠ id'.toString) : Hidden σ c id id' where
  get s d := by rw [h.get, h.put, Function.update_of_ne hne.symm, h.get]
  put s d d' := by
    rw [h.get, h.put, Function.update_of_ne hne, h.put, Function.update_self]
  delete s d := by
    rw [h.get, h.delete, Function.update_of_ne hne, h.put, Function.update_self]
  existed s d := by rw [h.existed, h.put, Function.update_of_ne hne.symm, h.existed]

/-- On such a backend two ids are different documents when they print differently. -/
lemma KeepsByPrintedId.separate_iff (h : KeepsByPrintedId σ c look) [hs : Nonempty σ]
    (id id' : DocumentId) : Separate σ c id id' ↔ id.toString ≠ id'.toString := by
  constructor
  · intro hsep heq
    obtain ⟨s⟩ := hs
    have hkept := hsep.1.delete s .empty
    rw [h.get, h.delete, heq, Function.update_self] at hkept
    cases hkept
  · exact fun hne => ⟨h.hidden hne, h.hidden hne.symm⟩

end

lemma memory_keeps (c : CollectionName) :
    KeepsByPrintedId MemoryStorage c fun s => s.view c where
  get _ _ := rfl
  put id d s := by
    funext k
    rw [show (StorageEngine.put c id d s).2.view = _ from MemoryStorage.view_put c id d s,
      DocMap.set, Function.update_apply]
    simp
  delete id s := by
    funext k
    rw [show (StorageEngine.delete c id s).2.view = _ from MemoryStorage.view_delete c id s,
      DocMap.set, Function.update_apply]
    simp
  existed id s := MemoryStorage.delete_ok c id s

omit [Formatting] in
lemma compare_encodeKey_iff (c : CollectionName) (k k' : String) :
    compare (RedbStorage.encodeKey c k) (RedbStorage.encodeKey c k') = .eq ↔ k' = k :=
  Std.compare_eq_iff_eq.trans ((RedbStorage.encodeKey_injective c).eq_iff.trans eq_comm)

lemma redb_keeps (c : CollectionName) :
    KeepsByPrintedId RedbStorage c fun s k => s.table[RedbStorage.encodeKey c k]? where
  get _ _ := rfl
  put id d s := by
    funext k
    show (s.table.insert (RedbStorage.encodeKey c id.toString) d)[RedbStorage.encodeKey c k]? = _
    simp only [Std.TreeMap.getElem?_insert, Function.update_apply, compare_encodeKey_iff]
  delete id s := by
    funext k
    show (s.table.erase (RedbStorage.encodeKey c id.toString))[RedbStorage.encodeKey c k]? = _
    simp only [Std.TreeMap.getElem?_erase, Function.update_apply, compare_encodeKey_iff]
  existed _ _ := rfl

/-- **Different ids.** On both backends and in every collection two ids are different documents:
what is put under one is not returned, overwritten or deleted under the other, exactly when the
two do not clash: they are not the same, not integers of the same value, and, where the printed
form of one of them is not known, they do not print alike. -/
theorem different_ids_apart_iff (hprints : Prints) {id id' : DocumentId} (ht : id.Typed)
    (ht' : id'.Typed) (c : CollectionName) :
    (Separate MemoryStorage c id id' ↔ ¬ Clash id id') ∧
      (Separate RedbStorage c id id' ↔ ¬ Clash id id') := by
  have : Nonempty MemoryStorage := ⟨.new⟩
  have : Nonempty RedbStorage := ⟨.openNew⟩
  rw [clash_iff hprints ht ht']
  exact ⟨(memory_keeps c).separate_iff id id', (redb_keeps c).separate_iff id id'⟩

end

/-! ## Worked examples -/

section

/-- The doubles 1.0 and 1e23, printed. -/
def sampleF64Display (x : F64) : String :=
  if x = ⟨0x44B52D02C7E14AF6⟩ then "100000000000000000000000" else "1"

/-- A formatting for worked examples that also prints these. -/
@[reducible] def Formatting.sampleNumbers : Formatting :=
  { Formatting.sample with
    f64Display := sampleF64Display
    bsonDisplay := fun
      | .double x => sampleF64Display x
      | other => Formatting.sample.bsonDisplay other }

attribute [local instance] Formatting.sampleNumbers

lemma prints_sample : Prints where
  string _ := rfl
  int32 _ := rfl
  int64 _ := rfl
  double _ := rfl
  double_head x := by
    show (sampleF64Display x).toList.head? ≠ some '"'
    unfold sampleF64Display
    split_ifs <;> decide
  double_tail x := by
    show '-' ∉ (sampleF64Display x).toList.tail
    unfold sampleF64Display
    split_ifs <;> decide

/-- For an ObjectId and an integer. -/
theorem different_ids_apart_iff_sample :
    (Separate MemoryStorage ⟨"c"⟩ ⟨.objectId (List.replicate 12 17)⟩ ⟨.int32 1⟩ ↔
        ¬ Clash ⟨.objectId (List.replicate 12 17)⟩ ⟨.int32 1⟩) ∧
      (Separate RedbStorage ⟨"c"⟩ ⟨.objectId (List.replicate 12 17)⟩ ⟨.int32 1⟩ ↔
        ¬ Clash ⟨.objectId (List.replicate 12 17)⟩ ⟨.int32 1⟩) := by
  refine different_ids_apart_iff prints_sample ?_ ?_ ⟨"c"⟩
  · show (List.replicate 12 (17 : UInt8)).length = 12
    rfl
  · show -2 ^ 31 ≤ (1 : ℤ) ∧ (1 : ℤ) < 2 ^ 31
    decide

/-- An ObjectId that reads as a decimal number. -/
def sampleOid : DocumentId :=
  ⟨.objectId [16, 0, 0, 0, 0, 0, 0, 0, 0, 0, 0, 0]⟩

/-- A document that is put under the 32-bit integer 1 is found and deleted under the 64-bit
integer 1, and under the double 1.0. One that is put under an ObjectId is found under the double
1e23. -/
theorem ids_share_a_place :
    (⟨.int32 1⟩ : DocumentId) ≠ ⟨.int64 1⟩ ∧
      (MemoryStorage.get ⟨"c"⟩ ⟨.int64 1⟩
        (MemoryStorage.put ⟨"c"⟩ ⟨.int32 1⟩ .empty .new).2).1 = .ok (some .empty) ∧
      (MemoryStorage.delete ⟨"c"⟩ ⟨.double .one⟩
        (MemoryStorage.put ⟨"c"⟩ ⟨.int32 1⟩ .empty .new).2).1 = .ok true ∧
      (MemoryStorage.get ⟨"c"⟩ ⟨.double ⟨0x44B52D02C7E14AF6⟩⟩
        (MemoryStorage.put ⟨"c"⟩ sampleOid .empty .new).2).1 = .ok (some .empty) ∧
      (RedbStorage.get ⟨"c"⟩ ⟨.int64 1⟩
        (RedbStorage.put ⟨"c"⟩ ⟨.int32 1⟩ .empty .openNew).2).1 = .ok (some .empty) ∧
      ¬ Separate MemoryStorage ⟨"c"⟩ ⟨.int32 1⟩ ⟨.int64 1⟩ := by
  refine ⟨by decide, by decide +kernel, by decide +kernel, by decide +kernel, by decide +kernel,
    fun hsep => ?_⟩
  exact absurd (hsep.1.get .new .empty) (by decide +kernel)

end
end Rango
