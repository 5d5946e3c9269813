import Rango.Core.WriteTheorems
import Rango.Sdk.Migrate

/-!
# Round trips

`bson_to_json` and `json_to_bson` are inverse in one direction only. What a JSON value becomes is
written as that value again (`bsonToJson_jsonToBson`), unless the extended notation takes one of its
objects. The other way, plain JSON has no place for some types: `Bson.returned` is what a value
comes back as, and `export_import` says so of whole documents.
-/

namespace Rango

section
variable [BsonText]

/-! ## Documents built from objects -/

/-- Keys that occur once are inserted one after the other. -/
lemma jsonToBsonEntries_eq {es : List (String × Json)} {doc : Document}
    (h : (doc.entries.map Prod.fst ++ es.map Prod.fst).Nodup) :
    (jsonToBsonEntries doc es).toOption =
      (SortedMap.mapValues (fun x => (jsonToBson x).toOption) es).map fun bs =>
        ⟨doc.entries ++ bs⟩ := by
  induction es generalizing doc with
  | nil => simp [jsonToBsonEntries, SortedMap.mapValues, Except.toOption]
  | cons e rest ih =>
    obtain ⟨k, x⟩ := e
    rw [jsonToBsonEntries, SortedMap.mapValues]
    cases jsonToBson x with
    | error err => rfl
    | ok v =>
      have hk : k ∉ doc.entries.map Prod.fst := fun hmem =>
        (List.nodup_append.mp h).2.2 k hmem k List.mem_cons_self rfl
      have hinsert : doc.insert k v = ⟨doc.entries ++ [(k, v)]⟩ :=
        congrArg Document.mk (IndexMap.insert_of_notMem hk v)
      show (jsonToBsonEntries (doc.insert k v) rest).toOption = _
      rw [hinsert, ih (by simpa using h)]
      cases SortedMap.mapValues (fun x => (jsonToBson x).toOption) rest <;> simp [Except.toOption]

/-- The document of a regular object. -/
lemma jsonToBson_object {es : List (String × Json)} (hplain : extendedJson es = none)
    (hnodup : (es.map Prod.fst).Nodup) :
    (jsonToBson (.object es)).toOption =
      (SortedMap.mapValues (fun x => (jsonToBson x).toOption) es).map .document := by
  have hentries : (jsonToBsonEntries Document.empty es).toOption =
      (SortedMap.mapValues (fun x => (jsonToBson x).toOption) es).map Document.mk :=
    jsonToBsonEntries_eq hnodup
  rw [jsonToBson, hplain]
  cases hdoc : jsonToBsonEntries Document.empty es <;> rw [hdoc] at hentries <;>
    cases hvalues : SortedMap.mapValues (fun x => (jsonToBson x).toOption) es <;>
    rw [hvalues] at hentries <;> simp_all [Except.toOption, Except.map]

lemma bsonToJsonEntries_keys (es : List (String × Bson)) :
    (bsonToJsonEntries es).map Prod.fst = es.map Prod.fst := by
  induction es with
  | nil => rfl
  | cons e rest ih => rw [bsonToJsonEntries, List.map_cons, List.map_cons, ih]

/-! ## From JSON and back -/

omit [BsonText] in
/-- The keys that `json_to_bson` looks for in an object with one key. -/
def extendedKeys : List String := ["$oid", "$date", "$numberInt", "$numberLong", "$numberDouble"]

omit [BsonText] in
/-- The object's only key is one of them. -/
def hasExtendedKey : List (String × Json) → Bool
  | [(key, _)] => key ∈ extendedKeys
  | _ => false

/-- An object without such a key is a regular one. -/
lemma extendedJson_eq_none {es : List (String × Json)} (h : hasExtendedKey es = false) :
    extendedJson es = none := by
  match es with
  | [] | _ :: _ :: _ => rfl
  | [(key, val)] =>
    simp only [hasExtendedKey, extendedKeys, List.mem_cons, List.not_mem_nil, or_false, not_or,
      decide_eq_false_iff_not] at h
    simp only [extendedJson, if_neg h.1, if_neg h.2.1, if_neg h.2.2.1, if_neg h.2.2.2.1,
      if_neg h.2.2.2.2]

/-- A number in the range of `i64` is written as it was read. -/
lemma bsonToJson_numberToBson {n : JsonNumber} (hproper : n.proper = true)
    (hfits : n.fitsI64 = true) : ∃ b, numberToBson n = .ok b ∧ bsonToJson b = .number n := by
  cases n with
  | posInt n =>
    have hn : n < 2 ^ 63 := of_decide_eq_true hfits
    have hofInt : JsonNumber.ofInt n = .posInt n := by
      rw [JsonNumber.ofInt, if_neg (by omega), Int.toNat_natCast]
    simp only [numberToBson, JsonNumber.asI64, if_pos hn]
    split_ifs
    · exact ⟨_, rfl, by rw [bsonToJson, hofInt]⟩
    · exact ⟨_, rfl, by rw [bsonToJson, hofInt]⟩
  | negInt i =>
    have hi : i < 0 := by simpa [JsonNumber.proper] using (Bool.and_eq_true_iff.mp hproper).2
    have hofInt : JsonNumber.ofInt i = .negInt i := if_pos hi
    simp only [numberToBson, JsonNumber.asI64]
    split_ifs
    · exact ⟨_, rfl, by rw [bsonToJson, hofInt]⟩
    · exact ⟨_, rfl, by rw [bsonToJson, hofInt]⟩
  | float x =>
    have hx : x.isFinite = true := hproper
    exact ⟨.double x, rfl, by rw [bsonToJson, JsonNumber.ofF64, if_pos hx]; rfl⟩

omit [BsonText] in
/-- The numbers and the objects of a plain JSON value. -/
abbrev plainNumber (n : JsonNumber) : Bool := n.proper && n.fitsI64

omit [BsonText] in
abbrev plainObject (es : List (String × Json)) : Bool :=
  decide (SortedMap.Ascending es) && !hasExtendedKey es

mutual
lemma jsonToBson_plain : ∀ v : Json, v.all plainNumber plainObject = true →
    ∃ b, jsonToBson v = .ok b ∧ bsonToJson b = v
  | .null, _ => ⟨.null, rfl, rfl⟩
  | .bool b, _ => ⟨.boolean b, rfl, rfl⟩
  | .string s, _ => ⟨.string s, rfl, rfl⟩
  | .number n, h => by
    have hn := Bool.and_eq_true_iff.mp h
    rw [jsonToBson]
    exact bsonToJson_numberToBson hn.1 hn.2
  | .array xs, h => by
    obtain ⟨bs, hbs, hback⟩ := jsonToBsonList_plain xs h
    exact ⟨.array bs, by rw [jsonToBson, hbs]; rfl, by rw [bsonToJson, hback]⟩
  | .object entries, h => by
    rw [Json.all, Bool.and_eq_true, Bool.and_eq_true, Bool.not_eq_true', decide_eq_true_eq] at h
    obtain ⟨⟨hascending, hkey⟩, hvalues⟩ := h
    obtain ⟨bs, hbs, hback⟩ := jsonToBsonEntries_plain entries hvalues
    have hdoc := jsonToBson_object (extendedJson_eq_none hkey) hascending.keys_nodup
    rw [hbs] at hdoc
    refine ⟨.document bs, ?_, ?_⟩
    · cases hv : jsonToBson (.object entries) with
      | error err => rw [hv] at hdoc; cases hdoc
      | ok b => rw [hv] at hdoc; exact congrArg Except.ok (Option.some.inj hdoc)
    · rw [bsonToJson, hback, SortedMap.ofEntries_of_ascending hascending]

lemma jsonToBsonList_plain : ∀ xs : List Json, Json.allList plainNumber plainObject xs = true →
    ∃ bs, jsonToBsonList xs = .ok bs ∧ bsonToJsonList bs = xs
  | [], _ => ⟨[], rfl, rfl⟩
  | x :: xs, h => by
    have hsplit := Bool.and_eq_true_iff.mp h
    obtain ⟨b, hb, hback⟩ := jsonToBson_plain x hsplit.1
    obtain ⟨bs, hbs, hbacks⟩ := jsonToBsonList_plain xs hsplit.2
    exact ⟨b :: bs, by rw [jsonToBsonList, hb, hbs]; rfl, by rw [bsonToJsonList, hback, hbacks]⟩

lemma jsonToBsonEntries_plain : ∀ es : List (String × Json),
    Json.allEntries plainNumber plainObject es = true →
    ∃ bs, SortedMap.mapValues (fun x => (jsonToBson x).toOption) es = some bs ∧
      bsonToJsonEntries bs = es
  | [], _ => ⟨[], rfl, rfl⟩
  | (k, x) :: rest, h => by
    have hsplit := Bool.and_eq_true_iff.mp h
    obtain ⟨b, hb, hback⟩ := jsonToBson_plain x hsplit.1
    obtain ⟨bs, hbs, hbacks⟩ := jsonToBsonEntries_plain rest hsplit.2
    refine ⟨(k, b) :: bs, ?_, by rw [bsonToJsonEntries, hback, hbacks]⟩
    rw [SortedMap.mapValues, hb, hbs]
    rfl
end

/-- **Import, then export.** Every JSON value with integers in the range of `i64` and without
extended notation is converted, and what it becomes is written as that value. -/
theorem bsonToJson_jsonToBson (v : Json) (hproper : v.proper = true) (hfits : v.fitsI64 = true)
    (hkeys : v.all (fun _ => true) (fun es => !hasExtendedKey es) = true) :
    ∃ b, jsonToBson v = .ok b ∧ bsonToJson b = v := by
  have hnumbers : v.all plainNumber (fun es => decide (SortedMap.Ascending es) && true) = true := by
    rw [Json.all_and, Bool.and_eq_true]
    exact ⟨hproper, hfits⟩
  have hplain : v.all (fun n => plainNumber n && true)
      (fun es => (decide (SortedMap.Ascending es) && true) && !hasExtendedKey es) = true := by
    rw [Json.all_and, Bool.and_eq_true]
    exact ⟨hnumbers, hkeys⟩
  simp only [Bool.and_true] at hplain
  exact jsonToBson_plain v hplain

end

/-- Texts for worked examples without dates, decimals and extended notation. -/
@[reducible] def BsonText.sample : BsonText where
  dateTimeDisplay _ := ""
  subtypeDebug b := String.ofList (hexByte b)
  decimal128Display _ := ""
  parseObjectId _ := .error ""
  parseRfc3339 _ := .error ""
  parseF64 _ := .error ""

section
attribute [local instance] BsonText.sample

/-- For integers at the limits of `i32` and an object with an extended key beside another one. -/
theorem bsonToJson_jsonToBson_nested :
    ∃ b, jsonToBson (.object [("a", .array [.number (.posInt (2 ^ 31)), .number (.negInt (-5)),
        .number (.float F64.quarter)]), ("b", .object [("$oid", .null), ("x", .bool true)])]) =
        .ok b ∧
      bsonToJson b = .object [("a", .array [.number (.posInt (2 ^ 31)), .number (.negInt (-5)),
        .number (.float F64.quarter)]), ("b", .object [("$oid", .null), ("x", .bool true)])] :=
  bsonToJson_jsonToBson _ (by decide +kernel) (by decide +kernel) (by decide +kernel)

end

/-! ## From documents and back -/

section
variable [BsonText] [SerdeJson]

namespace Bson

omit [BsonText] [SerdeJson] in
/-- An integer is in the range of `i32`. -/
abbrev FitsI32 (i : ℤ) : Prop := -2 ^ 31 ≤ i ∧ i < 2 ^ 31

omit [BsonText] [SerdeJson] in
mutual
/-- Strings, booleans, nulls, integers, finite doubles, ids, dates, UUIDs, and what is built of
them. -/
def carried : Bson → Bool
  | .double x => x.isFinite
  | .string _ | .boolean _ | .null | .dateTime _ => true
  | .int32 i => FitsI32 i
  | .int64 i => -2 ^ 63 ≤ i && i < 2 ^ 63
  | .objectId bytes => bytes.length = 12
  | .binary subtype bytes => subtype = DocumentId.uuidSubtype && bytes.length = 16
  | .array xs => carriedList xs
  | .document entries => decide (entries.map Prod.fst).Nodup && carriedEntries entries
  | _ => false

def carriedList : List Bson → Bool
  | [] => true
  | x :: xs => carried x && carriedList xs

def carriedEntries : List (String × Bson) → Bool
  | [] => true
  | (_, x) :: rest => carried x && carriedEntries rest
end

mutual
/-- What a value is after an export and an import: ids, dates and UUIDs are texts, an integer has
the smallest type that holds it, a double is what its text is read as, and documents have their
keys in order. -/
def returned : Bson → Option Bson
  | .double x => (SerdeJson.rereadF64 x).map .double
  | .int64 i => some (if FitsI32 i then .int32 i else .int64 i)
  | .objectId bytes => some (.string (String.ofList (hex bytes)))
  | .dateTime t => some (.string (BsonText.dateTimeDisplay t))
  | .binary _ bytes => some (.string (String.ofList (DocumentId.uuidDisplay bytes)))
  | .array xs => (returnedList xs).map .array
  | .document entries =>
    (returnedEntries entries).map fun entries => .document (SortedMap.ofEntries entries)
  | b => some b

def returnedList : List Bson → Option (List Bson)
  | [] => some []
  | x :: xs => (returned x).bind fun x' => (returnedList xs).map (x' :: ·)

def returnedEntries : List (String × Bson) → Option (List (String × Bson))
  | [] => some []
  | (k, x) :: rest => (returned x).bind fun x' => (returnedEntries rest).map ((k, x') :: ·)
end

omit [BsonText] in
mutual
/-- A value with a place of its own in plain JSON. -/
def survives : Bson → Bool
  | .double x => SerdeJson.rereadF64 x = some x
  | .string _ | .boolean _ | .null | .int32 _ => true
  | .int64 i => !decide (FitsI32 i)
  | .array xs => survivesList xs
  | .document entries => survivesEntries entries
  | _ => false

def survivesList : List Bson → Bool
  | [] => true
  | x :: xs => survives x && survivesList xs

def survivesEntries : List (String × Bson) → Bool
  | [] => true
  | (_, x) :: rest => survives x && survivesEntries rest
end

omit [BsonText] [SerdeJson] in
mutual
/-- The value with the keys of every document in order. -/
def sortKeys : Bson → Bson
  | .array xs => .array (sortKeysList xs)
  | .document entries => .document (SortedMap.ofEntries (sortKeysEntries entries))
  | b => b

def sortKeysList : List Bson → List Bson
  | [] => []
  | x :: xs => sortKeys x :: sortKeysList xs

def sortKeysEntries : List (String × Bson) → List (String × Bson)
  | [] => []
  | (k, x) :: rest => (k, sortKeys x) :: sortKeysEntries rest
end

lemma returnedEntries_eq (es : List (String × Bson)) :
    returnedEntries es = SortedMap.mapValues returned es := by
  induction es with
  | nil => rfl
  | cons e rest ih => rw [returnedEntries, SortedMap.mapValues, ih]

omit [BsonText] [SerdeJson] in
lemma sortKeysEntries_keys (es : List (String × Bson)) :
    (sortKeysEntries es).map Prod.fst = es.map Prod.fst := by
  induction es with
  | nil => rfl
  | cons e rest ih => rw [sortKeysEntries, List.map_cons, List.map_cons, ih]

mutual
/-- What comes back is the value itself, its keys in order, exactly when it survives. -/
theorem returned_eq_sortKeys_iff : ∀ b : Bson, b.carried = true →
    (b.returned = some b.sortKeys ↔ b.survives = true)
  | .double x, _ => by simp [returned, sortKeys, survives]
  | .int64 i, _ => by
    by_cases h : FitsI32 i
    · simp only [returned, sortKeys, survives, if_pos h, decide_eq_true h]
      simp
    · simp only [returned, sortKeys, survives, if_neg h, decide_eq_false h]
      simp
  | .array xs, h => by
    have hxs := returnedList_eq_sortKeys_iff xs h
    rw [survives, ← hxs]
    simp [returned, sortKeys]
  | .document entries, h => by
    have hsplit := Bool.and_eq_true_iff.mp h
    have hnodup : (entries.map Prod.fst).Nodup := of_decide_eq_true hsplit.1
    have hentries := returnedEntries_eq_sortKeys_iff entries hsplit.2
    rw [survives, ← hentries]
    simp only [returned, sortKeys]
    constructor
    · intro hret
      obtain ⟨bs, hbs, heq⟩ := Option.map_eq_some_iff.mp hret
      have hkeys : bs.map Prod.fst = entries.map Prod.fst :=
        SortedMap.mapValues_keys ((returnedEntries_eq entries).symm.trans hbs)
      rw [hbs, SortedMap.ofEntries_inj (hkeys.trans (sortKeysEntries_keys entries).symm)
        (hkeys ▸ hnodup) (Bson.document.inj heq)]
    · intro hret
      rw [hret]
      rfl
  | .string _, _ | .boolean _, _ | .null, _ | .int32 _, _ => by simp [returned, sortKeys, survives]
  | .objectId _, _ | .dateTime _, _ | .binary _ _, _ => by simp [returned, sortKeys, survives]
  | .undefined, h | .regularExpression _ _, h | .javaScriptCode _, h
  | .javaScriptCodeWithScope _ _, h | .timestamp _ _, h | .decimal128 _, h | .maxKey, h
  | .minKey, h | .dbPointer _ _, h | .symbol _, h => by cases h

theorem returnedList_eq_sortKeys_iff : ∀ xs : List Bson, carriedList xs = true →
    (returnedList xs = some (sortKeysList xs) ↔ survivesList xs = true)
  | [], _ => by simp [returnedList, sortKeysList, survivesList]
  | x :: xs, h => by
    have hsplit := Bool.and_eq_true_iff.mp h
    rw [survivesList, Bool.and_eq_true, ← returned_eq_sortKeys_iff x hsplit.1,
      ← returnedList_eq_sortKeys_iff xs hsplit.2]
    cases hx : returned x <;> cases hxs : returnedList xs <;>
      simp [returnedList, sortKeysList, hx, hxs]

theorem returnedEntries_eq_sortKeys_iff : ∀ es : List (String × Bson), carriedEntries es = true →
    (returnedEntries es = some (sortKeysEntries es) ↔ survivesEntries es = true)
  | [], _ => by simp [returnedEntries, sortKeysEntries, survivesEntries]
  | (k, x) :: rest, h => by
    have hsplit := Bool.and_eq_true_iff.mp h
    rw [survivesEntries, Bool.and_eq_true, ← returned_eq_sortKeys_iff x hsplit.1,
      ← returnedEntries_eq_sortKeys_iff rest hsplit.2]
    cases hx : returned x <;> cases hxs : returnedEntries rest <;>
      simp [returnedEntries, sortKeysEntries, hx, hxs]
end

end Bson

/-! ### Through the text -/

/-- The objects that the import takes as they are. -/
abbrev regularObject (es : List (String × Json)) : Bool := (extendedJson es).isNone

/-- A regular object is regular when it has been read back. -/
lemma extendedJson_reread {es es' : List (String × Json)} (hplain : extendedJson es = none)
    (h : SortedMap.mapValues Json.reread es = some es') : extendedJson es' = none := by
  match es with
  | [] => cases h; rfl
  | [(key, val)] =>
    obtain ⟨val', hval, h⟩ := Option.bind_eq_some_iff.mp h
    obtain rfl := Option.some.inj h
    -- only a string can have been read from a text that a string wrote
    have hstring : ∀ arm arm', onString val arm = none → onString val' arm' = none := by
      intro arm arm' hnone
      cases val with
      | string s => cases hnone
      | number n =>
        cases n <;> simp only [Json.reread, Option.some.injEq, Option.map_eq_some_iff] at hval
        · exact hval ▸ rfl
        · exact hval ▸ rfl
        · obtain ⟨y, -, rfl⟩ := hval; rfl
      | null | bool b => exact Option.some.inj hval ▸ rfl
      | array xs | object xs =>
        obtain ⟨xs', -, rfl⟩ := Option.map_eq_some_iff.mp hval
        rfl
    simp only [extendedJson] at hplain ⊢
    split_ifs at hplain ⊢ with h1 h2 h3 h4 h5
    · exact hstring _ _ hplain
    · exact hstring _ _ hplain
    · exact hstring _ _ hplain
    · exact hstring _ _ hplain
    · cases val <;> cases hplain
    · rfl
  | e :: e' :: rest =>
    obtain ⟨x, -, h⟩ := Option.bind_eq_some_iff.mp h
    obtain ⟨rest', hrest, rfl⟩ := Option.map_eq_some_iff.mp h
    obtain ⟨x', -, hrest⟩ := Option.bind_eq_some_iff.mp hrest
    obtain ⟨rest'', -, rfl⟩ := Option.map_eq_some_iff.mp hrest
    rfl

omit [SerdeJson] in
mutual
/-- What is written is a value of `serde_json`. -/
lemma bsonToJson_proper : ∀ b : Bson, b.carried = true → (bsonToJson b).proper = true
  | .double x, h => by
    have hx : x.isFinite = true := h
    rw [bsonToJson, JsonNumber.ofF64, if_pos hx]
    exact h
  | .int32 i, h => by
    have hi : Bson.FitsI32 i := of_decide_eq_true h
    simp only [bsonToJson, Json.proper, Json.all, JsonNumber.ofInt]
    split_ifs <;> simp [JsonNumber.proper] <;> omega
  | .int64 i, h => by
    simp only [Bson.carried, Bool.and_eq_true, decide_eq_true_eq] at h
    simp only [bsonToJson, Json.proper, Json.all, JsonNumber.ofInt]
    split_ifs <;> simp [JsonNumber.proper] <;> omega
  | .array xs, h => bsonToJsonList_proper xs h
  | .document entries, h => by
    have hsplit := Bool.and_eq_true_iff.mp h
    have hnodup : ((bsonToJsonEntries entries).map Prod.fst).Nodup :=
      bsonToJsonEntries_keys entries ▸ of_decide_eq_true hsplit.1
    rw [bsonToJson, Json.proper, Json.all, Bool.and_eq_true, decide_eq_true_eq,
      Json.allEntries_perm (SortedMap.ofEntries_perm hnodup)]
    exact ⟨SortedMap.ascending_ofEntries _, bsonToJsonEntries_proper entries hsplit.2⟩
  | .string _, _ | .boolean _, _ | .null, _ | .objectId _, _ | .dateTime _, _ => rfl
  | .binary subtype bytes, _ => by
    rw [bsonToJson]
    split_ifs <;> rfl
  | .undefined, h | .regularExpression _ _, h | .javaScriptCode _, h
  | .javaScriptCodeWithScope _ _, h | .timestamp _ _, h | .decimal128 _, h | .maxKey, h
  | .minKey, h | .dbPointer _ _, h | .symbol _, h => by cases h

lemma bsonToJsonList_proper : ∀ xs : List Bson, Bson.carriedList xs = true →
    Json.allList JsonNumber.proper (fun es => decide (SortedMap.Ascending es))
      (bsonToJsonList xs) = true
  | [], _ => rfl
  | x :: xs, h => by
    have hsplit := Bool.and_eq_true_iff.mp h
    rw [bsonToJsonList, Json.allList, Bool.and_eq_true]
    exact ⟨bsonToJson_proper x hsplit.1, bsonToJsonList_proper xs hsplit.2⟩

lemma bsonToJsonEntries_proper : ∀ es : List (String × Bson), Bson.carriedEntries es = true →
    Json.allEntries JsonNumber.proper (fun es => decide (SortedMap.Ascending es))
      (bsonToJsonEntries es) = true
  | [], _ => rfl
  | (k, x) :: rest, h => by
    have hsplit := Bool.and_eq_true_iff.mp h
    rw [bsonToJsonEntries, Json.allEntries, Bool.and_eq_true]
    exact ⟨bsonToJson_proper x hsplit.1, bsonToJsonEntries_proper rest hsplit.2⟩
end

omit [SerdeJson] in
lemma jsonToBson_array (xs : List Json) :
    (jsonToBson (.array xs)).toOption = (jsonToBsonList xs).toOption.map .array := by
  rw [jsonToBson]
  cases jsonToBsonList xs <;> rfl

omit [BsonText] [SerdeJson] in
/-- An integer comes back as the smallest type that holds it. -/
lemma numberToBson_ofInt {i : ℤ} (h : -2 ^ 63 ≤ i ∧ i < 2 ^ 63) :
    numberToBson (.ofInt i) = .ok (if Bson.FitsI32 i then .int32 i else .int64 i) := by
  have hi : (JsonNumber.ofInt i).asI64 = some i := by
    rw [JsonNumber.ofInt]
    split_ifs with hneg
    · rfl
    · rw [JsonNumber.asI64, if_pos (by omega), Int.toNat_of_nonneg (not_lt.mp hneg)]
  rw [numberToBson, hi]
  show (if Bson.FitsI32 i then Except.ok (Bson.int32 i) else .ok (.int64 i)) = _
  split_ifs <;> rfl

omit [BsonText] in
/-- The text of an integer is read as the integer. -/
lemma reread_ofInt (i : ℤ) :
    (Json.number (.ofInt i)).reread = some (.number (.ofInt i)) := by
  rw [JsonNumber.ofInt]
  split_ifs <;> rfl

mutual
/-- Written, read back and converted, a value is what it returns as. -/
lemma convert_reread : ∀ b : Bson, b.carried = true →
    (bsonToJson b).all (fun _ => true) regularObject = true →
    ((bsonToJson b).reread.bind fun v => (jsonToBson v).toOption) = b.returned
  | .double x, h, _ => by
    have hx : x.isFinite = true := h
    rw [bsonToJson, JsonNumber.ofF64, if_pos hx, Option.getD_some, Json.reread, Bson.returned]
    cases SerdeJson.rereadF64 x <;> rfl
  | .int32 i, h, _ => by
    have hi : Bson.FitsI32 i := of_decide_eq_true h
    rw [bsonToJson, reread_ofInt, Option.bind_some, jsonToBson,
      numberToBson_ofInt ⟨by omega, by omega⟩, if_pos hi]
    rfl
  | .int64 i, h, _ => by
    simp only [Bson.carried, Bool.and_eq_true, decide_eq_true_eq] at h
    rw [bsonToJson, reread_ofInt, Option.bind_some, jsonToBson, numberToBson_ofInt h]
    rfl
  | .array xs, h, hplain => by
    have hxs := convert_rereadList xs h hplain
    rw [bsonToJson, Json.reread, Bson.returned, ← hxs]
    cases Json.rereadList (bsonToJsonList xs) with
    | none => rfl
    | some ys => exact jsonToBson_array ys
  | .document entries, h, hplain => by
    have hsplit := Bool.and_eq_true_iff.mp h
    have hnodup : ((bsonToJsonEntries entries).map Prod.fst).Nodup :=
      bsonToJsonEntries_keys entries ▸ of_decide_eq_true hsplit.1
    rw [bsonToJson, Json.all, Bool.and_eq_true, Option.isNone_iff_eq_none,
      Json.allEntries_perm (SortedMap.ofEntries_perm hnodup)] at hplain
    have hentries := convert_rereadEntries entries hsplit.2 hplain.2
    have hread := SortedMap.mapValues_ofEntries Json.reread hnodup
    rw [bsonToJson, Json.reread, Json.rereadEntries_eq, hread, Bson.returned, ← hentries]
    cases hvalues : SortedMap.mapValues Json.reread (bsonToJsonEntries entries) with
    | none => rfl
    | some es =>
      rw [hvalues] at hread
      have hkeys : (es.map Prod.fst).Nodup := SortedMap.mapValues_keys hvalues ▸ hnodup
      have hsorted := ((SortedMap.ofEntries_perm hkeys).map Prod.fst).nodup_iff.mpr hkeys
      show (jsonToBson (.object (SortedMap.ofEntries es))).toOption = _
      rw [jsonToBson_object (extendedJson_reread hplain.1 hread) hsorted,
        SortedMap.mapValues_ofEntries _ hkeys, Option.map_map]
      rfl
  | .string _, _, _ | .boolean _, _, _ | .null, _, _ | .objectId _, _, _ | .dateTime _, _, _ => rfl
  | .binary subtype bytes, h, _ => by
    simp only [Bson.carried, Bool.and_eq_true, decide_eq_true_eq] at h
    rw [bsonToJson, if_pos h]
    rfl
  | .undefined, h, _ | .regularExpression _ _, h, _ | .javaScriptCode _, h, _
  | .javaScriptCodeWithScope _ _, h, _ | .timestamp _ _, h, _ | .decimal128 _, h, _
  | .maxKey, h, _ | .minKey, h, _ | .dbPointer _ _, h, _ | .symbol _, h, _ => by cases h

lemma convert_rereadList : ∀ xs : List Bson, Bson.carriedList xs = true →
    Json.allList (fun _ => true) regularObject (bsonToJsonList xs) = true →
    ((Json.rereadList (bsonToJsonList xs)).bind fun vs => (jsonToBsonList vs).toOption) =
      Bson.returnedList xs
  | [], _, _ => rfl
  | x :: xs, h, hplain => by
    have hsplit := Bool.and_eq_true_iff.mp h
    have hparts := Bool.and_eq_true_iff.mp hplain
    rw [bsonToJsonList, Json.rereadList, Bson.returnedList, ← convert_reread x hsplit.1 hparts.1,
      ← convert_rereadList xs hsplit.2 hparts.2]
    cases (bsonToJson x).reread with
    | none => rfl
    | some v =>
      cases Json.rereadList (bsonToJsonList xs) with
      | none => cases hv : jsonToBson v <;> simp [hv, Except.toOption]
      | some vs =>
        simp only [Option.map_some, Option.bind_some, jsonToBsonList]
        cases jsonToBson v <;> cases jsonToBsonList vs <;> rfl

lemma convert_rereadEntries : ∀ es : List (String × Bson), Bson.carriedEntries es = true →
    Json.allEntries (fun _ => true) regularObject (bsonToJsonEntries es) = true →
    ((SortedMap.mapValues Json.reread (bsonToJsonEntries es)).bind
      (SortedMap.mapValues fun v => (jsonToBson v).toOption)) = Bson.returnedEntries es
  | [], _, _ => rfl
  | (k, x) :: rest, h, hplain => by
    have hsplit := Bool.and_eq_true_iff.mp h
    have hparts := Bool.and_eq_true_iff.mp hplain
    rw [bsonToJsonEntries, SortedMap.mapValues, Bson.returnedEntries,
      ← convert_reread x hsplit.1 hparts.1, ← convert_rereadEntries rest hsplit.2 hparts.2]
    cases (bsonToJson x).reread with
    | none => rfl
    | some v =>
      cases SortedMap.mapValues Json.reread (bsonToJsonEntries rest) with
      | none => cases hv : jsonToBson v <;> simp [hv, Except.toOption]
      | some vs =>
        simp only [Option.map_some, Option.bind_some, SortedMap.mapValues]
end

/-! ## Whole documents -/

/-- What a document is after an export and an import. -/
def Document.returned (d : Document) : Option Document :=
  (Bson.returnedEntries d.entries).map fun entries => ⟨SortedMap.ofEntries entries⟩

omit [BsonText] [SerdeJson] in
/-- The document with the keys in order, at every level. -/
def Document.sortKeys (d : Document) : Document :=
  ⟨SortedMap.ofEntries (Bson.sortKeysEntries d.entries)⟩

omit [BsonText] in
def Document.survives (d : Document) : Bool := Bson.survivesEntries d.entries

omit [SerdeJson] in
/-- A document of the values that the export is for. An ObjectId under `_id` is left out: the
import's documentation promises to restore it, and the export writes it as a mere text. No proof
uses that field. -/
structure Exportable (d : Document) : Prop where
  carried : (Bson.document d.entries).carried = true
  /-- no document in it is taken for extended notation -/
  regular : (bsonToJson (.document d.entries)).all (fun _ => true) regularObject = true
  shallow : (bsonToJson (.document d.entries)).depth < 128
  not_objectId : ∀ oid, d.get "_id" ≠ some (.objectId oid)

omit [SerdeJson] in
lemma Document.returned_eq_sortKeys_iff [SerdeJson] {d : Document} (hd : Exportable d) :
    d.returned = some d.sortKeys ↔ d.survives = true := by
  have h := Bson.returned_eq_sortKeys_iff (.document d.entries) hd.carried
  rw [Bson.survives, Bson.returned, Bson.sortKeys] at h
  rw [Document.survives, ← h, Document.returned, Document.sortKeys]
  cases Bson.returnedEntries d.entries <;> simp

/-- What the import makes of the text that the export wrote. -/
lemma parseMongoJson_written (hserde : SerdeJson.RoundTrips) {d : Document} (hd : Exportable d)
    {text : String} (htext : SerdeJson.toText (bsonToJson (.document d.entries)) = .ok text) :
    (parseMongoJson text).toOption = d.returned := by
  have hread := hserde.of_to _ text (bsonToJson_proper _ hd.carried) htext
  rw [if_pos hd.shallow] at hread
  have hconvert := convert_reread (.document d.entries) hd.carried hd.regular
  rw [← hread, Bson.returned] at hconvert
  rw [parseMongoJson, Document.returned]
  cases hof : SerdeJson.ofText text with
  | error err =>
    rw [hof] at hconvert
    cases hes : Bson.returnedEntries d.entries with
    | none => rfl
    | some es => rw [hes] at hconvert; cases hconvert
  | ok v =>
    rw [hof] at hconvert
    dsimp only
    cases hv : jsonToBson v with
    | error err =>
      cases hes : Bson.returnedEntries d.entries with
      | none => rfl
      | some es => rw [hes] at hconvert; simp [Except.toOption, hv] at hconvert
    | ok b =>
      cases hes : Bson.returnedEntries d.entries with
      | none => rw [hes] at hconvert; simp [Except.toOption, hv] at hconvert
      | some es =>
        rw [hes] at hconvert
        have hb : b = .document (SortedMap.ofEntries es) := by
          simpa [Except.toOption, hv] using hconvert
        rw [hb]
        rfl

/-! ### Lines -/

omit [BsonText] [SerdeJson] in
lemma trim_braces (inner : List Char) :
    trim ('{' :: (inner ++ ['}'])) = '{' :: (inner ++ ['}']) := by
  have hfirst : ('{' :: (inner ++ ['}'])).dropWhile isWhitespace = '{' :: (inner ++ ['}']) := by
    rw [List.dropWhile_cons_of_neg (by decide)]
  have hlast : ('{' :: (inner ++ ['}'])).reverse = '}' :: (inner.reverse ++ ['{']) := by simp
  rw [trim, hfirst, hlast, List.dropWhile_cons_of_neg (by decide)]
  simp

omit [BsonText] in
/-- A line that the export wrote reaches the parser as it is. -/
lemma sanitizeJsonLine_written (hserde : SerdeJson.RoundTrips) {es : List (String × Json)}
    {text : String} (htext : SerdeJson.toText (.object es) = .ok text) (lineNum : ℕ) :
    sanitizeJsonLine lineNum text = text ∧ text ≠ "" := by
  obtain ⟨inner, hinner, -⟩ := hserde.object_text es text htext
  have hbom : (text.toList).dropWhile (· = '\uFEFF') = text.toList := by
    rw [hinner, List.dropWhile_cons_of_neg (by decide)]
  refine ⟨?_, ?_⟩
  · rw [sanitizeJsonLine, hinner, trim_braces, ← hinner]
    split_ifs
    · rw [hbom, String.ofList_toList]
    · exact String.ofList_toList
  · rintro rfl
    cases hinner

namespace RangoEngine

variable {σ ω : Type} [Formatting] [MapStorage σ] [Oplog ω] [BsonCodec] [MutationHasher]

omit [BsonText] [SerdeJson] [Formatting] [MapStorage σ] [BsonCodec] [MutationHasher] in
lemma storage_of_report {e e' : RangoEngine σ ω} {m : Mutation} {t : WriteClock}
    {r : Except RangoError Unit} (h : e.report m t = (r, e')) : e'.storage = e.storage := by
  have hrest := congrArg RangoEngine.storage (report_rest e m t)
  rwa [h] at hrest

omit [BsonText] [SerdeJson] in
/-- A document that was inserted is stored under its id. -/
lemma insertOne_ok {e e' : RangoEngine σ ω} {c : CollectionName} {doc : Document} {t : WriteClock}
    {id : DocumentId} (h : e.insertOne c doc t = (.ok id, e')) :
    id = insertId doc t ∧
      docMap e'.storage c id.toString = some (e.insertWrite c doc t).doc := by
  obtain ⟨s', hput, hmap⟩ := storage_put_eq c (insertId doc t) (e.insertWrite c doc t).doc e.storage
  have hstorage : e.storagePut c (insertId doc t) (e.insertWrite c doc t).doc =
      (.ok (), { e with storage := s' }) := by
    rw [storagePut, hput]
  unfold insertOne at h
  dsimp only at h
  split at h
  · cases h
  · split at h
    · cases h
    · rw [show e.storagePut c (insertId doc t)
        ((stamp e.nodeId (t.revision e.nodeId) t (doc.insert "_id" (insertId doc t).bson)).remove
          "_deleted") = _ from hstorage] at h
      dsimp only at h
      split at h
      · cases h
      · next heq =>
        obtain ⟨hid, rfl⟩ := Prod.mk.inj h
        obtain rfl := Except.ok.inj hid
        refine ⟨rfl, ?_⟩
        rw [storage_of_report heq]
        show docMap s' c (insertId doc t).toString = _
        rw [hmap, DocMap.set_self]

omit [BsonText] [SerdeJson] [MapStorage σ] [Oplog ω] [BsonCodec] in
/-- The fields that an insert does not set are those of the document. -/
lemma get_insertWrite (e : RangoEngine σ ω) (c : CollectionName) {doc : Document} {b : Bson}
    (hid : doc.get "_id" = some b) (t : WriteClock) {k : String}
    (hk : k ∉ ["_rev", "_updated_at", "_source_node", "_deleted"]) :
    (e.insertWrite c doc t).doc.get k = doc.get k := by
  simp only [List.mem_cons, List.not_mem_nil, or_false, not_or] at hk
  have hsame : doc.insert "_id" b = doc := Document.insert_of_get hid
  rw [insertWrite, insertId, hid]
  dsimp only [DocumentId.fromBson]
  rw [hsame, Document.get_remove_of_ne _ (Ne.symm hk.2.2.2), stamp,
    Document.get_insert_of_ne _ _ (Ne.symm hk.2.2.1),
    Document.get_insert_of_ne _ _ (Ne.symm hk.2.1),
    Document.get_insert_of_ne _ _ (Ne.symm hk.1)]

omit [BsonText] [SerdeJson] in
/-- What was inserted is found under its id. -/
lemma findOne_inserted {e e' : RangoEngine σ ω} {c : CollectionName} {doc : Document}
    {t : WriteClock} {id : DocumentId} (h : e.insertOne c doc t = (.ok id, e')) :
    e'.findOne c id = .ok (some (e.insertWrite c doc t).doc) := by
  have halive : isDeleted (e.insertWrite c doc t).doc = false := by
    rw [insertWrite, isDeleted, Document.getBool, Document.get_remove_self]
    rfl
  rw [findOne, storageGet, storage_get_eq]
  dsimp only
  rw [(insertOne_ok h).2, Option.filter_some, halive]
  rfl

/-- An imported line is the insert of what its document returns as. -/
lemma insertOne_of_importLine (hserde : SerdeJson.RoundTrips) {d : Document} (hd : Exportable d)
    {text : String} (htext : SerdeJson.toText (bsonToJson (.document d.entries)) = .ok text)
    {e e' : RangoEngine σ ω} {c : CollectionName} {lineNum : ℕ} {t : WriteClock}
    (h : e.importLine c lineNum (.ok text) t = (some (.ok ()), e')) :
    ∃ d' id, d.returned = some d' ∧ e.insertOne c d' t = (.ok id, e') := by
  obtain ⟨hsane, hne⟩ := sanitizeJsonLine_written hserde htext lineNum
  have hparse := parseMongoJson_written hserde hd htext
  simp only [importLine, hsane, if_neg hne] at h
  cases hdoc : parseMongoJson text with
  | error err => rw [hdoc] at h; cases h
  | ok d' =>
    rw [hdoc] at h hparse
    dsimp only at h
    rcases hinsert : e.insertOne c d' t with ⟨r, e''⟩
    rw [hinsert] at h
    cases r with
    | error err => cases h
    | ok id =>
      obtain ⟨-, rfl⟩ := Prod.mk.inj h
      exact ⟨d', id, hparse.symm, hinsert⟩

omit [Formatting] [MapStorage σ] [Oplog ω] [BsonCodec] [MutationHasher] in
/-- Each field of a document returns for itself. -/
lemma get_returned {d d' : Document} (hd : Exportable d) (h : d.returned = some d') (k : String) :
    d'.get k = (d.get k).bind Bson.returned := by
  obtain ⟨bs, hbs, rfl⟩ := Option.map_eq_some_iff.mp h
  have hkeys : (d.entries.map Prod.fst).Nodup :=
    of_decide_eq_true (Bool.and_eq_true_iff.mp hd.carried).1
  rw [Bson.returnedEntries_eq] at hbs
  rw [Document.get, SortedMap.get_ofEntries (SortedMap.mapValues_keys hbs ▸ hkeys),
    SortedMap.get_mapValues hbs, Document.get]

/-- **Export, then import.** A document comes back as what its values return as. It is the same
document, its keys in order, exactly when all of its values survive. Where the `_id` does, it is
under its old id once an import has inserted it. -/
theorem export_import (hserde : SerdeJson.RoundTrips) {d : Document} (hd : Exportable d)
    {text : String} (htext : SerdeJson.toText (bsonToJson (.document d.entries)) = .ok text) :
    docToJson d = .ok text ∧
    (parseMongoJson text).toOption = d.returned ∧
    (d.returned = some d.sortKeys ↔ d.survives = true) ∧
    ∀ (e e' : RangoEngine σ ω) (c : CollectionName) (lineNum : ℕ) (t : WriteClock) (b : Bson),
      d.get "_id" = some b → b.returned = some b →
      e.importLine c lineNum (.ok text) t = (some (.ok ()), e') →
      ∃ d' found, d.returned = some d' ∧
        e'.findOne c (DocumentId.fromBson b) = .ok (some found) ∧
        ∀ k ∉ ["_rev", "_updated_at", "_source_node", "_deleted"], found.get k = d'.get k := by
  refine ⟨by rw [docToJson, htext], parseMongoJson_written hserde hd htext,
    Document.returned_eq_sortKeys_iff hd, fun e e' c lineNum t b hid hb himport => ?_⟩
  obtain ⟨d', id, hd', hinsert⟩ := insertOne_of_importLine hserde hd htext himport
  have hid' : d'.get "_id" = some b := by rw [get_returned hd hd', hid, Option.bind_some, hb]
  have hidb : id = DocumentId.fromBson b := by rw [(insertOne_ok hinsert).1, insertId, hid']
  subst hidb
  exact ⟨d', _, hd', findOne_inserted hinsert, fun k hk => get_insertWrite e c hid' t hk⟩

end RangoEngine
end
/-! ## A worked example -/

section

/-- A document as the engine makes them for documents without an id: a UUID stands under `_id`. -/
def sampleUuidDoc : Document := ⟨[("_id", .binary DocumentId.uuidSubtype (List.replicate 16 1))]⟩

attribute [local instance] Formatting.sample MutationHasher.sample Arithmetic.sample
  BsonText.sample

/-- A document with values inside of values, a long integer and an ObjectId. -/
def sampleNestedDoc : Document :=
  ⟨[("_id", .string "n"),
    ("address", .document [("floors", .array [.int32 1, .int64 2]), ("street", .null)]),
    ("owner", .objectId (List.replicate 12 1)), ("visits", .int64 5000000000)]⟩

/-- What it returns as: the ObjectId is a text, and the smaller of the long integers is short. -/
def sampleNestedReturned : Document :=
  ⟨[("_id", .string "n"),
    ("address", .document [("floors", .array [.int32 1, .int32 2]), ("street", .null)]),
    ("owner", .string "010101010101010101010101"), ("visits", .int64 5000000000)]⟩

/-- A codec that knows what is imported and what is stored of it. -/
@[reducible] def sampleImportCodec : BsonCodec :=
  .ofTable []
    [sampleDoc, sampleStored, sampleNestedReturned,
      (sampleWriter.insertWrite ⟨"c"⟩ sampleNestedReturned (.sample 2 0)).doc]

attribute [local instance] sampleImportCodec

/-- A serializer that knows the texts of three documents. -/
@[reducible] def sampleSerdeJson : SerdeJson :=
  .ofTable
    [bsonToJson (.document sampleDoc.entries), bsonToJson (.document sampleUuidDoc.entries),
      bsonToJson (.document sampleNestedDoc.entries)]

attribute [local instance] sampleSerdeJson

lemma sampleSerdeJson_roundTrips : SerdeJson.RoundTrips :=
  SerdeJson.ofTable_roundTrips (by decide +kernel) (by decide +kernel)

lemma sampleDoc_exportable : Exportable sampleDoc where
  carried := by decide +kernel
  regular := by decide +kernel
  shallow := by decide +kernel
  not_objectId oid := by
    intro h
    cases h

lemma sampleNestedDoc_exportable : Exportable sampleNestedDoc where
  carried := by decide +kernel
  regular := by decide +kernel
  shallow := by decide +kernel
  not_objectId oid := by
    intro h
    cases h

/-- The lines that the two are exported as. -/
def sampleDocLine : String := "\x7b\"_id\":\"d\"\x7d"

def sampleNestedLine : String :=
  "\x7b\"_id\":\"n\",\"address\":\x7b\"floors\":[1,2],\"street\":null\x7d," ++
    "\"owner\":\"010101010101010101010101\",\"visits\":5000000000\x7d"

/-- For the nested document, imported into a new engine. -/
theorem RangoEngine.export_import_nested :
    docToJson sampleNestedDoc = .ok sampleNestedLine ∧
    (parseMongoJson sampleNestedLine).toOption = sampleNestedDoc.returned ∧
    (sampleNestedDoc.returned = some sampleNestedDoc.sortKeys ↔ sampleNestedDoc.survives = true) ∧
    ∃ d' found, sampleNestedDoc.returned = some d' ∧
      (sampleWriter.importLine ⟨"c"⟩ 0 (.ok sampleNestedLine) (.sample 2 0)).2.findOne ⟨"c"⟩
        (DocumentId.fromBson (.string "n")) = .ok (some found) ∧
      ∀ k ∉ ["_rev", "_updated_at", "_source_node", "_deleted"], found.get k = d'.get k := by
  have hline : SerdeJson.toText (bsonToJson (.document sampleNestedDoc.entries)) =
      .ok sampleNestedLine := by decide +kernel
  obtain ⟨htext, hparse, hsame, himport⟩ := RangoEngine.export_import (σ := MemoryStorage)
    (ω := MemLog) sampleSerdeJson_roundTrips sampleNestedDoc_exportable hline
  have hinsert : (sampleWriter.importLine ⟨"c"⟩ 0 (.ok sampleNestedLine) (.sample 2 0)).1 =
      some (.ok ()) := by decide +kernel
  exact ⟨htext, hparse, hsame, himport sampleWriter _ ⟨"c"⟩ 0 (.sample 2 0) (.string "n") rfl rfl
    (Prod.fst_eq_iff.mp hinsert)⟩

example : sampleNestedDoc.returned = some sampleNestedReturned := by decide +kernel

/-- An exported UUID comes back as a string, which is another id. -/
theorem uuid_comes_back_as_string :
    (Bson.document sampleUuidDoc.entries).carried = true ∧
    ∃ text d', docToJson sampleUuidDoc = .ok text ∧ parseMongoJson text = .ok d' ∧
      d' ≠ sampleUuidDoc ∧ d'.get "_id" ≠ sampleUuidDoc.get "_id" ∧
      d'.get "_id" = some (.string "01010101-0101-0101-0101-010101010101") := by
  refine ⟨by decide +kernel, _, ⟨[("_id", .string "01010101-0101-0101-0101-010101010101")]⟩, rfl,
    ?_, ?_, ?_, ?_⟩
  · decide +kernel
  · decide +kernel
  · decide +kernel
  · decide +kernel

end
end Rango
