import Rango.Lib.Runs
import Rango.Index.Manager
import Rango.Query.OperatorTheorems

/-!
# Indexes against scans

An index is to answer like a scan with the filter `{field: value}`. It takes up every version of a
document under the key of its value and gives none up but all at once. `answers_all_along_iff` says
which calls keep it right: those that index a document for the first time, under a value that it
has, and those that remove the last one.
-/

namespace Rango

open Query

namespace IndexManager

variable {m : IndexManager} {c c' : CollectionName} {field : String} {doc : Document}

/-- What an index lists under a key. -/
def lookup (m : IndexManager) (c : CollectionName) (field : String) (key : IndexKey) :
    Option (List DocumentId) :=
  (IndexMap.get m.indexes (c.name, field)).map fun tree => (IndexMap.get tree key).getD []

lemma findByIndex_eq_ok_iff {v : Bson} {key : IndexKey} (hv : valueKey v = some key)
    {ids : List DocumentId} :
    m.findByIndex c field v = .ok ids ↔ m.lookup c field key = some ids := by
  unfold findByIndex lookup
  cases IndexMap.get m.indexes (c.name, field) with
  | none => simp
  | some tree => simp [hv]

/-- A new index is empty. -/
lemma lookup_createIndex (key : IndexKey) :
    (m.createIndex c ⟨[field]⟩).2.lookup c field key = some [] := by
  simp [createIndex, lookup, IndexMap.get]

lemma get_indexInto (tree : IndexTree) (doc : Document) (field : String) (id : DocumentId)
    (key : IndexKey) : (IndexMap.get (indexInto tree doc field id) key).getD [] =
      (IndexMap.get tree key).getD [] ++ if indexKey doc field = some key then [id] else [] := by
  unfold indexInto
  cases hkey : indexKey doc field with
  | none => simp
  | some key' =>
    dsimp only
    by_cases heq : key' = key
    · subst heq
      simp
    · rw [IndexMap.get_insert_of_ne _ _ heq, if_neg (by simpa using heq), List.append_nil]

lemma name_ne_iff : c.name ≠ c'.name ↔ c ≠ c' := by
  cases c
  cases c'
  simp

/-- A document is added under its key, in the indexes of its collection. -/
lemma lookup_indexDocument {id : Bson} (hid : doc.get "_id" = some id) (key : IndexKey) :
    (m.indexDocument c' doc).2.lookup c field key = (m.lookup c field key).map fun ids =>
      ids ++ if c = c' ∧ indexKey doc field = some key then [DocumentId.fromBson id] else [] := by
  unfold indexDocument lookup
  rw [hid]
  dsimp only
  rw [IndexMap.get_map m.indexes fun k tree => if k.1 ≠ c'.name then tree
    else indexInto tree doc k.2 (DocumentId.fromBson id)]
  rw [Option.map_map, Option.map_map]
  refine congrFun (congrArg Option.map (funext fun tree => ?_)) _
  show (IndexMap.get (if c.name ≠ c'.name then tree else _) key).getD [] = _
  by_cases hc : c = c'
  · subst hc
    simp [get_indexInto]
  · rw [if_pos (name_ne_iff.mpr hc)]
    simp [hc]

/-- A removal empties the indexes of the collection. -/
lemma lookup_removeDocument (key : IndexKey) :
    (m.removeDocument c' doc).2.lookup c field key = (m.lookup c field key).map fun ids =>
      if c = c' then [] else ids := by
  unfold removeDocument lookup
  dsimp only
  rw [IndexMap.get_map m.indexes fun k tree => if k.1 ≠ c'.name then tree else []]
  rw [Option.map_map, Option.map_map]
  refine congrFun (congrArg Option.map (funext fun tree => ?_)) _
  show (IndexMap.get (if c.name ≠ c'.name then tree else []) key).getD [] = _
  by_cases hc : c = c'
  · subst hc
    simp [IndexMap.get]
  · rw [if_pos (name_ne_iff.mpr hc)]
    simp [hc]

end IndexManager

/-! ## Scans -/

section
variable [BsonTraits] {field : String}

/-- A scan with the filter `{field: v}` finds the document. -/
def ScanMatches (field : String) (doc : Document) (v : Bson) : Prop :=
  matchesFilter doc ⟨[(field, v)]⟩ = .ok true

/-- A version of a document, if there is one, is found. -/
def ScanFinds (field : String) (version : Option Document) (v : Bson) : Prop :=
  ∃ doc, version = some doc ∧ ScanMatches field doc v

open IndexManager

/-- Values that an index holds are equal just when they have one key. -/
lemma compareEq_iff_valueKey (htraits : BsonTraits.Lawful)
    (hnull : BsonTraits.eq .null .null = true) {a v : Bson} (ha : (valueKey a).isSome)
    (hv : (valueKey v).isSome) :
    compareEq (some a) (some v) = true ↔ valueKey a = valueKey v := by
  have hmixed : a.ctorIdx ≠ v.ctorIdx → BsonTraits.eq a v = false := htraits.types a v
  cases a <;> cases ha <;> cases v <;> cases hv <;>
    simp [compareEq, valueKey, hnull, htraits.int32, htraits.int64, htraits.string]
  -- the values of different types are left, of different keys
  all_goals
    have hne := hmixed (by simp [Bson.ctorIdx])
    simp [hne]

/-- A scan for a value that an index holds. -/
lemma scanMatches_iff_compareEq {doc : Document} {v : Bson} (hv : (valueKey v).isSome) :
    ScanMatches field doc v ↔
      isOperator field = false ∧ compareEq (doc.get field) (some v) = true := by
  unfold ScanMatches
  cases hfield : isOperator field with
  | false =>
    rw [matchesFilter_field hfield]
    cases v <;> cases hv <;> simp [matchField]
  | true =>
    have hkey : matchKey doc field v = .error (.invalidQueryOperator field) := by
      rw [matchKey, hfield]
      rfl
    rw [matchesFilter, matchEntries, matchEntries, ShortCircuit.andThen_true]
    cases v <;> cases hv <;> simp only [matchOperator, hkey] <;> split_ifs <;> simp

/-- A scan for a value that an index holds, of a document that has such a value. -/
lemma scanMatches_iff_valueKey (htraits : BsonTraits.Lawful)
    (hnull : BsonTraits.eq .null .null = true) {doc : Document} {a v : Bson}
    (hdoc : doc.get field = some a) (ha : (valueKey a).isSome) (hv : (valueKey v).isSome) :
    ScanMatches field doc v ↔ isOperator field = false ∧ valueKey a = valueKey v := by
  rw [scanMatches_iff_compareEq hv, hdoc, compareEq_iff_valueKey htraits hnull ha hv]

/-- A document without the field is not found. -/
lemma not_scanMatches_of_missing {doc : Document} {v : Bson} (hdoc : doc.get field = none)
    (hv : (valueKey v).isSome) : ¬ScanMatches field doc v := by
  rw [scanMatches_iff_compareEq hv, hdoc]
  simp [compareEq]

end

/-! ## Runs -/

namespace IndexRun

/-- A list that takes up an element or does not, against a property that changes for it. -/
lemma lists_append_iff {ids : List DocumentId} {P Q : DocumentId → Prop} {b : DocumentId}
    {adds : Prop} [Decidable adds] (hnodup : ids.Nodup) (hmem : ∀ id, id ∈ ids ↔ P id)
    (hQ : ∀ id, id ≠ b → (Q id ↔ P id)) :
    ((ids ++ if adds then [b] else []).Nodup ∧
      ∀ id, id ∈ (ids ++ if adds then [b] else []) ↔ Q id) ↔
      if adds then ¬P b ∧ Q b else (P b ↔ Q b) := by
  by_cases hadds : adds
  · simp only [if_pos hadds]
    rw [List.nodup_append]
    simp only [List.mem_append, List.mem_singleton, hmem]
    constructor
    · intro ⟨⟨_, _, hne⟩, hall⟩
      exact ⟨fun hb => hne b hb b rfl rfl, (hall b).mp (.inr rfl)⟩
    · intro ⟨hb, hq⟩
      refine ⟨⟨hnodup, List.nodup_singleton b, ?_⟩, fun id => ?_⟩
      · rintro x hx _ rfl rfl
        exact hb hx
      · by_cases hid : id = b
        · subst hid
          simp [hq]
        · simp [hid, hQ id hid]
  · simp only [if_neg hadds, List.append_nil, hmem]
    constructor
    · intro ⟨_, hall⟩
      exact hall b
    · intro hb
      refine ⟨hnodup, fun id => ?_⟩
      by_cases hid : id = b
      · subst hid
        exact hb
      · exact (hQ id hid).symm

section
variable [BsonTraits] {m : IndexManager} {c c' : CollectionName} {field : String} {doc : Document}
  {r : IndexRun}

open IndexManager

/-- The index lists the documents whose latest version a scan finds, each once. -/
def Answers (c : CollectionName) (field : String) (r : IndexRun) : Prop :=
  ∀ v, (valueKey v).isSome → ∃ ids, r.manager.findByIndex c field v = .ok ids ∧ ids.Nodup ∧
    ∀ id, id ∈ ids ↔ ScanFinds field (r.latest c id) v

/-- A document that is indexed has the field. Under a value that the index holds, no version of it
is to be found already; under another one, the scan is to find it where it found the last version.
A document that is removed is the only one that can be found. -/
def Tracks (c : CollectionName) (field : String) (r : IndexRun) : IndexCall → Prop
  | .index c' doc => c' = c → ∀ b, doc.get "_id" = some b →
      ∃ value, doc.get field = some value ∧
        if (valueKey value).isSome then
          isOperator field = false ∧
            ∀ v, (valueKey v).isSome → ¬ScanFinds field (r.latest c (.fromBson b)) v
        else
          ∀ v, (valueKey v).isSome →
            (ScanFinds field (r.latest c (.fromBson b)) v ↔ ScanMatches field doc v)
  | .remove c' doc => c' = c → ∀ id, (∀ b, doc.get "_id" = some b → id ≠ .fromBson b) →
      ∀ v, (valueKey v).isSome → ¬ScanFinds field (r.latest c id) v

/-- What the index lists under a value is what a scan finds. -/
lemma Answers.mem_iff (h : Answers c field r) {v : Bson} (hv : (valueKey v).isSome)
    {ids : List DocumentId} (hfind : r.manager.findByIndex c field v = .ok ids)
    (id : DocumentId) : id ∈ ids ↔ ScanFinds field (r.latest c id) v := by
  obtain ⟨ids', hfind', -, hmem⟩ := h v hv
  rw [hfind] at hfind'
  cases hfind'
  exact hmem id

/-- The answers, by key. -/
lemma answers_iff_lookup : Answers c field r ↔
    ∀ v key, valueKey v = some key → ∃ ids, r.manager.lookup c field key = some ids ∧ ids.Nodup ∧
      ∀ id, id ∈ ids ↔ ScanFinds field (r.latest c id) v := by
  constructor
  · intro h v key hv
    obtain ⟨ids, hfind, hids⟩ := h v (by simp [hv])
    exact ⟨ids, (findByIndex_eq_ok_iff hv).mp hfind, hids⟩
  · intro h v hv
    obtain ⟨key, hkey⟩ := Option.isSome_iff_exists.mp hv
    obtain ⟨ids, hlookup, hids⟩ := h v key hkey
    exact ⟨ids, (findByIndex_eq_ok_iff hkey).mpr hlookup, hids⟩

/-- A call in another collection. -/
lemma answers_step_other {call : IndexCall} (hlookup : ∀ key,
      (r.step call).manager.lookup c field key = r.manager.lookup c field key)
    (hlatest : ∀ id, (r.step call).latest c id = r.latest c id) :
    Answers c field (r.step call) ↔ Answers c field r := by
  rw [answers_iff_lookup, answers_iff_lookup]
  simp only [hlookup, hlatest]

/-- A document that is indexed. -/
lemma answers_step_index (hanswers : Answers c field r) {b : Bson}
    (hid : doc.get "_id" = some b) :
    Answers c field (r.step (.index c doc)) ↔ ∀ v key, valueKey v = some key →
      if indexKey doc field = some key then
        ¬ScanFinds field (r.latest c (.fromBson b)) v ∧ ScanMatches field doc v
      else (ScanFinds field (r.latest c (.fromBson b)) v ↔ ScanMatches field doc v) := by
  rw [answers_iff_lookup]
  refine forall_congr' fun v => forall_congr' fun key => forall_congr' fun hkey => ?_
  obtain ⟨ids, hlookup, hnodup, hmem⟩ := answers_iff_lookup.mp hanswers v key hkey
  have hnow : (r.step (.index c doc)).manager.lookup c field key =
      some (ids ++ if indexKey doc field = some key then [DocumentId.fromBson b] else []) := by
    show (r.manager.indexDocument c doc).2.lookup c field key = _
    rw [lookup_indexDocument hid, hlookup]
    simp
  have hlatest : ∀ id, (r.step (.index c doc)).latest c id =
      if id = .fromBson b then some doc else r.latest c id := by
    intro id
    simp [step, hid, setLatest]
  have hself : ScanFinds field ((r.step (.index c doc)).latest c (.fromBson b)) v ↔
      ScanMatches field doc v := by
    rw [hlatest, if_pos rfl]
    simp [ScanFinds]
  rw [hnow]
  simp only [Option.some.injEq, exists_eq_left']
  rw [lists_append_iff hnodup hmem fun id hne => by rw [hlatest, if_neg hne], hself]

/-- A document with a value that the index holds is listed under one key, and a scan finds it under
that key, unless the field is an operator. So nothing may have been found before. -/
lemma listed_once_iff (htraits : BsonTraits.Lawful) (hnull : BsonTraits.eq .null .null = true)
    {value : Bson} {k : IndexKey} (hvalue : doc.get field = some value)
    (hkey : valueKey value = some k) (found : Bson → Prop) :
    (∀ v key, valueKey v = some key → if some k = some key then
        ¬found v ∧ ScanMatches field doc v else (found v ↔ ScanMatches field doc v)) ↔
      isOperator field = false ∧ ∀ v, (valueKey v).isSome → ¬found v := by
  have hscan : ∀ v, (valueKey v).isSome →
      (ScanMatches field doc v ↔ isOperator field = false ∧ some k = valueKey v) := by
    intro v hv
    rw [scanMatches_iff_valueKey htraits hnull hvalue (by simp [hkey]) hv, hkey]
  constructor
  · intro h
    have hself := h value k hkey
    rw [if_pos rfl] at hself
    refine ⟨((hscan value (by simp [hkey])).mp hself.2).1, fun v hv => ?_⟩
    obtain ⟨key, hkey'⟩ := Option.isSome_iff_exists.mp hv
    have hv' := h v key hkey'
    by_cases heq : some k = some key
    · rw [if_pos heq] at hv'
      exact hv'.1
    · rw [if_neg heq, hscan v hv, hkey'] at hv'
      exact fun hfound => heq (hv'.mp hfound).2
  · intro ⟨hoperator, hfresh⟩ v key hv
    have hv' : (valueKey v).isSome := by simp [hv]
    by_cases heq : some k = some key
    · rw [if_pos heq, hscan v hv', hv]
      exact ⟨hfresh v hv', hoperator, heq⟩
    · rw [if_neg heq, hscan v hv', hv]
      exact iff_of_false (hfresh v hv') fun h => heq h.2

/-- A document that is indexed keeps the index right just when the call tracks it. -/
lemma answers_index_iff (htraits : BsonTraits.Lawful) (hnull : BsonTraits.eq .null .null = true)
    (hanswers : Answers c field r) {b : Bson} (hid : doc.get "_id" = some b) :
    Answers c field (r.step (.index c doc)) ↔ Tracks c field r (.index c doc) := by
  rw [answers_step_index hanswers hid]
  have htracks : Tracks c field r (.index c doc) ↔ ∃ value, doc.get field = some value ∧
      if (valueKey value).isSome then
        isOperator field = false ∧
          ∀ v, (valueKey v).isSome → ¬ScanFinds field (r.latest c (.fromBson b)) v
      else ∀ v, (valueKey v).isSome →
        (ScanFinds field (r.latest c (.fromBson b)) v ↔ ScanMatches field doc v) := by
    simp [Tracks, hid]
  rw [htracks]
  cases hvalue : doc.get field with
  | none =>
    -- listed under null, where no scan finds it
    have hkey : indexKey doc field = some .null := by simp [indexKey, hvalue]
    refine iff_of_false (fun h => ?_) (by simp)
    have hnone := h .null .null rfl
    rw [if_pos hkey] at hnone
    exact not_scanMatches_of_missing hvalue rfl hnone.2
  | some value =>
    have hkey : indexKey doc field = valueKey value := by simp [indexKey, hvalue]
    simp only [hkey, Option.some.injEq, exists_eq_left']
    cases hsome : valueKey value with
    | none =>
      simp only [Option.isSome_none, Bool.false_eq_true, if_false, reduceCtorEq,
        Option.isSome_iff_exists]
      exact forall_congr' fun v => ⟨fun h ⟨key, hv⟩ => h key hv, fun h key hv => h ⟨key, hv⟩⟩
    | some k =>
      simp only [Option.isSome_some, if_true]
      exact listed_once_iff htraits hnull hvalue hsome _

/-- A removal keeps the index right just when it leaves no document that can be found. -/
lemma answers_remove_iff (hanswers : Answers c field r) :
    Answers c field (r.step (.remove c doc)) ↔ Tracks c field r (.remove c doc) := by
  have hlatest : ∀ id, (r.step (.remove c doc)).latest c id =
      if (∃ b, doc.get "_id" = some b ∧ id = .fromBson b) then none else r.latest c id := by
    intro id
    cases hid : doc.get "_id" with
    | none => simp [step, hid]
    | some b => simp [step, hid, setLatest]
  have hempty : ∀ v key, valueKey v = some key →
      (r.step (.remove c doc)).manager.lookup c field key = some [] := by
    intro v key hv
    obtain ⟨ids, hlookup, -⟩ := answers_iff_lookup.mp hanswers v key hv
    show (r.manager.removeDocument c doc).2.lookup c field key = _
    rw [lookup_removeDocument, hlookup]
    simp
  rw [answers_iff_lookup]
  constructor
  · -- whatever can still be found is not listed any more
    intro h _ id hother v hv hfound
    obtain ⟨key, hkey⟩ := Option.isSome_iff_exists.mp hv
    obtain ⟨ids, hlookup, -, hmem⟩ := h v key hkey
    rw [hempty v key hkey] at hlookup
    cases hlookup
    have hgone := (hmem id).mpr
    rw [hlatest, if_neg (by rintro ⟨b, hb, hid⟩; exact hother b hb hid)] at hgone
    cases hgone hfound
  · intro h v key hv
    refine ⟨[], hempty v key hv, List.nodup_nil, fun id => iff_of_false (by simp) ?_⟩
    rw [hlatest]
    split_ifs with hid
    · simp [ScanFinds]
    · exact h rfl id (fun b hb heq => hid ⟨b, hb, heq⟩) v (by simp [hv])

/-- **One call.** -/
theorem answers_step_iff (htraits : BsonTraits.Lawful)
    (hnull : BsonTraits.eq .null .null = true) (call : IndexCall) (hanswers : Answers c field r) :
    Answers c field (r.step call) ↔ Tracks c field r call := by
  cases call with
  | index c' doc =>
    by_cases hc : c' = c
    · subst hc
      cases hid : doc.get "_id" with
      | some b => exact answers_index_iff htraits hnull hanswers hid
      | none =>
        have hsame : r.step (.index c' doc) = r := by simp [step, indexDocument, hid]
        rw [hsame]
        exact iff_of_true hanswers (by simp [Tracks, hid])
    · refine iff_of_true ((answers_step_other (fun key => ?_) fun id => ?_).mpr hanswers)
        (fun h => absurd h hc)
      · cases hid : doc.get "_id" with
        | none => simp [step, indexDocument, hid]
        | some b =>
          show (r.manager.indexDocument c' doc).2.lookup c field key = _
          rw [lookup_indexDocument hid]
          simp [Ne.symm hc]
      · cases hid : doc.get "_id" with
        | none => simp [step, hid]
        | some b => simp [step, hid, setLatest, Ne.symm hc]
  | remove c' doc =>
    by_cases hc : c' = c
    · subst hc
      exact answers_remove_iff hanswers
    · refine iff_of_true ((answers_step_other (fun key => ?_) fun id => ?_).mpr hanswers)
        (fun h => absurd h hc)
      · show (r.manager.removeDocument c' doc).2.lookup c field key = _
        rw [lookup_removeDocument]
        simp [Ne.symm hc]
      · cases hid : doc.get "_id" with
        | none => simp [step, hid]
        | some b => simp [step, hid, setLatest, Ne.symm hc]

lemma answers_start (m : IndexManager) (c : CollectionName) (field : String) :
    Answers c field (start m c field) := by
  intro v hv
  obtain ⟨key, hkey⟩ := Option.isSome_iff_exists.mp hv
  exact ⟨[], (findByIndex_eq_ok_iff hkey).mpr (lookup_createIndex key), List.nodup_nil,
    fun id => iff_of_false (by simp) (by simp [start, ScanFinds])⟩

/-- **Indexes answer like scans.** A new index lists what a scan finds all along the runs in which
each call tracks it, and in no others. -/
theorem answers_all_along_iff (htraits : BsonTraits.Lawful)
    (hnull : BsonTraits.eq .null .null = true) (m : IndexManager) (c : CollectionName)
    (field : String) (calls : List IndexCall) :
    (∀ pre, pre <+: calls → Answers c field (pre.foldl step (start m c field))) ↔
      Runs.All step (Tracks c field) (start m c field) calls :=
  Runs.forall_prefix_iff_all (fun _ call => answers_step_iff htraits hnull call) calls
    (answers_start m c field)

end

section
attribute [local instance] BsonTraits.ieee

open IndexManager

/-- A document with this id and these fields. -/
def sampleIndexed (id : ℤ) (entries : List (String × Bson)) : Document :=
  ⟨("_id", .int64 id) :: entries⟩

/-- What the calls leave of a new index. -/
def sampleIndex (calls : List IndexCall) : IndexRun :=
  calls.foldl step (start .new ⟨"c"⟩ "a")

/-- A document comes and goes, and comes back beside another one. -/
theorem answers_all_along_sample : Answers ⟨"c"⟩ "a" (sampleIndex
    [.index ⟨"c"⟩ (sampleIndexed 1 [("a", .int32 5)]),
      .remove ⟨"c"⟩ (sampleIndexed 1 [("a", .int32 5)]),
      .index ⟨"c"⟩ (sampleIndexed 1 [("a", .string "x")]),
      .index ⟨"c"⟩ (sampleIndexed 2 [("a", .null)])]) := by
  refine (answers_all_along_iff BsonTraits.ieee_lawful rfl .new ⟨"c"⟩ "a" _).mpr ?_ _
    (List.prefix_refl _)
  have hnone : ∀ r : IndexRun, ∀ id, r.latest ⟨"c"⟩ id = none →
      ∀ v, (valueKey v).isSome → ¬ScanFinds "a" (r.latest ⟨"c"⟩ id) v := by
    intro r id hlatest v _
    simp [ScanFinds, hlatest]
  refine ⟨fun _ b hb => ⟨.int32 5, rfl, rfl, ?_⟩, fun _ id hid => ?_,
    fun _ b hb => ⟨.string "x", rfl, rfl, ?_⟩, fun _ b hb => ⟨.null, rfl, rfl, ?_⟩, trivial⟩
  · cases hb
    exact hnone _ _ rfl
  · exact hnone _ _ (if_neg fun h => hid _ rfl h.2)
  · cases hb
    exact hnone _ _ rfl
  · cases hb
    exact hnone _ _ rfl

/-- A removal takes away another document, the old value of a document stays, and a document
without the field is listed under null. -/
theorem index_strays :
    ¬Answers ⟨"c"⟩ "a" (sampleIndex
      [.index ⟨"c"⟩ (sampleIndexed 1 [("a", .int32 5)]),
        .index ⟨"c"⟩ (sampleIndexed 2 [("a", .int32 5)]),
        .remove ⟨"c"⟩ (sampleIndexed 1 [("a", .int32 5)])]) ∧
    ¬Answers ⟨"c"⟩ "a" (sampleIndex
      [.index ⟨"c"⟩ (sampleIndexed 1 [("a", .int32 5)]),
        .index ⟨"c"⟩ (sampleIndexed 1 [("a", .int32 6)])]) ∧
    ¬Answers ⟨"c"⟩ "a" (sampleIndex [.index ⟨"c"⟩ (sampleIndexed 1 [])]) := by
  refine ⟨fun h => ?_, fun h => ?_, fun h => ?_⟩
  · have hiff := h.mem_iff (v := .int32 5) rfl rfl ⟨.int64 2⟩
    exact List.not_mem_nil (hiff.mpr ⟨sampleIndexed 2 [("a", .int32 5)], rfl, rfl⟩)
  · have hiff := h.mem_iff (v := .int32 5) rfl rfl ⟨.int64 1⟩
    obtain ⟨doc, hdoc, hmatches⟩ := hiff.mp (List.mem_singleton_self _)
    cases hdoc
    cases hmatches
  · have hiff := h.mem_iff (v := .null) rfl rfl ⟨.int64 1⟩
    obtain ⟨doc, hdoc, hmatches⟩ := hiff.mp (List.mem_singleton_self _)
    cases hdoc
    cases hmatches

end
end IndexRun
end Rango
