import Rango.Lib.Flattening
import Rango.Lib.Runs
import Rango.Storage.Redb

/-!
# Two backends, call by call

The redb backend against the in-memory one, over runs of calls with any collection names and
ids. One table for all collections is one map for each as long as no call comes upon a
document of another collection: under its key, or, for a scan, under a key that starts with
the scanned collection and a zero byte. A collection name may hold zero bytes, and then it
can.
-/

namespace Rango

open Flattening

section
variable [Formatting]

/-! ## Calls that come upon another collection -/

/-- The keys of the table that a call works on. -/
def StorageCall.Touches : StorageCall → List UInt8 → Prop
  | .get c id, key => key = RedbStorage.encodeKey c id.toString
  | .put c id _, key => key = RedbStorage.encodeKey c id.toString
  | .delete c id, key => key = RedbStorage.encodeKey c id.toString
  | .scan c, key => RedbStorage.collectionPrefix c <+: key

/-- No other collection holds a document under a key that the call works on. -/
def StorageCall.Apart (D : DocMap) (x : StorageCall) : Prop :=
  HeldBy RedbStorage.encodeKey D x.collection x.Touches

/-- The table holds the documents of the collections, each key for one of them. -/
def TableOf (D : DocMap) (r : RedbStorage) : Prop :=
  Flattens RedbStorage.encodeKey D fun key => r.table[key]?

omit [Formatting] in
lemma tableOf_new : TableOf MemoryStorage.new.view RedbStorage.openNew := by
  have hnone : MemoryStorage.new.view = fun _ _ => none := rfl
  rw [TableOf, hnone]
  refine ⟨fun key d => ?_, fun h => ?_⟩
  · simp [RedbStorage.openNew]
  · cases h

lemma TableOf.put {D : DocMap} {r : RedbStorage} (h : TableOf D r) {c : CollectionName}
    {id : DocumentId} {doc : Document} (hx : (StorageCall.put c id doc).Apart D) :
    TableOf (D.set c id.toString (some doc)) (RedbStorage.put c id doc r).2 := by
  refine Flattens.set (i := c) RedbStorage.encodeKey_injective h hx (DocMap.set_self ..)
    (fun j l hjl => D.set_of_ne _ hjl) ?_ fun key hkey => ?_
  · simp [RedbStorage.put]
  · simp [RedbStorage.put, Std.TreeMap.getElem?_insert, Ne.symm hkey]

lemma TableOf.delete {D : DocMap} {r : RedbStorage} (h : TableOf D r) {c : CollectionName}
    {id : DocumentId} (hx : (StorageCall.delete c id).Apart D) :
    TableOf (D.set c id.toString none) (RedbStorage.delete c id r).2 := by
  refine Flattens.set (i := c) RedbStorage.encodeKey_injective h hx (DocMap.set_self ..)
    (fun j l hjl => D.set_of_ne _ hjl) ?_ fun key hkey => ?_
  · simp [RedbStorage.delete]
  · simp [RedbStorage.delete, Std.TreeMap.getElem?_erase, Ne.symm hkey]

/-! ## One call -/

/-- A call answers the same on both backends exactly when it comes upon no other collection, a
put always. -/
theorem same_answer_iff {m : MemoryStorage} {r : RedbStorage} (h : TableOf m.view r)
    (x : StorageCall) :
    (x.perform r).1.Same (x.perform m).1 ↔ x.Apart m.view ∨ x.isPut = true := by
  cases x with
  | get c id =>
    have hiff := Flattens.get_iff RedbStorage.encodeKey_injective h c id.toString
    refine Iff.trans ?_ (hiff.trans (or_iff_left Bool.false_ne_true).symm)
    exact ⟨fun hsame => Except.ok.inj (StorageAnswer.get.inj hsame),
      fun hget => congrArg (fun found => StorageAnswer.get (.ok found)) hget⟩
  -- a put answers alike, whatever it overwrites
  | put c id doc => exact iff_of_true rfl (Or.inr rfl)
  | delete c id =>
    have hiff := Flattens.isSome_get_iff RedbStorage.encodeKey_injective h c id.toString
    refine Iff.trans ?_ (hiff.trans (or_iff_left Bool.false_ne_true).symm)
    have hm : (StorageCall.perform m (.delete c id)).1 =
        .delete (.ok (m.view c id.toString).isSome) :=
      congrArg StorageAnswer.delete (MemoryStorage.delete_ok c id m)
    rw [hm]
    exact ⟨fun hsame => Except.ok.inj (StorageAnswer.delete.inj hsame),
      fun hget => congrArg (fun existed => StorageAnswer.delete (.ok existed)) hget⟩
  | scan c =>
    obtain ⟨docs, hscan, hnodup, hmem⟩ := MemoryStorage.scan_eq c m
    have hm : (StorageCall.perform m (.scan c)).1 = .scan (.ok (docs.map fun e => .ok e.2)) := by
      show StorageAnswer.scan (MemoryStorage.scan c m).1 = _
      rw [hscan]
    -- both scans list documents once: by key there, by printed id here
    have hkeys : (r.table.toList.map Prod.fst).Nodup :=
      List.pairwise_map.mpr (Std.TreeMap.distinct_keys_toList.imp fun hne heq =>
        hne (Std.compare_eq_iff_eq.mpr heq))
    have hiff := Flattens.scan_iff RedbStorage.encodeKey_injective h (i := c)
      (p := (RedbStorage.collectionPrefix c).isPrefixOf)
      (fun k => List.isPrefixOf_iff_prefix.mpr (RedbStorage.collectionPrefix_prefix_encodeKey c k))
      hkeys (fun key b => Std.TreeMap.mem_toList_iff_getElem?_eq_some) hnodup hmem
    simp only [List.isPrefixOf_iff_prefix] at hiff
    rw [hm]
    refine Iff.trans ?_ (hiff.trans (or_iff_left Bool.false_ne_true).symm)
    have hok : Function.Injective (Except.ok : Document → Except RangoError Document) :=
      fun _ _ => Except.ok.inj
    rw [← List.map_perm_map_iff hok, List.map_map, List.map_map]
    rfl

/-- A call that comes upon no other collection keeps the table that of the collections. -/
theorem TableOf.perform {m : MemoryStorage} {r : RedbStorage} (h : TableOf m.view r)
    {x : StorageCall} (hx : x.Apart m.view) :
    TableOf (x.perform m).2.view (x.perform r).2 := by
  cases x with
  | get c id => exact h
  | scan c => exact h
  | put c id doc =>
    rw [show (StorageCall.perform m (.put c id doc)).2.view = _ from
      MemoryStorage.view_put c id doc m]
    exact h.put hx
  | delete c id =>
    rw [show (StorageCall.perform m (.delete c id)).2.view = _ from
      MemoryStorage.view_delete c id m]
    exact h.delete hx

/-! ## Runs -/

/-- What a collection holds after a run was put there by the run, or was there before. -/
lemma put_of_view {m : MemoryStorage} {calls : List StorageCall} {c : CollectionName} {k : String}
    {doc : Document} (h : (calls.foldl StorageCall.next m).view c k = some doc) :
    m.view c k = some doc ∨ ∃ id, .put c id doc ∈ calls := by
  induction calls generalizing m with
  | nil => exact Or.inl h
  | cons x rest ih =>
    rcases ih h with hview | ⟨id, hid⟩
    · cases x with
      | get c' id => exact Or.inl hview
      | scan c' => exact Or.inl hview
      | put c' id doc' =>
        rw [show (StorageCall.next m (.put c' id doc')).view = _ from
          MemoryStorage.view_put c' id doc' m] at hview
        rcases DocMap.of_set hview with ⟨rfl, -, hsome⟩ | hview
        · rw [Option.some.inj hsome]
          exact Or.inr ⟨id, List.mem_cons_self⟩
        · exact Or.inl hview
      | delete c' id =>
        rw [show (StorageCall.next m (.delete c' id)).view = _ from
          MemoryStorage.view_delete c' id m] at hview
        rcases DocMap.of_set hview with ⟨-, -, hsome⟩ | hview
        · cases hsome
        · exact Or.inl hview
    · exact Or.inr ⟨id, List.mem_cons_of_mem _ hid⟩

/-- After a run on an empty backend, a scan lists what the run has put under the collection. -/
lemma put_of_mem_scan {calls : List StorageCall} {c : CollectionName} {doc : Document}
    (h : doc ∈ (StorageCall.perform (calls.foldl StorageCall.next MemoryStorage.new)
      (.scan c)).1.docs) : ∃ id, .put c id doc ∈ calls := by
  obtain ⟨docs, hscan, -, hmem⟩ :=
    MemoryStorage.scan_eq c (calls.foldl StorageCall.next MemoryStorage.new)
  have hlist : (StorageCall.perform (calls.foldl StorageCall.next MemoryStorage.new)
      (.scan c)).1.docs = docs.map Prod.snd := by
    show StorageAnswer.docs (.scan (MemoryStorage.scan c _).1) = _
    rw [hscan]
    simp [StorageAnswer.docs, Except.toOption, Function.comp_def, List.filterMap_map]
  rw [hlist] at h
  obtain ⟨⟨k, d⟩, hin, rfl⟩ := List.mem_map.mp h
  exact (put_of_view ((hmem k d).mp hin)).resolve_left fun hnew => by cases hnew

omit [Formatting] in
/-- The same answers list the same documents. -/
lemma StorageAnswer.Same.mem_docs {a b : StorageAnswer} (h : a.Same b) (doc : Document) :
    doc ∈ a.docs ↔ doc ∈ b.docs := by
  unfold Same at h
  split at h
  · exact (h.filterMap _).mem_iff
  · rw [h]

lemma puts_apart {m : MemoryStorage} {calls : List StorageCall}
    (h : Runs.All StorageCall.next (fun m x => x.Apart m.view) m calls) :
    Runs.All StorageCall.next (fun m x => x.isPut = true → x.Apart m.view) m calls :=
  h.imp fun _ x hx (_ : x.isPut = true) => hx

/-- Two backends in step stay so as long as no call comes upon another collection. -/
lemma same_answers_iff {m : MemoryStorage} {r : RedbStorage} (h : TableOf m.view r)
    {calls : List StorageCall}
    (hputs : Runs.All StorageCall.next (fun m x => x.isPut = true → x.Apart m.view) m calls) :
    (∀ pre x, pre ++ [x] <+: calls →
      (x.perform (pre.foldl StorageCall.next r)).1.Same
        (x.perform (pre.foldl StorageCall.next m)).1) ↔
    Runs.All StorageCall.next (fun m x => x.Apart m.view) m calls := by
  induction calls generalizing m r with
  | nil => exact iff_of_true (by simp) trivial
  | cons y rest ih =>
    obtain ⟨hput, hrest⟩ := hputs
    constructor
    · intro hsame
      have hy : y.Apart m.view :=
        ((same_answer_iff h y).mp (hsame [] y (List.prefix_append [y] rest))).elim id hput
      refine ⟨hy, (ih (h.perform hy) hrest).mp fun pre x hpre => ?_⟩
      exact hsame (y :: pre) x (List.cons_prefix_cons.mpr ⟨rfl, hpre⟩)
    · rintro ⟨hy, hall⟩ pre x hpre
      cases pre with
      | nil =>
        obtain ⟨rfl, -⟩ := List.cons_prefix_cons.mp hpre
        exact (same_answer_iff h x).mpr (Or.inl hy)
      | cons y' pre =>
        obtain ⟨rfl, hpre'⟩ := List.cons_prefix_cons.mp hpre
        exact (ih (h.perform hy) hrest).mpr hall pre x hpre'

/-- **The two backends agree.** For every sequence of calls on new backends, with any collection
names and ids, in which no put finds a document of another collection under its key: redb
returns what the in-memory backend returns, scans as multisets, and its scans list only what
was put under the scanned collection, exactly when no call of the sequence comes upon a document
of another collection, under its key or, for a scan, under a key that starts with the scanned
collection and a zero byte. -/
theorem redb_agrees_iff {calls : List StorageCall}
    (hputs : Runs.All StorageCall.next (fun m x => x.isPut = true → x.Apart m.view)
      MemoryStorage.new calls) :
    (∀ pre x, pre ++ [x] <+: calls →
      (x.perform (pre.foldl StorageCall.next RedbStorage.openNew)).1.Same
        (x.perform (pre.foldl StorageCall.next MemoryStorage.new)).1 ∧
      ∀ c, x = .scan c →
        ∀ doc ∈ (x.perform (pre.foldl StorageCall.next RedbStorage.openNew)).1.docs,
          ∃ id, .put c id doc ∈ pre) ↔
    Runs.All StorageCall.next (fun m x => x.Apart m.view) MemoryStorage.new calls := by
  rw [← same_answers_iff tableOf_new hputs]
  refine ⟨fun h pre x hpre => (h pre x hpre).1, fun h pre x hpre => ⟨h pre x hpre, ?_⟩⟩
  rintro c rfl doc hdoc
  exact put_of_mem_scan (((h pre _ hpre).mem_docs doc).mp hdoc)

/-! ## Collection names -/

/-- No name of the set is another one, a zero byte and more. -/
def Separated (S : Set CollectionName) : Prop :=
  ∀ c ∈ S, ∀ c' ∈ S, ¬ RedbStorage.collectionPrefix c <+: asBytes c'.name

/-- A call works on keys that start with its collection and a zero byte. -/
lemma StorageCall.Touches.prefix {x : StorageCall} {key : List UInt8} (h : x.Touches key) :
    RedbStorage.collectionPrefix x.collection <+: key := by
  cases x with
  | scan c => exact h
  | get c id => exact h ▸ RedbStorage.collectionPrefix_prefix_encodeKey c _
  | put c id doc => exact h ▸ RedbStorage.collectionPrefix_prefix_encodeKey c _
  | delete c id => exact h ▸ RedbStorage.collectionPrefix_prefix_encodeKey c _

/-- Calls with separated names never come upon another collection. -/
lemma Separated.all_apart {S : Set CollectionName} (hS : Separated S) {calls : List StorageCall}
    (hnames : ∀ x ∈ calls, x.collection ∈ S) :
    Runs.All StorageCall.next (fun m x => x.Apart m.view) MemoryStorage.new calls := by
  refine Runs.all_iff_forall_prefix.mpr fun pre x hpre c k hk htouch => ?_
  have hx : x.collection ∈ S := hnames x (hpre.subset (by simp))
  have hc : c ∈ S := by
    obtain ⟨doc, hdoc⟩ := Option.isSome_iff_exists.mp hk
    obtain ⟨id, hid⟩ := (put_of_view hdoc).resolve_left fun hnew => by cases hnew
    exact hnames _ (hpre.subset (List.mem_append_left [x] hid))
  rcases RedbStorage.prefix_encodeKey htouch.prefix with heq | hclash | hclash
  · exact heq.symm
  · exact absurd hclash (hS _ hx c hc)
  · exact absurd hclash (hS c hc _ hx)

/-- The names with which the backends agree: on all sequences of calls with names of the set,
exactly when none of the names is another one, a zero byte and more. -/
theorem redb_agrees_on_iff (S : Set CollectionName) :
    (∀ calls : List StorageCall, (∀ x ∈ calls, x.collection ∈ S) → ∀ pre x, pre ++ [x] <+: calls →
      (x.perform (pre.foldl StorageCall.next RedbStorage.openNew)).1.Same
        (x.perform (pre.foldl StorageCall.next MemoryStorage.new)).1) ↔ Separated S := by
  constructor
  · intro h c hc c' hc' hclash
    -- put a document under the longer name, and scan the shorter
    have hnames : ∀ x ∈ [StorageCall.put c' ⟨.null⟩ .empty, .scan c], x.collection ∈ S := by
      simp [StorageCall.collection, hc, hc']
    have hput : (StorageCall.put c' ⟨.null⟩ .empty).Apart MemoryStorage.new.view := by
      intro _ _ hl
      cases hl
    have hputs : Runs.All StorageCall.next (fun m x => x.isPut = true → x.Apart m.view)
        MemoryStorage.new [.put c' ⟨.null⟩ .empty, .scan c] := by
      simp only [Runs.all_cons, Runs.all_nil, and_true]
      exact ⟨fun _ => hput, fun hscan => absurd hscan Bool.false_ne_true⟩
    have hall := (same_answers_iff tableOf_new hputs).mp (h _ hnames)
    have hsome : ((StorageCall.next MemoryStorage.new (.put c' ⟨.null⟩ .empty)).view c'
        (DocumentId.toString ⟨.null⟩)).isSome := by
      rw [show (StorageCall.next MemoryStorage.new (.put c' ⟨.null⟩ .empty)).view = _ from
        MemoryStorage.view_put c' ⟨.null⟩ .empty MemoryStorage.new, DocMap.set_self]
      rfl
    have heq : c' = c := hall.2.1 c' _ hsome
      (hclash.trans ((List.prefix_append _ [0]).trans (List.prefix_append _ _)))
    have hle := (heq ▸ hclash).length_le
    simp [RedbStorage.collectionPrefix] at hle
  · intro hS calls hnames
    have hall := hS.all_apart hnames
    exact (same_answers_iff tableOf_new (puts_apart hall)).mpr hall

end

/-! ## Worked examples -/

section
attribute [local instance] Formatting.sample

/-- A document in each of two collections, and a scan. -/
def sampleStorageCalls : List StorageCall :=
  [.put ⟨"a"⟩ ⟨.string "x"⟩ .empty, .put ⟨"b"⟩ ⟨.string "x"⟩ .empty, .scan ⟨"a"⟩]

lemma separated_sample : Separated {⟨"a"⟩, ⟨"b"⟩} := by
  rintro c (rfl | rfl) c' (rfl | rfl)
  · decide
  · decide
  · decide
  · decide

lemma sampleStorageCalls_apart :
    Runs.All StorageCall.next (fun m x => x.Apart m.view) MemoryStorage.new sampleStorageCalls :=
  separated_sample.all_apart (by simp [sampleStorageCalls, StorageCall.collection])

/-- For these calls. -/
theorem redb_agrees_iff_sample :
    (∀ pre x, pre ++ [x] <+: sampleStorageCalls →
      (x.perform (pre.foldl StorageCall.next RedbStorage.openNew)).1.Same
        (x.perform (pre.foldl StorageCall.next MemoryStorage.new)).1 ∧
      ∀ c, x = .scan c →
        ∀ doc ∈ (x.perform (pre.foldl StorageCall.next RedbStorage.openNew)).1.docs,
          ∃ id, .put c id doc ∈ pre) ↔
    Runs.All StorageCall.next (fun m x => x.Apart m.view) MemoryStorage.new
      sampleStorageCalls :=
  redb_agrees_iff (puts_apart sampleStorageCalls_apart)

/-- A document of a collection whose name has a zero byte in it. -/
def sampleZeroByte : List StorageCall := [.put ⟨"a\x00\"x"⟩ ⟨.string "y"⟩ .empty]

/-- On redb a scan of the part before the zero byte lists the document, a lookup there finds it
under another id, and a deletion there removes it. In memory all three find nothing. -/
theorem zero_byte_leaks :
    (StorageCall.perform (sampleZeroByte.foldl StorageCall.next RedbStorage.openNew)
        (.scan ⟨"a"⟩)).1 = .scan (.ok [.ok .empty]) ∧
      (StorageCall.perform (sampleZeroByte.foldl StorageCall.next MemoryStorage.new)
        (.scan ⟨"a"⟩)).1 = .scan (.ok []) ∧
      (StorageCall.perform (sampleZeroByte.foldl StorageCall.next RedbStorage.openNew)
        (.get ⟨"a"⟩ ⟨.string "x\x00\"y"⟩)).1 = .get (.ok (some .empty)) ∧
      (StorageCall.perform (sampleZeroByte.foldl StorageCall.next MemoryStorage.new)
        (.get ⟨"a"⟩ ⟨.string "x\x00\"y"⟩)).1 = .get (.ok none) ∧
      (StorageCall.perform (sampleZeroByte.foldl StorageCall.next RedbStorage.openNew)
        (.delete ⟨"a"⟩ ⟨.string "x\x00\"y"⟩)).1 = .delete (.ok true) ∧
      (StorageCall.perform (sampleZeroByte.foldl StorageCall.next MemoryStorage.new)
        (.delete ⟨"a"⟩ ⟨.string "x\x00\"y"⟩)).1 = .delete (.ok false) := by
  refine ⟨?_, ?_, ?_, ?_, ?_, ?_⟩
  · decide +kernel
  · decide +kernel
  · decide +kernel
  · decide +kernel
  · decide +kernel
  · decide +kernel

end
end Rango
