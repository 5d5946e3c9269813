import Rango.Storage.DegradingTheorems
import Rango.Storage.RedbTheorems

/-!
# What a backend's state stands for

`MapOn` says that the states of a backend stand for document maps, as long as every call is for
a collection of a given set. It asks less than `MapStorage`: nothing of other collections, and a
state may change with a read. The in-memory backend is such a backend for all names, redb for
names none of which is another one, a zero byte and more, and `DegradingStorage` over such a
backend is one while the disk has space.
-/

namespace Rango

/-- With calls for collections of `S`, a backend acts on the map that its state stands for. -/
structure MapOn {σ : Type} [Formatting] [StorageEngine σ] (S : Set CollectionName)
    (holds : σ → DocMap → Prop) : Prop where
  get : ∀ {s D}, holds s D → ∀ c ∈ S, ∀ id, ∃ s',
    StorageEngine.get c id s = (.ok (D c id.toString), s') ∧ holds s' D
  put : ∀ {s D}, holds s D → ∀ c ∈ S, ∀ id doc, ∃ s',
    StorageEngine.put c id doc s = (.ok (), s') ∧ holds s' (D.set c id.toString (some doc))
  delete : ∀ {s D}, holds s D → ∀ c ∈ S, ∀ id, ∃ s',
    StorageEngine.delete c id s = (.ok (D c id.toString).isSome, s') ∧
      holds s' (D.set c id.toString none)
  scan : ∀ {s D}, holds s D → ∀ c ∈ S, ∃ docs : List (String × Document), ∃ s',
    StorageEngine.scan c s = (.ok (docs.map fun e => .ok e.2), s') ∧ holds s' D ∧
      (docs.map Prod.fst).Nodup ∧ ∀ k d, (k, d) ∈ docs ↔ D c k = some d

section
variable [Formatting]

/-! ## Backends that are maps -/

/-- A backend that is a map stands for it, whatever the names. -/
theorem MapStorage.mapOn {σ : Type} [MapStorage σ] (S : Set CollectionName) :
    MapOn S fun (s : σ) D => docMap s = D where
  get := by
    rintro s D rfl c - id
    exact ⟨s, storage_get_eq c id s, rfl⟩
  put := by
    rintro s D rfl c - id doc
    exact storage_put_eq c id doc s
  delete := by
    rintro s D rfl c - id
    exact storage_delete_eq c id s
  scan := by
    rintro s D rfl c -
    obtain ⟨docs, hscan, hnodup, hmem⟩ := storage_scan_eq c s
    exact ⟨docs, s, hscan, rfl, hnodup, hmem⟩

/-! ## redb -/

/-- The table holds the documents, all of them in collections of `S`. -/
structure RedbHolds (S : Set CollectionName) (r : RedbStorage) (D : DocMap) : Prop where
  table : TableOf D r
  names : ∀ c k, (D c k).isSome → c ∈ S

variable {S : Set CollectionName} {r : RedbStorage} {D : DocMap}

omit [Formatting] in
lemma redbHolds_new (S : Set CollectionName) : RedbHolds S RedbStorage.openNew DocMap.empty where
  table := tableOf_new
  names := by
    intro c k h
    cases h

/-- With separated names, a call comes upon no other collection. -/
lemma RedbHolds.apart (h : RedbHolds S r D) (hS : Separated S) {x : StorageCall}
    (hx : x.collection ∈ S) : x.Apart D := by
  intro c k hk htouch
  have hc : c ∈ S := h.names c k hk
  rcases RedbStorage.prefix_encodeKey htouch.prefix with heq | hclash | hclash
  · exact heq.symm
  · exact absurd hclash (hS _ hx c hc)
  · exact absurd hclash (hS c hc _ hx)

lemma RedbHolds.get_eq (h : RedbHolds S r D) (hS : Separated S) {c : CollectionName} (hc : c ∈ S)
    (id : DocumentId) : r.table[RedbStorage.encodeKey c id.toString]? = D c id.toString :=
  (Flattening.Flattens.get_iff RedbStorage.encodeKey_injective h.table c id.toString).mpr
    (h.apart hS (x := .get c id) hc)

omit [Formatting] in
/-- A write to a collection of the set leaves the others without documents. -/
lemma names_set {c : CollectionName} (hD : ∀ c k, (D c k).isSome → c ∈ S) (hc : c ∈ S)
    (k : String) (v : Option Document) : ∀ c' k', (D.set c k v c' k').isSome → c' ∈ S := by
  intro c' k' hsome
  by_cases hk : c' = c ∧ k' = k
  · exact hk.1 ▸ hc
  · rw [D.set_of_ne v hk] at hsome
    exact hD c' k' hsome

/-- The rows of the table under a collection's prefix are its documents. -/
lemma RedbHolds.mem_rows (h : RedbHolds S r D) (hS : Separated S) {c : CollectionName}
    (hc : c ∈ S) {key : List UInt8} {d : Document} :
    (key, d) ∈ (r.table.toList.filter fun row =>
        (RedbStorage.collectionPrefix c).isPrefixOf row.1) ↔
      ∃ k, D c k = some d ∧ RedbStorage.encodeKey c k = key := by
  rw [List.mem_filter, Std.TreeMap.mem_toList_iff_getElem?_eq_some, List.isPrefixOf_iff_prefix]
  constructor
  · rintro ⟨hrow, hprefix⟩
    obtain ⟨c', k, hk, rfl⟩ := (h.table.rows_iff key d).mp hrow
    have hsome : (D c' k).isSome := Option.isSome_iff_exists.mpr ⟨d, hk⟩
    have heq : c' = c := h.apart hS (x := .scan c) hc c' k hsome hprefix
    exact ⟨k, heq ▸ hk, heq ▸ rfl⟩
  · rintro ⟨k, hk, rfl⟩
    exact ⟨h.table.of_get hk, RedbStorage.collectionPrefix_prefix_encodeKey c k⟩

/-- redb stands for the documents while the names of all collections are separated. -/
theorem RedbStorage.mapOn (hS : Separated S) : MapOn S (RedbHolds S) where
  get := by
    intro r D h c hc id
    exact ⟨r, Prod.ext (congrArg Except.ok (h.get_eq hS hc id)) rfl, h⟩
  put := by
    intro r D h c hc id doc
    exact ⟨_, rfl, h.table.put (h.apart hS (x := .put c id doc) hc), names_set h.names hc _ _⟩
  delete := by
    intro r D h c hc id
    refine ⟨_, Prod.ext ?_ rfl, h.table.delete (h.apart hS (x := .delete c id) hc),
      names_set h.names hc _ _⟩
    exact congrArg (fun found => Except.ok (Option.isSome found)) (h.get_eq hS hc id)
  scan := by
    intro r D h c hc
    set rows := r.table.toList.filter fun row =>
      (RedbStorage.collectionPrefix c).isPrefixOf row.1 with hrows
    -- the printed id of a row, read back from its key
    set idOf := Function.invFun (RedbStorage.encodeKey c)
    have hid : ∀ k, idOf (RedbStorage.encodeKey c k) = k :=
      Function.leftInverse_invFun (RedbStorage.encodeKey_injective c)
    have hmem : ∀ key d, (key, d) ∈ rows ↔ ∃ k, D c k = some d ∧ RedbStorage.encodeKey c k = key :=
      fun key d => h.mem_rows hS hc
    refine ⟨rows.map fun row => (idOf row.1, row.2), r, ?_, h, ?_, fun k d => ?_⟩
    · show RedbStorage.scan c r = _
      rw [List.map_map]
      rfl
    · have hkeys : (rows.map Prod.fst).Nodup := by
        refine List.Nodup.sublist (List.filter_sublist.map _) ?_
        exact List.pairwise_map.mpr (Std.TreeMap.distinct_keys_toList.imp fun hne heq =>
          hne (Std.compare_eq_iff_eq.mpr heq))
      rw [List.map_map, show Prod.fst ∘ (fun row : List UInt8 × Document => (idOf row.1, row.2)) =
        idOf ∘ Prod.fst from rfl, ← List.map_map]
      refine hkeys.map_on ?_
      intro key hkey key' hkey' heq
      obtain ⟨⟨_, d⟩, hrow, rfl⟩ := List.mem_map.mp hkey
      obtain ⟨⟨_, d'⟩, hrow', rfl⟩ := List.mem_map.mp hkey'
      obtain ⟨k, -, hk⟩ := (hmem _ d).mp hrow
      obtain ⟨k', -, hk'⟩ := (hmem _ d').mp hrow'
      dsimp only at hk hk' heq ⊢
      rw [← hk, ← hk', hid, hid] at heq
      rw [← hk, ← hk', heq]
    · rw [List.mem_map]
      constructor
      · rintro ⟨⟨key, d'⟩, hrow, heq⟩
        obtain ⟨k', hk', rfl⟩ := (hmem key d').mp hrow
        rw [hid] at heq
        obtain ⟨rfl, rfl⟩ := Prod.mk.inj heq
        exact hk'
      · intro hk
        refine ⟨(RedbStorage.encodeKey c k, d), (hmem _ d).mpr ⟨k, hk, rfl⟩, ?_⟩
        rw [hid]

/-! ## A disk with space -/

namespace DegradingStorage
variable {σ : Type} {holds : σ → DocMap → Prop}

/-- The storage stands for what the backend under it does, and the disk has space at every
check. -/
structure Holds (holds : σ → DocMap → Prop) (s : DegradingStorage σ) (D : DocMap) : Prop where
  inner : holds s.inner D
  healthy : s.degraded = false
  space : ∀ n, ∃ available, s.spaceChecker n = .ok available ∧ s.minFreeBytes ≤ available

/-- `DegradingStorage::new`, when its own look at the disk succeeds. -/
def openOver (inner : σ) (minFreeBytes : ℕ) (available : ℕ)
    (spaceChecker : ℕ → Except RangoError ℕ) : DegradingStorage σ where
  inner := inner
  minFreeBytes := minFreeBytes
  degraded := false
  lastAvailable := available
  writeCounter := 0
  checkInterval := 10
  spaceChecker := spaceChecker
  checks := 0

omit [Formatting] in
/-- A check that finds space changes nothing but the counters. -/
lemma Holds.check {s : DegradingStorage σ} {D : DocMap} (h : Holds holds s D) :
    ∃ s', s.maybeCheckAndDegrade = (.ok (), s') ∧ Holds holds s' D := by
  have hticked := maybeCheckAndDegrade_ticked s
  have hdegraded : s.maybeCheckAndDegrade.2.degraded = false := by
    obtain ⟨available, hanswer, hle⟩ := h.space s.checks
    have hshort : ¬available < s.minFreeBytes := by omega
    unfold maybeCheckAndDegrade checkSpace
    dsimp only
    by_cases hdue : s.checkInterval ≤ s.writeCounter + 1
    · simp [hdue, hanswer, hshort]
    · simp [hdue, h.healthy]
  refine ⟨s.maybeCheckAndDegrade.2, Prod.ext ?_ rfl, ?_, hdegraded, ?_⟩
  · rw [maybeCheckAndDegrade_answer, hdegraded, if_neg (by simp)]
  · rw [maybeCheckAndDegrade_inner]
    exact h.inner
  · rw [hticked.spaceChecker, hticked.minFreeBytes]
    exact h.space

omit [Formatting] in
/-- A guarded write acts as the backend's own. -/
lemma Holds.guarded {s : DegradingStorage σ} {D D' : DocMap} (h : Holds holds s D) {α : Type}
    {write : σ → Except RangoError α × σ} {answer : Except RangoError α}
    (hwrite : ∀ {s}, holds s D → ∃ s', write s = (answer, s') ∧ holds s' D') :
    ∃ s', s.guarded write = (answer, s') ∧ Holds holds s' D' := by
  obtain ⟨s₁, hcheck, h₁⟩ := h.check
  obtain ⟨s₂, hanswer, h₂⟩ := hwrite h₁.inner
  refine ⟨{ s₁ with inner := s₂ }, ?_, h₂, h₁.healthy, h₁.space⟩
  unfold DegradingStorage.guarded
  rw [hcheck]
  show s₁.pass (write s₁.inner) = _
  rw [hanswer]
  rfl

/-- While the disk has space, the storage stands for what the backend under it does. -/
theorem mapOn [StorageEngine σ] (h : MapOn S holds) : MapOn S (Holds holds) where
  get := by
    intro s D hs c hc id
    obtain ⟨s', hget, hs'⟩ := h.get hs.inner c hc id
    exact ⟨{ s with inner := s' }, congrArg s.pass hget, hs', hs.healthy, hs.space⟩
  put := by
    intro s D hs c hc id doc
    exact hs.guarded fun hinner => h.put hinner c hc id doc
  delete := by
    intro s D hs c hc id
    exact hs.guarded fun hinner => h.delete hinner c hc id
  scan := by
    intro s D hs c hc
    obtain ⟨docs, s', hscan, hs', hdocs⟩ := h.scan hs.inner c hc
    exact ⟨docs, { s with inner := s' }, congrArg s.pass hscan, ⟨hs', hs.healthy, hs.space⟩, hdocs⟩

end DegradingStorage
end
end Rango
