import Rango.Core.CallTheorems
import Rango.Core.FindTheorems
import Rango.Sdk.MigrateTheorems

/-!
# Backup and restore

`export_json` writes a collection to a file, `import_json` reads such a file into a collection of
another engine, on another backend. Of documents that the format carries (`Portable`), each one
comes back under its id, or its line is counted as an error (`RangoEngine.backup_restores`).
-/

namespace Rango

/-! ## Files of lines -/

lemma bufLines_line {line : List Char} (hline : '\n' ∉ line) (current rest : List Char) :
    bufLines current (line ++ '\n' :: rest) =
      String.ofList (dropCr (line.reverse ++ current)).reverse :: bufLines [] rest := by
  induction line generalizing current with
  | nil => rfl
  | cons x xs ih =>
    have hx : x ≠ '\n' := fun h => hline (h ▸ List.mem_cons_self)
    rw [List.cons_append, bufLines, if_neg hx, ih fun h => hline (List.mem_cons_of_mem x h),
      List.reverse_cons, List.append_assoc, List.singleton_append]

/-- Lines of objects are read as they were written. -/
lemma bufLines_fileOf {lines : List String}
    (h : ∀ line ∈ lines, ∃ inner, line.toList = '{' :: (inner ++ ['}']) ∧ '\n' ∉ inner) :
    bufLines [] (fileOf lines) = lines := by
  induction lines with
  | nil => rfl
  | cons line rest ih =>
    obtain ⟨inner, hline, hinner⟩ := h line List.mem_cons_self
    have hnewline : '\n' ∉ line.toList := by
      rw [hline]
      simp [hinner]
    have hcr : dropCr (line.toList.reverse ++ []) = line.toList.reverse := by
      rw [hline]
      simp [dropCr]
    have hfile : fileOf (line :: rest) = line.toList ++ '\n' :: fileOf rest := by
      simp [fileOf]
    rw [hfile, bufLines_line hnewline, hcr, List.reverse_reverse, String.ofList_toList,
      ih fun l hl => h l (List.mem_cons_of_mem line hl)]

/-! ## One document -/

section
variable [Formatting] [BsonText] [SerdeJson]

/-- A document under the key `k` that the format carries: it can be written, and its `_id`, which
prints as `k`, is read back. -/
structure Portable (k : String) (d : Document) : Prop where
  exportable : Exportable d
  serializes : ∃ text, docToJson d = .ok text
  filed : ∃ b, d.get "_id" = some b ∧ b.returned = some b ∧ (DocumentId.fromBson b).toString = k

/-- The fields that an insert puts on a document or takes away. -/
def importedOver : List String := ["_rev", "_updated_at", "_source_node", "_deleted"]

/-- What an import stores of a document: it lives, and each other field is what its value returns
as. -/
def Restored (d found : Document) : Prop :=
  isDeleted found = false ∧
    ∀ field ∉ importedOver, found.get field = (d.get field).bind Bson.returned

omit [Formatting] in
lemma toText_of_docToJson {d : Document} {text : String} (h : docToJson d = .ok text) :
    SerdeJson.toText (bsonToJson (.document d.entries)) = .ok text := by
  unfold docToJson at h
  split at h
  · next htext => rw [htext, ← Except.ok.inj h]
  · cases h

namespace RangoEngine

variable {σ ω : Type} [FallibleStorage σ] [Oplog ω] [BsonCodec] [MutationHasher]

/-- What the line of a portable document does: the insert of what the document returns as. -/
lemma importLine_stored (hserde : SerdeJson.RoundTrips) {k : String} {d : Document}
    (hd : Portable k d) {text : String} (htext : docToJson d = .ok text) (e : RangoEngine σ ω)
    (c : CollectionName) (lineNum : ℕ) (t : WriteClock) :
    ∃ r, (e.importLine c lineNum (.ok text) t).1 = some r ∧
      ((stored (e.importLine c lineNum (.ok text) t).2.storage = stored e.storage ∧
        r.isOk = false) ∨
      ∃ found, Restored d found ∧ stored (e.importLine c lineNum (.ok text) t).2.storage =
        (stored e.storage).set c k (some found)) := by
  have hjson := toText_of_docToJson htext
  obtain ⟨hsane, hne⟩ := sanitizeJsonLine_written hserde hjson lineNum
  have hparse := parseMongoJson_written hserde hd.exportable hjson
  simp only [importLine, hsane, if_neg hne]
  cases hdoc : parseMongoJson text with
  | error err => exact ⟨_, rfl, Or.inl ⟨rfl, rfl⟩⟩
  | ok d' =>
    rw [hdoc] at hparse
    have hreturned : d.returned = some d' := hparse.symm
    obtain ⟨b, hid, hb, hk⟩ := hd.filed
    have hid' : d'.get "_id" = some b := by
      rw [get_returned hd.exportable hreturned, hid, Option.bind_some, hb]
    have hkey : (insertId d' t).toString = k := by rw [insertId, hid', ← hk]
    have hrestored : Restored d (e.insertWrite c d' t).doc := by
      refine ⟨isDeleted_insertWrite e c d' t, fun field hfield => ?_⟩
      rw [get_insertWrite e c hid' t hfield, get_returned hd.exportable hreturned]
    rcases insertOne_puts e c d' t with ⟨err, hrefused⟩ | hputs
    · simp only [hrefused]
      exact ⟨_, rfl, Or.inl ⟨trivial, rfl⟩⟩
    · obtain ⟨err, e', hinsert⟩ | ⟨e', hinsert, hset⟩ := hputs.ends
      · have hdocs := hputs.docs
        rw [hinsert] at hdocs
        simp only [hinsert]
        refine ⟨_, rfl, ?_⟩
        rcases hdocs with ⟨-, -, hsame⟩ | hset
        · exact Or.inl ⟨hsame, rfl⟩
        · exact Or.inr ⟨_, hrestored, hkey ▸ hset⟩
      · simp only [hinsert]
        exact ⟨_, rfl, Or.inr ⟨_, hrestored, hkey ▸ hset⟩⟩

/-! ## The loop -/

/-- From `D` to `D'`, an import of the listed documents into `c`, in which `failed` lines counted as
errors. -/
structure ImportedFrom (docs : List (String × Document)) (c : CollectionName) (failed : ℕ)
    (D D' : DocMap) : Prop where
  others : ∀ c' k, (c' ≠ c ∨ k ∉ docs.map Prod.fst) → D' c' k = D c' k
  listed : ∀ k d, (k, d) ∈ docs →
    D' c k = D c k ∨ ∃ found, Restored d found ∧ D' c k = some found
  complete : failed = 0 → ∀ k d, (k, d) ∈ docs →
    ∃ found, Restored d found ∧ D' c k = some found

omit [Formatting] [BsonCodec] [MutationHasher] in
/-- One line, and then the rest. -/
lemma ImportedFrom.cons {docs : List (String × Document)} {c : CollectionName} {failed n : ℕ}
    {D D₁ D' : DocMap} {k : String} {d : Document} (h : ImportedFrom docs c failed D₁ D')
    (hk : k ∉ docs.map Prod.fst)
    (hone : (D₁ = D ∧ 0 < n) ∨ ∃ found, Restored d found ∧ D₁ = D.set c k (some found)) :
    ImportedFrom ((k, d) :: docs) c (failed + n) D D' := by
  have hrest : ∀ c' k', (c' ≠ c ∨ k' ≠ k) → D₁ c' k' = D c' k' := by
    intro c' k' hne
    rcases hone with ⟨rfl, -⟩ | ⟨found, -, rfl⟩
    · rfl
    · exact D.set_of_ne _ fun heq => hne.elim (absurd heq.1) (absurd heq.2)
  have hne : ∀ k' d', (k', d') ∈ docs → k' ≠ k := fun k' d' hmem heq =>
    hk (heq ▸ List.mem_map_of_mem hmem)
  refine ⟨fun c' k' hout => ?_, fun k' d' hmem => ?_, fun hnone k' d' hmem => ?_⟩
  · rw [List.map_cons, List.mem_cons, not_or] at hout
    rw [h.others c' k' (hout.imp_right And.right), hrest c' k' (hout.imp_right And.left)]
  · rcases List.mem_cons.mp hmem with heq | hmem
    · obtain ⟨rfl, rfl⟩ := Prod.mk.inj heq
      rw [h.others c k' (Or.inr hk)]
      rcases hone with ⟨rfl, -⟩ | ⟨found, hfound, rfl⟩
      · exact Or.inl rfl
      · exact Or.inr ⟨found, hfound, D.set_self _ _ _⟩
    · rw [← hrest c k' (Or.inr (hne k' d' hmem))]
      exact h.listed k' d' hmem
  · rcases List.mem_cons.mp hmem with heq | hmem
    · obtain ⟨rfl, rfl⟩ := Prod.mk.inj heq
      rw [h.others c k' (Or.inr hk)]
      rcases hone with ⟨-, hpos⟩ | ⟨found, hfound, rfl⟩
      · omega
      · exact ⟨found, hfound, D.set_self _ _ _⟩
    · exact h.complete (by omega) k' d' hmem

/-- What the loop of an import makes of the lines of portable documents. -/
lemma importLoop_stored (hserde : SerdeJson.RoundTrips) (c : CollectionName)
    {docs : List (String × Document)} {lines : List String} (e : RangoEngine σ ω) (lineNum : ℕ)
    (r : ImportResult) {ts : List WriteClock} (hts : ts.length = lines.length)
    (hlines : docs.map (fun kd => docToJson kd.2) = lines.map .ok)
    (hdocs : ∀ k d, (k, d) ∈ docs → Portable k d) (hkeys : (docs.map Prod.fst).Nodup) :
    let out := importLoop c e lineNum r ((lines.map .ok).zip ts)
    out.1.1.imported + out.1.1.errors = r.imported + r.errors + lines.length ∧
      ∃ failed, out.1.1.errors = r.errors + failed ∧
        ImportedFrom docs c failed (stored e.storage) (stored out.2.storage) := by
  induction docs generalizing lines e lineNum r ts with
  | nil =>
    obtain rfl : lines = [] := List.map_eq_nil_iff.mp hlines.symm
    refine ⟨rfl, 0, rfl, fun c' k _ => rfl, fun k d h => ?_, fun _ k d h => ?_⟩
    · cases h
    · cases h
  | cons kd docs ih =>
    obtain ⟨k, d⟩ := kd
    obtain ⟨text, lines, rfl⟩ : ∃ text rest, lines = text :: rest := by
      cases lines with
      | nil => cases hlines
      | cons text rest => exact ⟨text, rest, rfl⟩
    cases ts with
    | nil => cases hts
    | cons t ts =>
      rw [List.map_cons, List.map_cons, List.cons.injEq] at hlines
      rw [List.map_cons, List.nodup_cons] at hkeys
      have hrest := fun e lineNum r => ih e lineNum r (Nat.succ.inj hts) hlines.2
        (fun k d h => hdocs k d (List.mem_cons_of_mem _ h)) hkeys.2
      obtain ⟨outcome, hline, hone⟩ :=
        importLine_stored hserde (hdocs k d List.mem_cons_self) hlines.1 e c lineNum t
      rcases himport : e.importLine c lineNum (.ok text) t with ⟨result, e₁⟩
      rw [himport] at hline hone
      obtain rfl : result = some outcome := hline
      cases outcome with
      | ok u =>
        obtain ⟨hcount, failed, herrors, hfrom⟩ :=
          hrest e₁ (lineNum + 1) { r with imported := r.imported + 1 }
        have hstored := hone.resolve_left fun h => Bool.noConfusion h.2
        simp only [List.map_cons, List.zip_cons_cons, importLoop, himport]
        refine ⟨?_, failed, herrors, hfrom.cons (n := 0) hkeys.1 (Or.inr hstored)⟩
        rw [hcount, List.length_cons]
        show r.imported + 1 + r.errors + lines.length = r.imported + r.errors + (lines.length + 1)
        omega
      | error err =>
        obtain ⟨hcount, failed, herrors, hfrom⟩ :=
          hrest e₁ (lineNum + 1) { r with errors := r.errors + 1 }
        simp only [List.map_cons, List.zip_cons_cons, importLoop, himport]
        refine ⟨?_, failed + 1, ?_, hfrom.cons hkeys.1 (hone.imp_left fun h => ⟨h.1, by omega⟩)⟩
        · rw [hcount, List.length_cons]
          show r.imported + (r.errors + 1) + lines.length =
            r.imported + r.errors + (lines.length + 1)
          omega
        · rw [herrors]
          show r.errors + 1 + failed = r.errors + (failed + 1)
          omega

/-! ## Whole collections -/

section Export
variable [BsonTraits] [SliceSort]

omit [Formatting] [FallibleStorage σ] [Oplog ω] [BsonCodec] [MutationHasher] [BsonTraits]
  [SliceSort] in
lemma exportLoop_lines {docs : List Document} (h : ∀ d ∈ docs, ∃ text, docToJson d = .ok text)
    {lines : List String} (hrun : exportLoop (docs.map .ok) = .ok lines) :
    docs.map docToJson = lines.map .ok := by
  induction docs generalizing lines with
  | nil =>
    obtain rfl := Except.ok.inj hrun
    rfl
  | cons d docs ih =>
    obtain ⟨text, htext⟩ := h d List.mem_cons_self
    rw [List.map_cons, exportLoop, htext] at hrun
    dsimp only at hrun
    cases hrest : exportLoop (docs.map .ok) with
    | error err => rw [hrest] at hrun; cases hrun
    | ok rest =>
      rw [hrest] at hrun
      obtain rfl := Except.ok.inj hrun
      rw [List.map_cons, List.map_cons, htext,
        ih (fun d hd => h d (List.mem_cons_of_mem _ hd)) hrest]

omit [Oplog ω] [BsonCodec] [MutationHasher] in
/-- An export writes one line for each live document, if they can all be written. -/
lemma exportJson_lines {source : RangoEngine σ ω} {collection : String}
    (h : ∀ k d, stored source.storage ⟨collection⟩ k = some d → isDeleted d = false →
      ∃ text, docToJson d = .ok text)
    {lines : List String} (hexport : source.exportJson collection = .ok lines) :
    ∃ docs : List (String × Document), (docs.map Prod.fst).Nodup ∧
      (∀ k d, (k, d) ∈ docs ↔
        stored source.storage ⟨collection⟩ k = some d ∧ isDeleted d = false) ∧
      docs.map (fun kd => docToJson kd.2) = lines.map .ok := by
  unfold exportJson at hexport
  split at hexport
  · cases hexport
  · next items hitems =>
    obtain ⟨results, hscan⟩ := storageScan_of_find hitems
    obtain ⟨entries, hlist, -⟩ := listing_of_scan hscan
    rw [findMany_eq hlist] at hitems
    obtain rfl := Except.ok.inj hitems
    have hmem : ∀ k d, (k, d) ∈ entries.filter (fun kd => !isDeleted kd.2) ↔
        stored source.storage ⟨collection⟩ k = some d ∧ isDeleted d = false := by
      intro k d
      rw [List.mem_filter, hlist.mem_iff, Bool.not_eq_true']
    rw [List.filter_map] at hexport
    split at hexport
    · cases hexport
    · next lines' hlines =>
      obtain rfl := Except.ok.inj hexport
      refine ⟨entries.filter fun kd => !isDeleted kd.2,
        hlist.keys.sublist (List.filter_sublist.map _), hmem, ?_⟩
      rw [← exportLoop_lines (fun d hd => ?_) hlines, List.map_map]
      · rfl
      obtain ⟨⟨k, d'⟩, hkd, rfl⟩ := List.mem_map.mp hd
      obtain ⟨hstored, hlive⟩ := (hmem k d').mp hkd
      exact h k d' hstored hlive

variable {τ ω' : Type} [FallibleStorage τ] [Oplog ω']

omit [Oplog ω] in
/-- **Backup and restore.** A collection of portable documents is exported to a file, and the file
is imported into any collection of any engine, on storages that may fail. The file has one line for
each live document, and each line counts as imported or as an error. The import changes no other
collection, and no document but those that were exported; where it changes one, it stores what was
exported under the same id. If no line was an error, all documents are restored. -/
theorem backup_restores (hserde : SerdeJson.RoundTrips) {source : RangoEngine σ ω}
    {collection target : String}
    (hportable : ∀ k d, stored source.storage ⟨collection⟩ k = some d → isDeleted d = false →
      Portable k d)
    {lines : List String} (hexport : source.exportJson collection = .ok lines)
    {e e' : RangoEngine τ ω'} {ts : List WriteClock} (hts : ts.length = lines.length)
    {r : ImportResult} {progress : List ProgressEvent}
    (himport : e.importJson target (.ok (((bufLines [] (fileOf lines)).map .ok).zip ts)) =
      (.ok (r, progress), e')) :
    r.imported + r.errors = lines.length ∧
      ∃ docs : List (String × Document), (docs.map Prod.fst).Nodup ∧
        docs.map (fun kd => docToJson kd.2) = lines.map .ok ∧
        (∀ k d, (k, d) ∈ docs ↔
          stored source.storage ⟨collection⟩ k = some d ∧ isDeleted d = false) ∧
        (∀ c k, (c ≠ ⟨target⟩ ∨ k ∉ docs.map Prod.fst) →
          stored e'.storage c k = stored e.storage c k) ∧
        (∀ k d, (k, d) ∈ docs → stored e'.storage ⟨target⟩ k = stored e.storage ⟨target⟩ k ∨
          ∃ found, Restored d found ∧ stored e'.storage ⟨target⟩ k = some found) ∧
        (r.errors = 0 → ∀ k d, (k, d) ∈ docs →
          ∃ found, Restored d found ∧ stored e'.storage ⟨target⟩ k = some found) := by
  obtain ⟨docs, hkeys, hmem, hlines⟩ :=
    exportJson_lines (fun k d hk hd => (hportable k d hk hd).serializes) hexport
  have hobjects : ∀ line ∈ lines, ∃ inner, line.toList = '{' :: (inner ++ ['}']) ∧
      '\n' ∉ inner := by
    intro line hline
    have hmem : (Except.ok line : Except RangoError String) ∈
        docs.map fun kd => docToJson kd.2 := by
      rw [hlines]
      exact List.mem_map_of_mem hline
    obtain ⟨kd, -, htext⟩ := List.mem_map.mp hmem
    exact hserde.object_text _ _ (toText_of_docToJson htext)
  rw [importJson, bufLines_fileOf hobjects] at himport
  obtain ⟨hcount, failed, herrors, hfrom⟩ := importLoop_stored hserde ⟨target⟩ e 0 ⟨0, 0⟩ hts
    hlines (fun k d h => (hportable k d ((hmem k d).mp h).1 ((hmem k d).mp h).2)) hkeys
  obtain ⟨hr, rfl⟩ := Prod.mk.inj himport
  rw [Except.ok.inj hr] at hcount herrors
  have hfailed : r.errors = failed := by
    rw [herrors]
    exact Nat.zero_add failed
  refine ⟨?_, docs, hkeys, hlines, hmem, hfrom.others, hfrom.listed,
    fun hnone => hfrom.complete (hfailed.symm.trans hnone)⟩
  rw [hcount]
  exact Nat.zero_add _

end Export

end RangoEngine
end

/-! ## A worked example -/

section
attribute [local instance] Formatting.sample MutationHasher.sample Arithmetic.sample
  BsonTraits.sample SliceSort.sample sampleImportCodec BsonText.sample sampleSerdeJson

/-- A tombstone. -/
def sampleGone : Document := ⟨[("_id", .string "x"), ("_deleted", .boolean true)]⟩

/-- A storage with two documents and the tombstone. -/
def sampleSourceStorage : MemoryStorage :=
  (StorageEngine.put ⟨"c"⟩ ⟨.string "x"⟩ sampleGone
    (StorageEngine.put ⟨"c"⟩ ⟨.string "d"⟩ sampleDoc
      (StorageEngine.put ⟨"c"⟩ ⟨.string "n"⟩ sampleNestedDoc MemoryStorage.new).2).2).2

/-- The engine on it. -/
def sampleSource : RangoEngine MemoryStorage MemLog :=
  { sampleWriter with storage := sampleSourceStorage }

lemma sampleSource_stored : stored sampleSource.storage =
    ((DocMap.empty.set ⟨"c"⟩ "\"n\"" (some sampleNestedDoc)).set ⟨"c"⟩ "\"d\""
      (some sampleDoc)).set ⟨"c"⟩ "\"x\"" (some sampleGone) := by
  have hput : ∀ (id : DocumentId) (doc : Document) (s : MemoryStorage),
      stored (StorageEngine.put ⟨"c"⟩ id doc s).2 =
        (stored s).set ⟨"c"⟩ id.toString (some doc) := MapStorage.toDocMap_put ⟨"c"⟩
  have hnew : stored MemoryStorage.new = DocMap.empty := MemoryStorage.docMap_new
  show stored sampleSourceStorage = _
  unfold sampleSourceStorage
  rw [hput, hput, hput, hnew]
  rfl

/-- The import of its export into a new engine. -/
def sampleImport : (ImportResult × List ProgressEvent) × RangoEngine MemoryStorage MemLog :=
  RangoEngine.importLoop ⟨"c"⟩ sampleWriter 0 ⟨0, 0⟩
    (((bufLines [] (fileOf [sampleDocLine, sampleNestedLine])).map .ok).zip
      [.sample 1 0, .sample 2 0])

/-- For that engine: two lines are written and imported, and the two documents are there again. -/
theorem RangoEngine.backup_restores_sample :
    sampleSource.exportJson "c" = .ok [sampleDocLine, sampleNestedLine] ∧
      sampleImport.1.1.imported + sampleImport.1.1.errors = 2 ∧
      (∃ found, Restored sampleDoc found ∧
        stored sampleImport.2.storage ⟨"c"⟩ "\"d\"" = some found) ∧
      (∃ found, Restored sampleNestedDoc found ∧
        stored sampleImport.2.storage ⟨"c"⟩ "\"n\"" = some found) ∧
      stored sampleImport.2.storage ⟨"c"⟩ "\"x\"" = none := by
  have hportable : ∀ k d, stored sampleSource.storage ⟨"c"⟩ k = some d → isDeleted d = false →
      Portable k d := by
    intro k d hk hlive
    rw [sampleSource_stored] at hk
    rcases DocMap.of_set hk with ⟨-, rfl, hd⟩ | hk
    · -- the tombstone is not exported
      obtain rfl := Option.some.inj hd
      cases hlive
    rcases DocMap.of_set hk with ⟨-, rfl, hd⟩ | hk
    · obtain rfl := Option.some.inj hd
      exact ⟨sampleDoc_exportable, ⟨sampleDocLine, by decide +kernel⟩, .string "d", rfl, rfl, rfl⟩
    rcases DocMap.of_set hk with ⟨-, rfl, hd⟩ | hk
    · obtain rfl := Option.some.inj hd
      exact ⟨sampleNestedDoc_exportable, ⟨sampleNestedLine, by decide +kernel⟩, .string "n", rfl,
        rfl, rfl⟩
    · cases hk
  have hexport : sampleSource.exportJson "c" = .ok [sampleDocLine, sampleNestedLine] := by
    decide +kernel
  have himport : sampleWriter.importJson "c"
      (.ok (((bufLines [] (fileOf [sampleDocLine, sampleNestedLine])).map .ok).zip
        [.sample 1 0, .sample 2 0])) =
      (.ok (sampleImport.1.1, sampleImport.1.2), sampleImport.2) := by
    simp only [importJson, sampleImport]
  obtain ⟨hcount, docs, -, -, hmem, hothers, -, hall⟩ :=
    backup_restores sampleSerdeJson_roundTrips hportable hexport rfl himport
  have hnone : sampleImport.1.1.errors = 0 := by decide +kernel
  have hdoc : ("\"d\"", sampleDoc) ∈ docs := by
    rw [hmem, sampleSource_stored]
    exact ⟨rfl, by decide⟩
  have hnested : ("\"n\"", sampleNestedDoc) ∈ docs := by
    rw [hmem, sampleSource_stored]
    exact ⟨rfl, by decide⟩
  have hgone : "\"x\"" ∉ docs.map Prod.fst := by
    intro h
    obtain ⟨⟨k, d⟩, hkd, rfl⟩ := List.mem_map.mp h
    obtain ⟨hd, hlive⟩ := (hmem _ d).mp hkd
    rw [sampleSource_stored, DocMap.set_self] at hd
    obtain rfl := Option.some.inj hd
    cases hlive
  refine ⟨hexport, hcount, hall hnone _ _ hdoc, hall hnone _ _ hnested, ?_⟩
  rw [hothers ⟨"c"⟩ _ (.inr hgone)]
  rfl

end
end Rango
