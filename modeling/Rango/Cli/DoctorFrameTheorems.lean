import Rango.Cli.Doctor
import Rango.Core.CallTheorems
import Rango.Core.FindTheorems

/-!
# What the doctor leaves of a workspace

The doctor tries an engine's operations on the stored data. Whatever fails on the way, it does not
panic, it changes no collection but its own, and it only appends to the log. When its checks
succeed, all it has stored are two tombstones (`doctor_harmless`).
-/

namespace Rango

open RangoEngine

/-! ## The log -/

section
variable [BsonCodec]

/-- An append, torn or not, leaves the bytes that are there. -/
lemma OplogHandle.append_file (entry : OplogEntry) (w : OplogHandle) :
    w.file.log <+: (w.append entry).2.file.log ∧
      (w.append entry).2.file.appliedFile = w.file.appliedFile := by
  unfold OplogHandle.append FileOplog.append
  dsimp only
  split
  · exact ⟨List.prefix_rfl, rfl⟩
  · split
    · exact ⟨List.prefix_append _ _, rfl⟩
    · exact ⟨List.prefix_append _ _, rfl⟩

end

/-! ## What is spared -/

section
variable {σ : Type} [Formatting] [FallibleStorage σ]

/-- From `e` to `e'`, the collections of others are as they were, and the log has only grown. -/
structure Spared (e e' : RangoEngine σ OplogHandle) : Prop where
  others : ∀ c ≠ doctorCollection, stored e'.storage c = stored e.storage c
  log : e.oplog.file.log <+: e'.oplog.file.log
  applied : e'.oplog.file.appliedFile = e.oplog.file.appliedFile

lemma Spared.refl (e : RangoEngine σ OplogHandle) : Spared e e :=
  ⟨fun _ _ => rfl, List.prefix_rfl, rfl⟩

lemma Spared.trans {e e' e'' : RangoEngine σ OplogHandle} (h : Spared e e') (h' : Spared e' e'') :
    Spared e e'' where
  others c hc := (h'.others c hc).trans (h.others c hc)
  log := h.log.trans h'.log
  applied := h'.applied.trans h.applied

variable [BsonCodec] [MutationHasher] [Arithmetic]

/-- A local write to the doctor's collection spares the others. -/
lemma spared_step (e : RangoEngine σ OplogHandle) {s : EngineStep} (hs : s.clock.isSome)
    (hc : s.collection = doctorCollection) : Spared e (e.step s) := by
  have hlog : e.oplog.file.log <+: (e.step s).oplog.file.log ∧
      (e.step s).oplog.file.appliedFile = e.oplog.file.appliedFile := by
    rcases step_oplog e hs with hsame | ⟨entry, happend⟩
    · rw [hsame]
      exact ⟨List.prefix_rfl, rfl⟩
    · rw [happend]
      exact OplogHandle.append_file entry e.oplog
  exact ⟨fun c hne => step_others e hs (hc ▸ hne), hlog.1, hlog.2⟩

/-! ## The checks spare the rest -/

lemma spared_insertOne {e e' : RangoEngine σ OplogHandle} {doc : Document} {t : WriteClock}
    {r : Except RangoError DocumentId} (h : e.insertOne doctorCollection doc t = (r, e')) :
    Spared e e' := by
  have hstep : Spared e (e.insertOne doctorCollection doc t).2 :=
    spared_step e (s := .insert doctorCollection doc t) rfl rfl
  rwa [h] at hstep

lemma spared_updateOne {e e' : RangoEngine σ OplogHandle} {id : DocumentId} {update : Document}
    {t : WriteClock} {r : Except Fault Bool}
    (h : e.updateOne doctorCollection id update t = (r, e')) : Spared e e' := by
  have hstep : Spared e (e.updateOne doctorCollection id update t).2 :=
    spared_step e (s := .update doctorCollection id update t) rfl rfl
  rwa [h] at hstep

lemma spared_deleteOne {e e' : RangoEngine σ OplogHandle} {id : DocumentId} {t : WriteClock}
    {r : Except RangoError Bool} (h : e.deleteOne doctorCollection id t = (r, e')) :
    Spared e e' := by
  have hstep : Spared e (e.deleteOne doctorCollection id t).2 :=
    spared_step e (s := .delete doctorCollection id t) rfl rfl
  rwa [h] at hstep

lemma spared_metadataCheck (clocks : ℕ → WriteClock) (report : DoctorReport)
    (e : RangoEngine σ OplogHandle) : Spared e (metadataCheck clocks report e).2 := by
  unfold metadataCheck
  split
  · next hinsert => exact spared_insertOne hinsert
  · next hinsert =>
    have h := spared_insertOne hinsert
    split
    · exact h
    · exact h
    · exact h.trans (spared_deleteOne rfl)

lemma spared_operationsCheck (clocks : ℕ → WriteClock) (report : DoctorReport)
    (e : RangoEngine σ OplogHandle) : Spared e (operationsCheck clocks report e).2 := by
  unfold operationsCheck
  split
  · next hinsert => exact spared_insertOne hinsert
  · next hinsert =>
    have h := spared_insertOne hinsert
    split
    · exact h
    · exact h
    · split
      · next hupdate => exact h.trans (spared_updateOne hupdate)
      · next hupdate => exact h.trans (spared_updateOne hupdate)
      · next hupdate =>
        have h := h.trans (spared_updateOne hupdate)
        split
        · next hdelete => exact h.trans (spared_deleteOne hdelete)
        · next hdelete => exact h.trans (spared_deleteOne hdelete)
        · next hdelete =>
          exact (h.trans (spared_deleteOne hdelete)).trans (spared_metadataCheck clocks report _)

/-! ## The checks end well -/

omit [Arithmetic] in
/-- What an insert leaves is found again, with all its metadata. -/
lemma insertOne_found (e : RangoEngine σ OplogHandle) (doc : Document) (t : WriteClock) :
    (∃ err e', e.insertOne doctorCollection doc t = (.error err, e')) ∨
      ∃ e₁ d, e.insertOne doctorCollection doc t = (.ok (insertId doc t), e₁) ∧
        stored e₁.storage =
          (stored e.storage).set doctorCollection (insertId doc t).toString (some d) ∧
        isDeleted d = false ∧ metadataWarnings d = [] ∧
        ∀ found, e₁.findOne doctorCollection (insertId doc t) = .ok found → found = some d := by
  rcases insertOne_puts e doctorCollection doc t with ⟨err, hrefused⟩ | hputs
  · exact Or.inl ⟨err, e, hrefused⟩
  · obtain ⟨err, e', hinsert⟩ | ⟨e₁, hinsert, hdocs⟩ := hputs.ends
    · exact Or.inl ⟨err, e', hinsert⟩
    · have hlive := isDeleted_insertWrite e doctorCollection doc t
      refine Or.inr ⟨e₁, _, hinsert, hdocs, hlive, ?_, fun found hfound => ?_⟩
      · unfold metadataWarnings insertWrite stamp
        simp [metadataFields]
      · have hget := (storageGet_stored e₁ doctorCollection (insertId doc t)).2
        unfold findOne at hfound
        split at hfound
        · next found' hcall =>
          rw [hget found' hcall, hdocs, DocMap.set_self, Option.filter_some, hlive] at hfound
          exact (Except.ok.inj hfound).symm
        · cases hfound

/-- No read and no write of a document fails. -/
def Reliable (σ : Type) [StorageEngine σ] : Prop :=
  ∀ (c : CollectionName) (id : DocumentId) (s : σ), (StorageEngine.get c id s).1.isOk = true ∧
    ∀ d, (StorageEngine.put c id d s).1.isOk = true

omit [Arithmetic] in
/-- A reliable delete leaves a tombstone, also when the log does not take its entry. -/
lemma deleteOne_tombstone (hreliable : Reliable σ) {e : RangoEngine σ OplogHandle}
    {id : DocumentId} {d : Document} (hold : stored e.storage doctorCollection id.toString = some d)
    (t : WriteClock) :
    ∃ tombstone, isDeleted tombstone = true ∧
      stored (e.deleteOne doctorCollection id t).2.storage =
        (stored e.storage).set doctorCollection id.toString (some tombstone) := by
  obtain ⟨e₁, hsame, ⟨hget, -⟩ | hputs⟩ := deleteOne_puts e t hold
  · have hread : (e.storageGet doctorCollection id).1.isOk = true := (hreliable _ _ _).1
    rw [hread] at hget
    cases hget
  · refine ⟨_, isDeleted_deleteWrite e₁ doctorCollection id d t, ?_⟩
    rw [← hsame]
    have hwritten : ∀ doc, (e₁.storagePut doctorCollection id doc).1.isOk = true :=
      (hreliable doctorCollection id e₁.storage).2
    refine hputs.docs.resolve_left fun hfailed => ?_
    rw [hwritten] at hfailed
    cases hfailed.1

/-- How a check of the doctor ends: not in a panic, and only with the report that it got. When it
succeeds and storage is reliable, it has left a tombstone at each of the places. -/
structure Sound (places : List DocumentId) (report : DoctorReport) (e : RangoEngine σ OplogHandle)
    (out : Except DoctorFault DoctorReport × RangoEngine σ OplogHandle) : Prop where
  no_panic : out.1 ≠ .error .panic
  same_report : ∀ r, out.1 = .ok r → r = report
  tombstones : ∀ r, out.1 = .ok r → Reliable σ → ∃ ts : List Document,
    (∀ t ∈ ts, isDeleted t = true) ∧ ts.length = places.length ∧
      stored out.2.storage = (places.zip ts).foldl
        (fun D kt => D.set doctorCollection kt.1.toString (some kt.2)) (stored e.storage)

omit [BsonCodec] [MutationHasher] [Arithmetic] in
lemma sound_of_error {places : List DocumentId} {report : DoctorReport}
    {e e' : RangoEngine σ OplogHandle} {fault : DoctorFault} (h : fault ≠ .panic) :
    Sound places report e (.error fault, e') :=
  ⟨fun heq => h (Except.error.inj heq), fun _ heq => (by cases heq), fun _ heq => (by cases heq)⟩

omit [Formatting] [BsonCodec] [MutationHasher] [Arithmetic] in
lemma ofError_ne_panic (err : RangoError) : DoctorFault.ofError err ≠ .panic := by
  intro h
  cases h

omit [Arithmetic] in
lemma metadataCheck_sound (clocks : ℕ → WriteClock) (report : DoctorReport)
    (e : RangoEngine σ OplogHandle) :
    Sound [.newUuidV7 (clocks 3).uuid] report e (metadataCheck clocks report e) := by
  unfold metadataCheck
  rcases insertOne_found e ⟨[("name", .string "doctor")]⟩ (clocks 3) with
    ⟨err, e', hfailed⟩ | ⟨e₁, d, hinsert, hdocs, hlive, hfields, hfind⟩
  · rw [hfailed]
    exact sound_of_error (ofError_ne_panic err)
  · rw [show insertId ⟨[("name", .string "doctor")]⟩ (clocks 3) =
      .newUuidV7 (clocks 3).uuid from rfl] at hinsert hdocs hfind
    rw [hinsert]
    dsimp only
    cases hfound : e₁.findOne doctorCollection (.newUuidV7 (clocks 3).uuid) with
    | error err => exact sound_of_error (ofError_ne_panic err)
    | ok found =>
      obtain rfl := hfind found hfound
      dsimp only
      rw [hfields]
      refine ⟨fun heq => (by cases heq), fun r hr => (Except.ok.inj hr).symm,
        fun r _ hreliable => ?_⟩
      have hold : stored e₁.storage doctorCollection
          (DocumentId.newUuidV7 (clocks 3).uuid).toString = some d := by
        rw [hdocs, DocMap.set_self]
      obtain ⟨t, ht, hset⟩ := deleteOne_tombstone hreliable hold (clocks 4)
      refine ⟨[t], fun t' ht' => List.mem_singleton.mp ht' ▸ ht, rfl, ?_⟩
      dsimp only
      rw [hset, hdocs, DocMap.set_set]
      rfl

omit [Formatting] [BsonCodec] [MutationHasher] in
/-- The update of the check does not fail on any document. -/
lemma applyUpdate_test (d : Document) : ∃ new, applyUpdate d
    ⟨[("$set", .document [("test", .boolean false)])]⟩ = .ok new := ⟨_, rfl⟩

lemma operationsCheck_sound (clocks : ℕ → WriteClock) (report : DoctorReport)
    (e : RangoEngine σ OplogHandle) :
    Sound [.newUuidV7 (clocks 0).uuid, .newUuidV7 (clocks 3).uuid] report e
      (operationsCheck clocks report e) := by
  unfold operationsCheck
  rcases insertOne_found e ⟨[("test", .boolean true)]⟩ (clocks 0) with
    ⟨err, e', hfailed⟩ | ⟨e₁, d, hinsert, hdocs, hlive, -, hfind⟩
  · rw [hfailed]
    exact sound_of_error (ofError_ne_panic err)
  · rw [show insertId ⟨[("test", .boolean true)]⟩ (clocks 0) =
      .newUuidV7 (clocks 0).uuid from rfl] at hinsert hdocs hfind
    rw [hinsert]
    dsimp only
    cases hfound : e₁.findOne doctorCollection (.newUuidV7 (clocks 0).uuid) with
    | error err => exact sound_of_error (ofError_ne_panic err)
    | ok found =>
      obtain rfl := hfind found hfound
      dsimp only
      have hold : stored e₁.storage doctorCollection
          (DocumentId.newUuidV7 (clocks 0).uuid).toString = some d := by
        rw [hdocs, DocMap.set_self]
      obtain ⟨new, hnew⟩ := applyUpdate_test d
      obtain ⟨e₁', hsame, ⟨err, hfailed⟩ | hputs⟩ := updateOne_puts e₁ (clocks 1) hold hlive hnew
      · rw [hfailed]
        exact sound_of_error (ofError_ne_panic err)
      obtain ⟨err, e', hupdate⟩ | ⟨e₂, hupdate, hdocs₂⟩ := hputs.ends
      · rw [hupdate]
        exact sound_of_error (ofError_ne_panic err)
      · rw [hupdate]
        dsimp only
        rw [hsame, hdocs, DocMap.set_set] at hdocs₂
        have hold₂ := congrFun (congrFun hdocs₂ doctorCollection)
          (DocumentId.newUuidV7 (clocks 0).uuid).toString
        rw [DocMap.set_self] at hold₂
        obtain ⟨e₂', hsame₂, ⟨-, err, hfailed⟩ | hputs₂⟩ := deleteOne_puts e₂ (clocks 2) hold₂
        · rw [hfailed]
          exact sound_of_error (ofError_ne_panic err)
        obtain ⟨err, e', hdelete⟩ | ⟨e₃, hdelete, hdocs₃⟩ := hputs₂.ends
        · rw [hdelete]
          exact sound_of_error (ofError_ne_panic err)
        · rw [hdelete]
          dsimp only
          rw [hsame₂, hdocs₂, DocMap.set_set] at hdocs₃
          obtain ⟨hpanic, hreport, hplaced⟩ := metadataCheck_sound clocks report e₃
          refine ⟨hpanic, hreport, fun r hr hreliable => ?_⟩
          obtain ⟨ts, hts, hlength, hfinal⟩ := hplaced r hr hreliable
          rw [hdocs₃] at hfinal
          have htombstone := isDeleted_deleteWrite e₂' doctorCollection
            (.newUuidV7 (clocks 0).uuid) (e₁'.updateWrite doctorCollection
              (.newUuidV7 (clocks 0).uuid) new (clocks 1)).doc (clocks 2)
          exact ⟨_ :: ts, List.forall_mem_cons.mpr ⟨htombstone, hts⟩,
            congrArg Nat.succ hlength, hfinal⟩

section Sample
variable [BsonTraits] [SliceSort]

omit [BsonCodec] [MutationHasher] [Arithmetic] in
/-- A query without a sort does not panic, and leaves the documents. -/
lemma findMany_spares {e e' : RangoEngine σ OplogHandle} {c : CollectionName}
    {r : Except Fault (List (Except RangoError Document))} (h : e.findMany c = (r, e')) :
    stored e'.storage = stored e.storage ∧ Spared e e' ∧ r ≠ .error .panic := by
  have hscan := (FallibleStorage.scan_spec c e.storage).1
  have hdocs : stored (e.storageScan c).2.storage = stored e.storage := hscan
  have hoplog : (e.storageScan c).2.oplog = e.oplog := rfl
  unfold findMany find at h
  rcases hcall : e.storageScan c with ⟨result, e₁⟩
  rw [hcall] at h hdocs hoplog
  have hspared : Spared e e₁ := by
    have hlog : e₁.oplog.file.log = e.oplog.file.log := congrArg (fun w => w.file.log) hoplog
    exact ⟨fun c' _ => congrFun hdocs c', hlog ▸ List.prefix_rfl,
      congrArg (fun w => w.file.appliedFile) hoplog⟩
  cases result with
  | error err =>
    obtain ⟨rfl, rfl⟩ := Prod.mk.inj h
    exact ⟨hdocs, hspared, fun heq => by cases heq⟩
  | ok results =>
    obtain ⟨rfl, rfl⟩ := Prod.mk.inj h
    exact ⟨hdocs, hspared, fun heq => by cases heq⟩

omit [BsonCodec] [MutationHasher] [Arithmetic] in
lemma envelopeLoop_spares (report : DoctorReport) (e : RangoEngine σ OplogHandle)
    (cs : List CollectionName) :
    stored (envelopeLoop report e cs).2.storage = stored e.storage ∧
      Spared e (envelopeLoop report e cs).2 ∧ (envelopeLoop report e cs).1 ≠ .error .panic := by
  induction cs generalizing e with
  | nil => exact ⟨rfl, .refl e, fun heq => by cases heq⟩
  | cons c rest ih =>
    unfold envelopeLoop
    split
    · next hfind => exact absurd rfl (findMany_spares hfind).2.2
    · next e₁ hfind =>
      obtain ⟨hdocs, hspared, -⟩ := findMany_spares hfind
      obtain ⟨hrest, hrestSpared, hpanic⟩ := ih e₁
      exact ⟨hrest.trans hdocs, hspared.trans hrestSpared, hpanic⟩
    · next cursor e₁ hfind =>
      obtain ⟨hdocs, hspared, -⟩ := findMany_spares hfind
      split
      · obtain ⟨hrest, hrestSpared, hpanic⟩ := ih e₁
        exact ⟨hrest.trans hdocs, hspared.trans hrestSpared, hpanic⟩
      · exact ⟨hdocs, hspared, fun heq => by cases heq⟩

lemma spared_clientChecks (clocks : ℕ → WriteClock) (report : DoctorReport)
    (e : RangoEngine σ OplogHandle) : Spared e (clientChecks clocks report e).2 := by
  have h := spared_operationsCheck clocks report e
  unfold clientChecks
  rcases hcheck : operationsCheck clocks report e with ⟨r, e₁⟩
  rw [hcheck] at h
  cases r with
  | error fault => exact h
  | ok report => exact h.trans (envelopeLoop_spares report e₁ sampleCollections).2.1

/-- The checks on an engine do not panic. When they succeed, they leave two tombstones. -/
lemma clientChecks_ends (clocks : ℕ → WriteClock) (report : DoctorReport)
    (e : RangoEngine σ OplogHandle) :
    (clientChecks clocks report e).1 ≠ .error .panic ∧
      ∀ r, (clientChecks clocks report e).1 = .ok r → Reliable σ →
        ∃ t₀ t₁, isDeleted t₀ = true ∧ isDeleted t₁ = true ∧
          stored (clientChecks clocks report e).2.storage =
            ((stored e.storage).set doctorCollection
              (DocumentId.newUuidV7 (clocks 0).uuid).toString (some t₀)).set doctorCollection
              (DocumentId.newUuidV7 (clocks 3).uuid).toString (some t₁) := by
  obtain ⟨hpanic, -, hplaced⟩ := operationsCheck_sound clocks report e
  unfold clientChecks
  rcases hcheck : operationsCheck clocks report e with ⟨r, e₁⟩
  rw [hcheck] at hpanic hplaced
  cases r with
  | error fault => exact ⟨hpanic, fun r hr => by cases hr⟩
  | ok report =>
    obtain ⟨hdocs, -, hloop⟩ := envelopeLoop_spares report e₁ sampleCollections
    refine ⟨hloop, fun r _ hreliable => ?_⟩
    obtain ⟨ts, hts, hlength, hfinal⟩ := hplaced report rfl hreliable
    obtain ⟨t₀, t₁, rfl⟩ := List.length_eq_two.mp hlength
    dsimp only
    rw [hdocs]
    exact ⟨t₀, t₁, hts t₀ (by simp), hts t₁ (by simp), hfinal⟩

end Sample
end

/-! ## The files -/

section
variable {σ : Type} [Formatting] [FallibleStorage σ] [QueueCodec] [JsonCodec] [MutationHasher]
  [Arithmetic] [BsonTraits] [SliceSort]

omit [Formatting] [FallibleStorage σ] [MutationHasher] [Arithmetic] [JsonCodec] [BsonTraits]
  [SliceSort] in
/-- The engine of the doctor has the stored data and the log of the workspace. -/
lemma openPersistentClient_ok {crypto : Option CryptoEngine} {t : DoctorTurns}
    {ws : WorkspaceFiles σ} {e : RangoEngine σ OplogHandle}
    (h : openPersistentClient crypto t ws = .ok e) :
    ws.storage = .ok e.storage ∧ e.oplog.file.log = ws.oplog.getD [] ∧
      e.oplog.file.appliedFile = ws.applied := by
  unfold openPersistentClient at h
  split at h
  · cases h
  · next s hs =>
    split at h
    · cases h
    · next file hfile =>
      obtain rfl := Except.ok.inj h
      unfold FileOplog.newWithCrypto at hfile
      split at hfile
      · cases hfile
      · split at hfile
        · cases hfile
        · obtain rfl := Except.ok.inj hfile
          exact ⟨hs, rfl, rfl⟩

omit [Formatting] [FallibleStorage σ] [MutationHasher] [Arithmetic] [BsonTraits] [SliceSort] in
/-- The checks of the sync files add no errors. -/
lemma syncChecks_errors (crypto : Option CryptoEngine) (t : DoctorTurns) (ws : WorkspaceFiles σ)
    (report : DoctorReport) :
    (oplogCheck crypto ws report).errors = report.errors ∧
      (queueCheck crypto t ws report).1.errors = report.errors ∧
      (checkpointCheck crypto t ws report).errors = report.errors := by
  refine ⟨?_, ?_, ?_⟩
  · unfold oplogCheck
    split
    · rfl
    · split
      · rfl
      · rfl
  · unfold queueCheck
    split
    · rfl
    · split
      · rfl
      · rfl
  · unfold checkpointCheck
    split
    · rfl
    · split
      · rfl
      · rfl

omit [Formatting] [FallibleStorage σ] [MutationHasher] [Arithmetic] [BsonTraits] [SliceSort] in
/-- The check of the sync files ends well only for a report without errors. It changes nothing but
the queue. -/
lemma syncCheck_ends (crypto : Option CryptoEngine) (t : DoctorTurns) (ws : WorkspaceFiles σ)
    (report : DoctorReport) :
    (syncCheck crypto t ws report).result ≠ .error .panic ∧
      ((syncCheck crypto t ws report).result = .ok () → report.errors = []) ∧
      (syncCheck crypto t ws report).files =
        { ws with queue := (syncCheck crypto t ws report).files.queue } := by
  have hoplog := (syncChecks_errors crypto t ws report).1
  have hqueue := (syncChecks_errors crypto t ws (oplogCheck crypto ws report)).2.1
  unfold syncCheck
  rcases hcall : queueCheck crypto t ws (oplogCheck crypto ws report) with
    ⟨checked, counts, queue⟩
  rw [hcall] at hqueue
  have hcheckpoint := (syncChecks_errors crypto t ws checked).2.2
  have herrors : (checkpointCheck crypto t ws checked).errors = report.errors :=
    hcheckpoint.trans (Eq.trans hqueue hoplog)
  dsimp only
  unfold DoctorReport.hasErrors
  rw [herrors]
  refine ⟨?_, ?_, rfl⟩
  · split_ifs
    · simp
    · simp
  · split_ifs with hnone
    · simp
    · intro _
      simpa using hnone

variable [KeyDerivation]

/-- **The doctor does no harm.** Whatever fails on the way, the doctor does not panic. It leaves the
salt, the configuration, the checkpoint and the marks of applied entries as they were, and every
stored document of other collections than its own; the log only gets longer. If it ends well on a
storage that is reliable, all that it leaves are two tombstones in its own collection. -/
theorem doctor_harmless (path : String) (passphrase : Option String) (t : DoctorTurns)
    (ws : WorkspaceFiles σ) :
    let out := runDoctor path passphrase t ws
    out.result ≠ .error .panic ∧
      out.files = { ws with
        storage := out.files.storage, oplog := out.files.oplog, queue := out.files.queue } ∧
      ws.oplog.getD [] <+: out.files.oplog.getD [] ∧
      (∀ err, ws.storage = .error err → out.files.storage = .error err) ∧
      ∀ s, ws.storage = .ok s → ∃ s', out.files.storage = .ok s' ∧
        (∀ c ≠ doctorCollection, stored s' c = stored s c) ∧
        (out.result = .ok () → Reliable σ →
          ∃ t₀ t₁, isDeleted t₀ = true ∧ isDeleted t₁ = true ∧
            stored s' = ((stored s).set doctorCollection
              (DocumentId.newUuidV7 (t.clocks 0).uuid).toString (some t₀)).set doctorCollection
              (DocumentId.newUuidV7 (t.clocks 3).uuid).toString (some t₁)) := by
  dsimp only
  unfold runDoctor
  dsimp only
  split
  · refine ⟨by simp, rfl, List.prefix_rfl, fun _ h => h, fun s hs => ?_⟩
    exact ⟨s, hs, fun _ _ => rfl, fun h => by cases h⟩
  · next crypto hcrypto =>
    split
    · next err hopen =>
      obtain ⟨hpanic, herrors, hfiles⟩ := syncCheck_ends crypto t ws.afterFailedOpen
        ((DoctorReport.opening path ws.directory).addError
          ("failed to open engine: " ++ err.display))
      have hlog : ws.afterFailedOpen.oplog.getD [] = ws.oplog.getD [] := by
        unfold WorkspaceFiles.afterFailedOpen
        cases ws.storage with
        | error _ => rfl
        | ok _ => rfl
      rw [hfiles]
      refine ⟨hpanic, rfl, hlog ▸ List.prefix_rfl, fun _ h => h, fun s hs => ?_⟩
      refine ⟨s, hs, fun _ _ => rfl, fun hok => ?_⟩
      exact absurd (herrors hok) (by simp [DoctorReport.addError])
    · next e hopen =>
      obtain ⟨hstorage, hlog, happlied⟩ := openPersistentClient_ok hopen
      have hspared := spared_clientChecks t.clocks (.opening path ws.directory) e
      obtain ⟨hpanic, hends⟩ := clientChecks_ends t.clocks (.opening path ws.directory) e
      rcases hchecks : clientChecks t.clocks (.opening path ws.directory) e with ⟨r, e'⟩
      rw [hchecks] at hspared hpanic hends
      have hfiles : ws.afterClient e' = { ws with
          storage := .ok e'.storage, oplog := some e'.oplog.file.log } := by
        rw [WorkspaceFiles.afterClient, hspared.applied, happlied]
      have hprefix : ws.oplog.getD [] <+: e'.oplog.file.log := by
        rw [← hlog]
        exact hspared.log
      have hnoerror : ∀ err, ws.storage = .error err → Except.ok e'.storage = .error err :=
        fun err herr => absurd (hstorage.symm.trans herr) (by simp)
      cases r with
      | error fault =>
        have hfault : fault ≠ .panic := fun h => hpanic (congrArg Except.error h)
        dsimp only
        rw [hfiles]
        refine ⟨fun h => hfault (Except.error.inj h), rfl, hprefix, hnoerror, fun s hs => ?_⟩
        obtain rfl := Except.ok.inj (hstorage.symm.trans hs)
        exact ⟨e'.storage, rfl, hspared.others, fun h => by cases h⟩
      | ok report =>
        obtain ⟨hsync, -, hsyncFiles⟩ := syncCheck_ends crypto t (ws.afterClient e') report
        dsimp only
        rw [hsyncFiles, hfiles]
        rw [hfiles] at hsync
        refine ⟨hsync, rfl, hprefix, hnoerror, fun s hs => ?_⟩
        obtain rfl := Except.ok.inj (hstorage.symm.trans hs)
        exact ⟨e'.storage, rfl, hspared.others, fun _ => hends report rfl⟩

end
end Rango
