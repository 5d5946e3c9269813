import Rango.Oplog.File
import Rango.Oplog.Log
import Mathlib.Data.List.Forall2

/-!
# The file oplog as a list of entries

`FileOplog.Holds` relates the bytes of a log to the entries it stores. Each operation is
described once in these terms; `file_refines_log` follows by induction over the run: without
compaction and without failures, a file oplog is the list of what was appended, numbered
from one.
-/

namespace Rango
namespace FileOplog

variable [BsonCodec]

/-! ## Records and entries -/

/-- The cipher, if there is one, opens what it sealed. -/
def CryptoRoundTrips (crypto : Option CryptoEngine) : Prop := ∀ c ∈ crypto, c.RoundTrips

/-- The cipher, if there is one, adds its tag and nothing else. -/
def CryptoSized (crypto : Option CryptoEngine) : Prop := ∀ c ∈ crypto, c.Sized

omit [BsonCodec] in
lemma openRecord_sealRecord {crypto : Option CryptoEngine} (h : CryptoRoundTrips crypto)
    (nonce : Nonce) (bytes : Bytes) :
    openRecord crypto (sealRecord crypto nonce bytes) = .ok bytes := by
  cases crypto with
  | none => rfl
  | some c => exact CryptoEngine.decrypt_encrypt (h c rfl) nonce bytes

omit [BsonCodec] in
lemma length_sealRecord {crypto : Option CryptoEngine} (h : CryptoSized crypto) (nonce : Nonce)
    (bytes : Bytes) : (sealRecord crypto nonce bytes).length ≤ bytes.length + 28 := by
  cases crypto with
  | none => exact Nat.le_add_right _ _
  | some c => exact (CryptoEngine.length_encrypt (h c rfl) nonce bytes).le

/-- The stored bytes `p` open and parse as the entry `e`. -/
structure Encodes (crypto : Option CryptoEngine) (p : Bytes) (e : OplogEntry) : Prop where
  parses : ∃ plaintext doc, openRecord crypto p = .ok plaintext ∧
    BsonCodec.fromReader plaintext = .ok doc ∧ BsonCodec.deserializeEntry doc = .ok e

lemma Encodes.parseEntry {crypto : Option CryptoEngine} {p : Bytes} {e : OplogEntry}
    (h : Encodes crypto p e) :
    ∃ plaintext, openRecord crypto p = .ok plaintext ∧ parseEntry plaintext = some e := by
  obtain ⟨plaintext, doc, hopen, hread, hde⟩ := h.parses
  exact ⟨plaintext, hopen, by simp [FileOplog.parseEntry, hread, hde, Except.toOption]⟩

/-- What was encoded is decoded again. -/
theorem encodes_of_encodeEntry (hb : BsonCodec.RoundTrips) {crypto : Option CryptoEngine}
    (hc : CryptoRoundTrips crypto) {nonce : Nonce} {e : OplogEntry} {p : Bytes}
    (h : encodeEntry crypto nonce e = .ok p) : Encodes crypto p e := by
  unfold encodeEntry at h
  cases hser : BsonCodec.serializeEntry e with
  | error err => rw [hser] at h; cases h
  | ok doc =>
    rw [hser] at h
    dsimp only at h
    cases hwrite : BsonCodec.toWriter doc with
    | error err => rw [hwrite] at h; cases h
    | ok bytes =>
      rw [hwrite] at h
      rw [← Except.ok.inj h]
      exact ⟨⟨bytes, doc, openRecord_sealRecord hc nonce bytes, hb.reader_writer _ _ hwrite,
        hb.deserialize_serialize _ _ hser⟩⟩

/-- An encoded entry is short enough for its header, and its number fits an `i64`. -/
lemma encodeEntry_sized (hb : BsonCodec.Sized) {crypto : Option CryptoEngine}
    (hc : CryptoSized crypto) {nonce : Nonce} {e : OplogEntry} {p : Bytes}
    (h : encodeEntry crypto nonce e = .ok p) : p.length < 2 ^ 32 ∧ e.seq < 2 ^ 63 := by
  unfold encodeEntry at h
  cases hser : BsonCodec.serializeEntry e with
  | error err => rw [hser] at h; cases h
  | ok doc =>
    rw [hser] at h
    dsimp only at h
    cases hwrite : BsonCodec.toWriter doc with
    | error err => rw [hwrite] at h; cases h
    | ok bytes =>
      rw [hwrite] at h
      rw [← Except.ok.inj h]
      have hlen := length_sealRecord hc nonce bytes
      have hbytes := (hb.writer_length _ _ hwrite).2
      exact ⟨by omega, hb.serialize_seq _ _ hser⟩

/-- The number of the last entry, zero when there is none. -/
def lastSeq (es : List OplogEntry) : ℕ := (es.getLast?.map OplogEntry.seq).getD 0

omit [BsonCodec] in
@[simp] lemma lastSeq_concat (es : List OplogEntry) (e : OplogEntry) :
    lastSeq (es ++ [e]) = e.seq := by
  simp [lastSeq]

omit [BsonCodec] in
/-- In increasing entries, the last number is the greatest. -/
lemma seq_le_lastSeq {es : List OplogEntry} (h : es.Pairwise fun a b => a.seq < b.seq)
    {e : OplogEntry} (he : e ∈ es) : e.seq ≤ lastSeq es := by
  rcases List.eq_nil_or_concat' es with rfl | ⟨init, last, rfl⟩
  · cases he
  · rw [lastSeq_concat]
    rcases List.mem_append.mp he with he | he
    · exact ((List.pairwise_append.mp h).2.2 e he last (List.mem_singleton.mpr rfl)).le
    · rw [List.mem_singleton.mp he]

/-! ## The loops over the records -/

section Loops
variable {crypto : Option CryptoEngine} {ps : List Bytes} {es : List OplogEntry}

lemma filterMap_recordEntry (h : List.Forall₂ (Encodes crypto) ps es) :
    ps.filterMap (recordEntry crypto) = es := by
  induction h with
  | nil => rfl
  | @cons p e ps es hpe _ ih =>
    obtain ⟨plaintext, hopen, hparse⟩ := hpe.parseEntry
    have hp : recordEntry crypto p = some e := by
      simp [recordEntry, hopen, hparse, Except.toOption]
    rw [List.filterMap_cons_some hp, ih]

lemma latestLoop_eq (h : List.Forall₂ (Encodes crypto) ps es) (latest : ℕ) :
    latestLoop crypto latest ps = .ok ((es.getLast?.map OplogEntry.seq).getD latest) := by
  induction h generalizing latest with
  | nil => rfl
  | @cons p e ps es hpe _ ih =>
    obtain ⟨plaintext, hopen, hparse⟩ := hpe.parseEntry
    simp only [latestLoop, hopen, hparse, ih]
    cases es with
    | nil => rfl
    | cons e' es => simp [List.getLast?_eq_some_getLast]

lemma readLoop_eq (h : List.Forall₂ (Encodes crypto) ps es) {seq limit : ℕ}
    {acc : List OplogEntry} (hacc : acc.length < limit) :
    readLoop crypto seq limit acc ps
      = acc ++ (es.filter fun e => seq ≤ e.seq).take (limit - acc.length) := by
  induction h generalizing acc with
  | nil => simp [readLoop]
  | @cons p e ps es hpe _ ih =>
    obtain ⟨plaintext, hopen, hparse⟩ := hpe.parseEntry
    simp only [readLoop, hopen, hparse]
    obtain ⟨n, hn⟩ : ∃ n, limit - acc.length = n + 1 := ⟨limit - acc.length - 1, by omega⟩
    split_ifs with hseq hfull
    · -- the limit is reached with this entry
      have hzero : n = 0 := by
        rw [List.length_append, List.length_singleton] at hfull
        omega
      simp [hseq, hn, hzero]
    · have hroom : (acc ++ [e]).length < limit := by omega
      have hn' : limit - (acc ++ [e]).length = n := by
        rw [List.length_append, List.length_singleton]
        omega
      rw [ih hroom, hn', hn, List.filter_cons_of_pos (by simpa using hseq), List.take_succ_cons,
        List.append_assoc, List.singleton_append]
    · rw [ih hacc, List.filter_cons_of_neg (by simpa using hseq)]

lemma mem_readLoop (h : List.Forall₂ (Encodes crypto) ps es) {seq limit : ℕ}
    {acc : List OplogEntry} {e : OplogEntry} (he : e ∈ readLoop crypto seq limit acc ps) :
    e ∈ acc ∨ e ∈ es := by
  induction h generalizing acc with
  | nil => exact Or.inl he
  | @cons p e' ps es hpe _ ih =>
    obtain ⟨plaintext, hopen, hparse⟩ := hpe.parseEntry
    simp only [readLoop, hopen, hparse] at he
    split_ifs at he with hseq hfull
    · rcases List.mem_append.mp he with he | he
      · exact Or.inl he
      · exact Or.inr (List.mem_singleton.mp he ▸ List.mem_cons_self)
    · rcases ih he with he | he
      · rcases List.mem_append.mp he with he | he
        · exact Or.inl he
        · exact Or.inr (List.mem_singleton.mp he ▸ List.mem_cons_self)
      · exact Or.inr (List.mem_cons_of_mem _ he)
    · exact (ih he).imp_right (List.mem_cons_of_mem _)

lemma keepRecord_eq {p : Bytes} {e : OplogEntry} (h : Encodes crypto p e) (applied : List ℕ) :
    keepRecord crypto applied p = decide (e.seq ∉ applied) := by
  obtain ⟨plaintext, doc, hopen, hread, hde⟩ := h.parses
  simp [keepRecord, hopen, hread, hde]

lemma forall₂_keep (h : List.Forall₂ (Encodes crypto) ps es) (applied : List ℕ) :
    List.Forall₂ (Encodes crypto) (ps.filter (keepRecord crypto applied))
      (es.filter fun e => e.seq ∉ applied) := by
  induction h with
  | nil => exact .nil
  | @cons p e ps es hpe _ ih =>
    have hkeep := keepRecord_eq hpe applied
    by_cases hin : e.seq ∈ applied
    · rw [List.filter_cons_of_neg (by simp [hkeep, hin]),
        List.filter_cons_of_neg (by simp [hin])]
      exact ih
    · rw [List.filter_cons_of_pos (by simp [hkeep, hin]),
        List.filter_cons_of_pos (by simp [hin])]
      exact .cons hpe ih

end Loops

/-! ## What a log holds -/

/-- The log is the records of the entries `es`, one after another, and then bytes `tail`
that are no whole record. -/
def Holds (w : FileOplog) (es : List OplogEntry) (tail : Bytes) : Prop :=
  ∃ ps : List Bytes, w.log = ps.flatMap Framing.frame ++ tail ∧
    (∀ p ∈ ps, p.length < 2 ^ 32) ∧ List.Forall₂ (Encodes w.crypto) ps es ∧
    Framing.next tail = none

namespace Holds
variable {w : FileOplog} {es : List OplogEntry} {tail : Bytes}

lemma payloads (h : w.Holds es tail) :
    List.Forall₂ (Encodes w.crypto) (Framing.payloads w.log) es ∧
      ∀ p ∈ Framing.payloads w.log, p.length < 2 ^ 32 := by
  obtain ⟨ps, hlog, hlen, hps, htail⟩ := h
  rw [hlog, (Framing.payloads_frames hlen tail).1, (Framing.scan_of_next_none htail).1,
    List.append_nil]
  exact ⟨hps, hlen⟩

/-- The bytes behind the last whole record are the leftover of the stream. -/
lemma leftover_eq (h : w.Holds es tail) : Framing.leftover w.log = tail := by
  obtain ⟨ps, hlog, hlen, -, htail⟩ := h
  rw [hlog, (Framing.payloads_frames hlen tail).2, (Framing.scan_of_next_none htail).2]

/-- What is held does not depend on the memory of the process. -/
lemma congr {w' : FileOplog} (h : w.Holds es tail) (hlog : w'.log = w.log)
    (hcrypto : w'.crypto = w.crypto) : w'.Holds es tail := by
  unfold Holds
  rwa [hlog, hcrypto]

theorem entries_eq (h : w.Holds es tail) : w.entries = es := filterMap_recordEntry h.payloads.1

theorem readLatestSeq_eq (h : w.Holds es tail) :
    readLatestSeq w.crypto w.log = .ok (lastSeq es) := latestLoop_eq h.payloads.1 0

theorem readSince_eq (h : w.Holds es tail) (seq : ℕ) {limit : ℕ} (hlimit : 0 < limit) :
    w.readSince seq limit = .ok (entriesSince es seq limit) := by
  rw [readSince, readLoop_eq h.payloads.1 (by simpa using hlimit)]
  rfl

/-- Whatever the limit, a read returns entries that are held. -/
lemma of_mem_readSince (h : w.Holds es tail) {seq limit : ℕ} {found : List OplogEntry}
    (hread : w.readSince seq limit = .ok found) {e : OplogEntry} (he : e ∈ found) : e ∈ es := by
  rw [← Except.ok.inj hread] at he
  exact (mem_readLoop h.payloads.1 he).resolve_left (by simp)

/-- Opening the path again: the counter is the number of the last stored entry. -/
theorem reopen_eq (h : w.Holds es tail) {applied : List ℕ}
    (happ : readApplied w.crypto w.appliedFile = .ok applied) :
    w.reopen = .ok { w with nextSeq := lastSeq es, applied } := by
  rw [reopen, newWithCrypto, Option.getD_some, h.readLatestSeq_eq, happ]

/-- A whole record behind whole records. -/
theorem append_whole (h : w.Holds es []) {p : Bytes} {e : OplogEntry}
    (hp : Encodes w.crypto p e) (hlen : p.length < 2 ^ 32) {w' : FileOplog}
    (hlog : w'.log = w.log ++ Framing.frame p) (hcrypto : w'.crypto = w.crypto) :
    w'.Holds (es ++ [e]) [] := by
  obtain ⟨ps, hps, hsmall, hall, htail⟩ := h
  refine ⟨ps ++ [p], ?_, ?_, ?_, htail⟩
  · rw [hlog, hps]
    simp
  · intro q hq
    rcases List.mem_append.mp hq with hq | hq
    · exact hsmall q hq
    · rwa [List.mem_singleton.mp hq]
  · rw [hcrypto]
    exact List.rel_append hall (.cons hp .nil)

/-- A torn record behind whole records. -/
theorem append_torn (h : w.Holds es []) {p t : Bytes} (hlen : p.length < 2 ^ 32)
    (ht : Framing.Torn t p) {w' : FileOplog} (hlog : w'.log = w.log ++ t)
    (hcrypto : w'.crypto = w.crypto) : w'.Holds es t := by
  obtain ⟨ps, hps, hsmall, hall, -⟩ := h
  refine ⟨ps, by rw [hlog, hps, List.append_nil], hsmall, by rwa [hcrypto],
    Framing.next_torn hlen ht⟩

/-- Compaction keeps the entries that are not marked applied, and no bytes behind them. -/
theorem compact (h : w.Holds es tail) :
    ∃ n w', w.compact none = (.ok n, w') ∧
      w' = { w with log := w'.log } ∧ w'.Holds (es.filter fun e => e.seq ∉ w.applied) [] := by
  obtain ⟨hps, hsmall⟩ := h.payloads
  refine ⟨_, _, rfl, rfl, (Framing.payloads w.log).filter (keepRecord w.crypto w.applied), ?_, ?_,
    forall₂_keep hps w.applied, rfl⟩
  · simp
  · exact fun p hp => hsmall p (List.mem_of_mem_filter hp)

end Holds

/-! ## One append -/

/-- What an append can do: fail to encode and leave the log; write the whole record; or stop
within it. The counter is raised in each case. -/
theorem append_cases (w : FileOplog) (entry : OplogEntry) (nonce : Nonce)
    (fault : Option PartialWrite) :
    (∃ err, w.append entry nonce fault = (.error err, { w with nextSeq := w.nextSeq + 1 })) ∨
    (∃ p, encodeEntry w.crypto nonce (entry.withSeq (w.nextSeq + 1)) = .ok p ∧ fault = none ∧
      w.append entry nonce fault = (.ok (w.nextSeq + 1),
        { w with log := w.log ++ Framing.frame p, nextSeq := w.nextSeq + 1 })) ∨
    (∃ p f, encodeEntry w.crypto nonce (entry.withSeq (w.nextSeq + 1)) = .ok p ∧
      fault = some f ∧ w.append entry nonce fault = (.error (.storage f.error),
        { w with log := w.log ++ (Framing.frame p).take f.written,
                 nextSeq := w.nextSeq + 1 })) := by
  cases henc : encodeEntry w.crypto nonce (entry.withSeq (w.nextSeq + 1)) with
  | error err => exact Or.inl ⟨err, by simp [append, henc]⟩
  | ok p =>
    cases fault with
    | none => exact Or.inr (Or.inl ⟨p, rfl, rfl, by simp [append, henc]⟩)
    | some f => exact Or.inr (Or.inr ⟨p, f, rfl, rfl, by simp [append, henc]⟩)

end FileOplog

/-! ## Runs of appends and reopens -/

namespace FileRun

/-- The entries that a run appends. -/
def appended : List FileStep → List OplogEntry
  | [] => []
  | .append entry _ _ :: rest => entry :: appended rest
  | _ :: rest => appended rest

/-- The entries under consecutive numbers, from `n + 1` on. -/
def numbered (n : ℕ) : List OplogEntry → List OplogEntry
  | [] => []
  | e :: es => e.withSeq (n + 1) :: numbered (n + 1) es

lemma numbered_concat (n : ℕ) (es : List OplogEntry) (e : OplogEntry) :
    numbered n (es ++ [e]) = numbered n es ++ [e.withSeq (n + es.length + 1)] := by
  induction es generalizing n with
  | nil => rfl
  | cons x xs ih => simp [numbered, ih, Nat.add_comm, Nat.add_left_comm]

lemma map_seq_numbered (n : ℕ) (es : List OplogEntry) :
    (numbered n es).map OplogEntry.seq = List.range' (n + 1) es.length := by
  induction es generalizing n with
  | nil => rfl
  | cons x xs ih => simp [numbered, ih, List.range'_succ]

lemma lastSeq_numbered (es : List OplogEntry) :
    FileOplog.lastSeq (numbered 0 es) = es.length := by
  rcases List.eq_nil_or_concat' es with rfl | ⟨init, e, rfl⟩
  · rfl
  · rw [numbered_concat, FileOplog.lastSeq_concat]
    simp

/-- The step appends or opens the path again. -/
def AppendsOrReopens : FileStep → Prop
  | .append .. | .reopen => True
  | _ => False

variable [BsonCodec]

/-- What an append leaves: nothing but a higher counter, the whole record, or its first bytes. -/
lemma call_append_cases (r : FileRun) (entry : OplogEntry) (nonce : Nonce)
    (fault : Option PartialWrite) :
    (∃ err, r.call (.append entry nonce fault) =
      (.error err, { r with oplog := { r.oplog with nextSeq := r.oplog.nextSeq + 1 } })) ∨
    (∃ p, FileOplog.encodeEntry r.oplog.crypto nonce (entry.withSeq (r.oplog.nextSeq + 1)) = .ok p ∧
      r.call (.append entry nonce fault) = (.ok (),
        ⟨{ r.oplog with log := r.oplog.log ++ Framing.frame p, nextSeq := r.oplog.nextSeq + 1 },
          r.accepted ++ [entry.withSeq (r.oplog.nextSeq + 1)],
          r.unmarked ++ [entry.withSeq (r.oplog.nextSeq + 1)]⟩)) ∨
    (∃ p f err,
      FileOplog.encodeEntry r.oplog.crypto nonce (entry.withSeq (r.oplog.nextSeq + 1)) = .ok p ∧
      fault = some f ∧ r.call (.append entry nonce fault) = (.error err,
        { r with oplog := { r.oplog with
          log := r.oplog.log ++ (Framing.frame p).take f.written
          nextSeq := r.oplog.nextSeq + 1 } })) := by
  rcases FileOplog.append_cases r.oplog entry nonce fault with ⟨err, hout⟩ |
    ⟨p, henc, -, hout⟩ | ⟨p, f, henc, hfault, hout⟩
  · exact Or.inl ⟨err, by rw [call, hout]⟩
  · exact Or.inr (Or.inl ⟨p, henc, by rw [call, hout]⟩)
  · exact Or.inr (Or.inr ⟨p, f, _, henc, hfault, by rw [call, hout]⟩)

/-- A call of `append` that returns a number. -/
lemma step_append {r : FileRun} {entry : OplogEntry} {nonce : Nonce}
    {fault : Option PartialWrite} (h : (r.call (.append entry nonce fault)).1 = .ok ()) :
    ∃ p, FileOplog.encodeEntry r.oplog.crypto nonce (entry.withSeq (r.oplog.nextSeq + 1)) = .ok p ∧
      r.step (.append entry nonce fault) =
        ⟨{ r.oplog with log := r.oplog.log ++ Framing.frame p, nextSeq := r.oplog.nextSeq + 1 },
          r.accepted ++ [entry.withSeq (r.oplog.nextSeq + 1)],
          r.unmarked ++ [entry.withSeq (r.oplog.nextSeq + 1)]⟩ := by
  rcases call_append_cases r entry nonce fault with ⟨err, hout⟩ | ⟨p, henc, hout⟩ |
    ⟨p, f, err, -, -, hout⟩
  · rw [hout] at h
    cases h
  · exact ⟨p, henc, by rw [step, hout]⟩
  · rw [hout] at h
    cases h

/-- What a run of appends and reopens keeps: the file holds the numbered entries, and the
counter is their count. -/
structure LogState (crypto : Option CryptoEngine) (r : FileRun) (es : List OplogEntry) :
    Prop where
  accepted : r.accepted = numbered 0 es
  holds : r.oplog.Holds (numbered 0 es) []
  nextSeq : r.oplog.nextSeq = es.length
  appliedFile : r.oplog.appliedFile = none
  crypto : r.oplog.crypto = crypto

lemma logState_start (crypto : Option CryptoEngine) : LogState crypto (start crypto) [] where
  accepted := rfl
  holds := ⟨[], rfl, by simp, .nil, rfl⟩
  nextSeq := rfl
  appliedFile := rfl
  crypto := rfl

/-- An append adds its entry under the next number. -/
lemma LogState.append (hb : BsonCodec.RoundTrips) {crypto : Option CryptoEngine}
    (hc : FileOplog.CryptoRoundTrips crypto) {r : FileRun} {es : List OplogEntry}
    (h : LogState crypto r es) {entry : OplogEntry} {nonce : Nonce} {fault : Option PartialWrite}
    (hok : (r.call (.append entry nonce fault)).1 = .ok ())
    (hsize : ∀ nonce p, FileOplog.encodeEntry crypto nonce (entry.withSeq (es.length + 1)) = .ok p →
      p.length < 2 ^ 32) :
    LogState crypto (r.step (.append entry nonce fault)) (es ++ [entry]) := by
  obtain ⟨p, henc, hstep⟩ := step_append hok
  rw [h.nextSeq, h.crypto] at henc
  have hnum : numbered 0 (es ++ [entry]) = numbered 0 es ++ [entry.withSeq (es.length + 1)] := by
    rw [numbered_concat, Nat.zero_add]
  rw [hstep]
  refine ⟨?_, ?_, ?_, h.appliedFile, h.crypto⟩
  · rw [hnum, h.nextSeq, h.accepted]
  · rw [hnum]
    have hp := FileOplog.encodes_of_encodeEntry hb hc henc
    rw [← h.crypto] at hp
    exact h.holds.append_whole hp (hsize _ _ henc) rfl rfl
  · rw [h.nextSeq, List.length_append, List.length_singleton]

/-- A reopen succeeds and finds everything as it was. -/
lemma LogState.reopen {crypto : Option CryptoEngine} {r : FileRun} {es : List OplogEntry}
    (h : LogState crypto r es) : LogState crypto (r.step .reopen) es := by
  have happ : FileOplog.readApplied r.oplog.crypto r.oplog.appliedFile = .ok [] := by
    rw [h.appliedFile]
    rfl
  have hopen := h.holds.reopen_eq happ
  rw [lastSeq_numbered] at hopen
  have hstep : r.step .reopen
      = { r with oplog := { r.oplog with nextSeq := es.length, applied := [] } } := by
    simp [step, call, hopen]
  rw [hstep]
  exact ⟨h.accepted, h.holds.congr rfl rfl, rfl, h.appliedFile, h.crypto⟩

/-- The entries of a run of appends and reopens that succeeds are held in order. -/
theorem logState_run (hb : BsonCodec.RoundTrips) {crypto : Option CryptoEngine}
    (hc : FileOplog.CryptoRoundTrips crypto) {steps : List FileStep}
    (hsteps : ∀ s ∈ steps, AppendsOrReopens s) {r : FileRun} {es : List OplogEntry}
    (h : LogState crypto r es) (hok : r.Succeeds steps)
    (hsize : ∀ e ∈ numbered es.length (appended steps), ∀ nonce p,
      FileOplog.encodeEntry crypto nonce e = .ok p → p.length < 2 ^ 32) :
    LogState crypto (r.run steps) (es ++ appended steps) := by
  induction steps generalizing r es with
  | nil => simpa [run, appended] using h
  | cons s rest ih =>
    have hrest := fun x hx => hsteps x (List.mem_cons_of_mem s hx)
    cases s with
    | append entry nonce fault =>
      have hone := h.append hb hc hok.1 (hsize _ List.mem_cons_self)
      have hall := ih hrest hone hok.2 fun e he =>
        hsize e (List.mem_cons_of_mem _ (by simpa using he))
      rwa [List.append_assoc] at hall
    | reopen => exact ih hrest h.reopen hok.2 hsize
    | markApplied seq nonce fault => exact (hsteps _ List.mem_cons_self).elim
    | compact fault => exact (hsteps _ List.mem_cons_self).elim

/-- **A file oplog is the list of what was appended.** Over every run of appends and reopens
on a new path in which no call fails and every encoded entry is shorter than `2 ^ 32` bytes:
the appends return `1, 2, 3, …`, the counter is their count, and a read returns the first
entries from the given number on, as they were appended but for that number. -/
theorem file_refines_log (hb : BsonCodec.RoundTrips) {crypto : Option CryptoEngine}
    (hc : FileOplog.CryptoRoundTrips crypto) {steps : List FileStep}
    (hsteps : ∀ s ∈ steps, AppendsOrReopens s) (hok : (start crypto).Succeeds steps)
    (hsize : ∀ e ∈ numbered 0 (appended steps), ∀ nonce p,
      FileOplog.encodeEntry crypto nonce e = .ok p → p.length < 2 ^ 32) :
    let r := (start crypto).run steps
    r.accepted = numbered 0 (appended steps) ∧
      r.accepted.map OplogEntry.seq = List.range' 1 (appended steps).length ∧
      r.oplog.latestSeq = .ok (appended steps).length ∧
      ∀ s limit, 1 ≤ limit →
        r.oplog.readSince s limit = .ok (entriesSince (numbered 0 (appended steps)) s limit) := by
  have h := logState_run hb hc hsteps (logState_start crypto) hok hsize
  rw [List.nil_append] at h
  refine ⟨h.accepted, ?_, ?_, fun s limit hlimit => h.holds.readSince_eq s hlimit⟩
  · rw [h.accepted, map_seq_numbered]
  · rw [FileOplog.latestSeq, h.nextSeq]

end FileRun

section

/-- A small entry under a number, for worked examples. -/
def sampleEntry (seq : ℕ) (writeId : String) : OplogEntry where
  seq := seq
  timestamp := 0
  mutation := .sample "c" "tenant" "d" .delete none 0 "1-0-aaaa" writeId
  origin := .localWrite
  applied := true
  snapshotAnchor := none

def sampleEntries : List OplogEntry :=
  [sampleEntry 1 "a", sampleEntry 1 "c", sampleEntry 2 "c", sampleEntry 3 "c",
    sampleEntry 2 "a much longer write id"]

def sampleDocuments : List Document :=
  FileOplog.appliedDocument [1] :: sampleEntries.map BsonCodec.entryDocument

/-- The codec that knows the small entries. -/
@[reducible] def sampleCodec : BsonCodec := .ofTable sampleEntries sampleDocuments

attribute [local instance] sampleCodec

lemma sampleCodec_roundTrips : BsonCodec.RoundTrips :=
  BsonCodec.ofTable_roundTrips (by decide +kernel) (by decide +kernel)

lemma sampleCodec_sized : BsonCodec.Sized :=
  BsonCodec.ofTable_sized (by decide +kernel) (by decide +kernel)

/-- The stored bytes of a small entry, without encryption. -/
def sampleRecord (e : OplogEntry) : Bytes :=
  (BsonCodec.layout (BsonCodec.entryDocument e)).getD []

def sampleNonce : Nonce := ⟨List.replicate 12 0, rfl⟩

/-- Append, reopen, append. -/
def sampleLogSteps : List FileStep :=
  [.append (sampleEntry 0 "a") sampleNonce none, .reopen,
    .append (sampleEntry 0 "c") sampleNonce none]

def sampleLogRun : FileRun := (FileRun.start none).run sampleLogSteps

theorem FileRun.file_refines_log_sample :
    sampleLogRun.accepted = FileRun.numbered 0 (FileRun.appended sampleLogSteps) ∧
      sampleLogRun.accepted.map OplogEntry.seq
        = List.range' 1 (FileRun.appended sampleLogSteps).length ∧
      sampleLogRun.oplog.latestSeq = .ok (FileRun.appended sampleLogSteps).length ∧
      ∀ s limit, 1 ≤ limit → sampleLogRun.oplog.readSince s limit
        = .ok (entriesSince (FileRun.numbered 0 (FileRun.appended sampleLogSteps)) s limit) :=
  FileRun.file_refines_log sampleCodec_roundTrips (by simp [FileOplog.CryptoRoundTrips])
    (by simp [sampleLogSteps, FileRun.AppendsOrReopens])
    ⟨by decide +kernel, by decide +kernel, by decide +kernel, trivial⟩
    fun _ _ _ _ h => (FileOplog.encodeEntry_sized sampleCodec_sized
      (by simp [FileOplog.CryptoSized]) h).1

end
end Rango
