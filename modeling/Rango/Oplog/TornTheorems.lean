import Rango.Oplog.FileTheorems

/-!
# Torn records

An append that stops within its record leaves bytes that the reader takes for the start of
one. As long as nothing is appended behind them they are harmless; a record appended behind
them is read as their missing part. `accepted_are_read` is the first half over whole runs,
`append_swallowed` the second.
-/

namespace Rango

section
variable [BsonCodec]

namespace FileOplog

/-- A record appended behind a torn one that announces more bytes than there are now: the
reader sees no more than before. -/
theorem Holds.append_swallowed {w : FileOplog} {es : List OplogEntry} {t p q : Bytes}
    (h : w.Holds es t) (hlen : p.length < 2 ^ 32) (ht : Framing.Torn t p)
    (hheader : 4 ≤ t.length)
    (hlater : t.length + (Framing.frame q).length < (Framing.frame p).length) {w' : FileOplog}
    (hlog : w'.log = w.log ++ Framing.frame q) (hcrypto : w'.crypto = w.crypto) :
    w'.Holds es (t ++ Framing.frame q) := by
  obtain ⟨ps, hps, hsmall, hall, -⟩ := h
  exact ⟨ps, by rw [hlog, hps, List.append_assoc], hsmall, by rwa [hcrypto],
    Framing.next_swallow hlen ht hheader hlater⟩

end FileOplog

namespace FileRun

/-- The call appends nothing behind a torn record. -/
def AppendsBehindWhole (r : FileRun) : FileStep → Prop
  | .append .. => Framing.leftover r.oplog.log = []
  | _ => True

/-- What a run of appends and reopens keeps when no append stands behind a torn record: the
file holds every entry whose append returned a number, under a positive number. -/
structure TornState (crypto : Option CryptoEngine) (r : FileRun) : Prop where
  holds : ∃ es tail, r.oplog.Holds es tail ∧ (∀ e ∈ r.accepted, e ∈ es) ∧ ∀ e ∈ es, 1 ≤ e.seq
  appliedFile : r.oplog.appliedFile = none
  crypto : r.oplog.crypto = crypto

lemma tornState_start (crypto : Option CryptoEngine) : TornState crypto (start crypto) where
  holds := ⟨[], [], ⟨[], rfl, by simp, .nil, rfl⟩, by simp [start], by simp⟩
  appliedFile := rfl
  crypto := rfl

section
variable (hb : BsonCodec.RoundTrips) (hs : BsonCodec.Sized) {crypto : Option CryptoEngine}
  (hc : FileOplog.CryptoRoundTrips crypto) (hcs : FileOplog.CryptoSized crypto)
include hb hs hc hcs

/-- An append keeps this state, however much of its record it writes. -/
lemma TornState.append {r : FileRun} (h : TornState crypto r) (entry : OplogEntry)
    (nonce : Nonce) (fault : Option PartialWrite)
    (hwhole : Framing.leftover r.oplog.log = []) :
    TornState crypto (r.step (.append entry nonce fault)) := by
  obtain ⟨es, tail, hholds, hacc, hpos⟩ := h.holds
  obtain rfl : tail = [] := hholds.leftover_eq ▸ hwhole
  have hnew : ∀ {p}, FileOplog.encodeEntry r.oplog.crypto nonce
      (entry.withSeq (r.oplog.nextSeq + 1)) = .ok p →
      FileOplog.Encodes r.oplog.crypto p (entry.withSeq (r.oplog.nextSeq + 1)) ∧
        p.length < 2 ^ 32 := fun henc =>
    ⟨FileOplog.encodes_of_encodeEntry hb (h.crypto ▸ hc) henc,
      (FileOplog.encodeEntry_sized hs (h.crypto ▸ hcs) henc).1⟩
  have hpos' : ∀ e ∈ es ++ [entry.withSeq (r.oplog.nextSeq + 1)], 1 ≤ e.seq := by
    intro e he
    rcases List.mem_append.mp he with he | he
    · exact hpos e he
    · rw [List.mem_singleton.mp he, OplogEntry.withSeq_seq]
      omega
  rcases call_append_cases r entry nonce fault with ⟨err, hout⟩ | ⟨p, henc, hout⟩ |
    ⟨p, f, err, henc, -, hout⟩
  · -- the entry could not be encoded: the log is as before
    rw [step, hout]
    exact ⟨⟨es, [], hholds.congr rfl rfl, hacc, hpos⟩, h.appliedFile, h.crypto⟩
  · -- the whole record was written and the number returned
    obtain ⟨hp, hlen⟩ := hnew henc
    have hacc' : ∀ e ∈ r.accepted ++ [entry.withSeq (r.oplog.nextSeq + 1)],
        e ∈ es ++ [entry.withSeq (r.oplog.nextSeq + 1)] := by
      intro e he
      rcases List.mem_append.mp he with he | he
      · exact List.mem_append_left _ (hacc e he)
      · exact List.mem_append_right _ he
    rw [step, hout]
    exact ⟨⟨_, [], hholds.append_whole hp hlen rfl rfl, hacc', hpos'⟩, h.appliedFile, h.crypto⟩
  · obtain ⟨hp, hlen⟩ := hnew henc
    rw [step, hout]
    by_cases hall : (Framing.frame p).length ≤ f.written
    · -- the write stopped after all bytes: the entry is stored, though its append failed
      have hwritten : r.oplog.log ++ (Framing.frame p).take f.written =
          r.oplog.log ++ Framing.frame p := by
        rw [List.take_of_length_le hall]
      exact ⟨⟨_, [], hholds.append_whole hp hlen hwritten rfl,
        fun e he => List.mem_append_left _ (hacc e he), hpos'⟩, h.appliedFile, h.crypto⟩
    · -- it stopped within the record
      have htorn : Framing.Torn ((Framing.frame p).take f.written) p :=
        ⟨List.take_prefix _ _, by rw [List.length_take]; omega⟩
      exact ⟨⟨es, _, hholds.append_torn hlen htorn rfl rfl, hacc, hpos⟩, h.appliedFile, h.crypto⟩

omit hb hs hc hcs in
/-- A reopen succeeds and leaves the files. -/
lemma TornState.reopen {r : FileRun} (h : TornState crypto r) :
    TornState crypto (r.step .reopen) := by
  obtain ⟨es, tail, hholds, hacc, hpos⟩ := h.holds
  have happ : FileOplog.readApplied r.oplog.crypto r.oplog.appliedFile = .ok [] := by
    rw [h.appliedFile]
    rfl
  have hopen := hholds.reopen_eq happ
  have hstep : r.step .reopen = { r with oplog :=
      { r.oplog with nextSeq := FileOplog.lastSeq es, applied := [] } } := by
    simp [step, call, hopen]
  rw [hstep]
  exact ⟨⟨es, tail, hholds.congr rfl rfl, hacc, hpos⟩, h.appliedFile, h.crypto⟩

/-- **Accepted entries are read.** In every run of appends and reopens on a new path, with
appends that may fail after any part of their record, in which no append is made while the
file ends in a torn record: every entry whose append returned a number is read from `1` on,
once the limit is large enough. -/
theorem accepted_are_read {steps : List FileStep}
    (hsteps : ∀ s ∈ steps, AppendsOrReopens s)
    (hwhole : Runs.All step AppendsBehindWhole (start crypto) steps) :
    ∃ enough, ∀ limit ≥ enough, ∃ found,
      ((start crypto).run steps).oplog.readSince 1 limit = .ok found ∧
        ∀ e ∈ ((start crypto).run steps).accepted, e ∈ found := by
  have hinv : TornState crypto ((start crypto).run steps) := by
    refine (hwhole.and_mem hsteps).invariant ?_ (tornState_start crypto)
    rintro r s hr ⟨hkind, hok⟩
    cases s with
    | append entry nonce fault => exact hr.append hb hs hc hcs entry nonce fault hok
    | reopen => exact hr.reopen
    | markApplied seq nonce fault => exact hkind.elim
    | compact fault => exact hkind.elim
  obtain ⟨es, tail, hholds, hacc, hpos⟩ := hinv.holds
  refine ⟨es.length + 1, fun limit hlimit => ?_⟩
  refine ⟨_, hholds.readSince_eq 1 (by omega), fun e he => ?_⟩
  have hmem := hacc e he
  rw [entriesSince, List.take_of_length_le ((List.length_filter_le _ _).trans (by omega))]
  simp [hmem, hpos e hmem]

omit hb hs hc hcs in
/-- **Appending behind a torn record loses the entry.** When the file ends in a torn record
whose header is there, an append whose own record is shorter than what that header still
announces returns a number, and its entry is read only if it was stored before. -/
theorem append_behind_torn_lost {r : FileRun} {es : List OplogEntry} {t p q : Bytes}
    (h : r.oplog.Holds es t) (hlen : p.length < 2 ^ 32) (ht : Framing.Torn t p)
    (hheader : 4 ≤ t.length) {entry : OplogEntry} {nonce : Nonce}
    (henc : FileOplog.encodeEntry r.oplog.crypto nonce (entry.withSeq (r.oplog.nextSeq + 1))
      = .ok q)
    (hlater : t.length + (Framing.frame q).length < (Framing.frame p).length) :
    (r.call (.append entry nonce none)).1 = .ok () ∧
      ∀ limit found, (r.step (.append entry nonce none)).oplog.readSince 1 limit = .ok found →
        ∀ e ∈ found, e ∈ es := by
  have hcall : r.call (.append entry nonce none) = (.ok (),
      ⟨{ r.oplog with log := r.oplog.log ++ Framing.frame q, nextSeq := r.oplog.nextSeq + 1 },
        r.accepted ++ [entry.withSeq (r.oplog.nextSeq + 1)],
        r.unmarked ++ [entry.withSeq (r.oplog.nextSeq + 1)]⟩) := by
    simp [call, FileOplog.append, henc]
  have hafter : (r.step (.append entry nonce none)).oplog.Holds es (t ++ Framing.frame q) := by
    rw [step, hcall]
    exact h.append_swallowed hlen ht hheader hlater rfl rfl
  exact ⟨by rw [hcall], fun limit found hread e he => hafter.of_mem_readSince hread he⟩

end
end FileRun
end

section
attribute [local instance] sampleCodec

lemma sampleRecord_eq {e : OplogEntry} (h : e ∈ sampleEntries) :
    FileOplog.encodeEntry none sampleNonce e = .ok (sampleRecord e) := by
  revert e
  decide +kernel

/-- An entry is appended; the write of the next one stops behind its header; a third one is
appended, in the same process. -/
def sampleTornSteps : List FileStep :=
  [.append (sampleEntry 0 "a") sampleNonce none,
    .append (sampleEntry 0 "a much longer write id") sampleNonce (some ⟨4, "disk full"⟩),
    .append (sampleEntry 0 "c") sampleNonce none]

/-- The run up to the torn record meets the condition. -/
theorem FileRun.accepted_are_read_sample :
    ∃ enough, ∀ limit ≥ enough, ∃ found,
      ((FileRun.start none).run (sampleTornSteps.take 2)).oplog.readSince 1 limit = .ok found ∧
        ∀ e ∈ ((FileRun.start none).run (sampleTornSteps.take 2)).accepted, e ∈ found :=
  FileRun.accepted_are_read sampleCodec_roundTrips sampleCodec_sized
    (by simp [FileOplog.CryptoRoundTrips]) (by simp [FileOplog.CryptoSized])
    (by simp [sampleTornSteps, FileRun.AppendsOrReopens])
    ⟨by unfold FileRun.AppendsBehindWhole; decide +kernel,
      by unfold FileRun.AppendsBehindWhole; decide +kernel, trivial⟩

/-- The third append returns a number, and no read finds its entry. -/
theorem torn_record_swallows :
    sampleEntry 3 "c" ∈ ((FileRun.start none).run sampleTornSteps).accepted ∧
      ∀ limit found,
        ((FileRun.start none).run sampleTornSteps).oplog.readSince 1 limit = .ok found →
          sampleEntry 3 "c" ∉ found := by
  have hholds : ((FileRun.start none).run (sampleTornSteps.take 2)).oplog.Holds
      [sampleEntry 1 "a"]
      ((Framing.frame (sampleRecord (sampleEntry 2 "a much longer write id"))).take 4) := by
    have hfirst : FileOplog.Encodes none (sampleRecord (sampleEntry 1 "a")) (sampleEntry 1 "a") :=
      FileOplog.encodes_of_encodeEntry sampleCodec_roundTrips
        (by simp [FileOplog.CryptoRoundTrips]) (sampleRecord_eq (by decide))
    exact ⟨[sampleRecord (sampleEntry 1 "a")], by decide +kernel, by decide +kernel,
      .cons hfirst .nil, by decide +kernel⟩
  have henc : FileOplog.encodeEntry none sampleNonce ((sampleEntry 0 "c").withSeq 3)
      = .ok (sampleRecord (sampleEntry 3 "c")) := sampleRecord_eq (by decide)
  obtain ⟨-, hlost⟩ := FileRun.append_behind_torn_lost hholds
    (p := sampleRecord (sampleEntry 2 "a much longer write id")) (by decide +kernel)
    ⟨List.take_prefix _ _, by decide +kernel⟩ (by decide +kernel) henc (by decide +kernel)
  refine ⟨by decide +kernel, fun limit found hread hmem => ?_⟩
  exact absurd (hlost limit found hread _ hmem) (by decide)

end
end Rango
