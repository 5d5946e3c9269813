import Rango.Oplog.FileTheorems

/-!
# The file oplog behind the interface

`FileLog` is a `FileOplog` as a running engine holds it: its file is whole records under
increasing numbers, and no write of it is cut short. It is a `CountingOplog`, so that what is
proved about an engine with such a log is proved about an engine with a `FileOplog`.
-/

namespace Rango

section
variable [BsonCodec]

/-- What the oplog takes from the `bson` crate and from the cipher. -/
structure Dependable (crypto : Option CryptoEngine) : Prop where
  codec : BsonCodec.RoundTrips
  codecSized : BsonCodec.Sized
  cipher : FileOplog.CryptoRoundTrips crypto
  cipherSized : FileOplog.CryptoSized crypto

namespace FileOplog

/-- The file of an oplog to which nothing was done but appending. -/
structure InOrder (w : FileOplog) : Prop where
  whole : w.Holds w.entries []
  increasing : w.entries.Pairwise fun a b => a.seq < b.seq
  range : ∀ e ∈ w.entries, 0 < e.seq ∧ e.seq < 2 ^ 63 ∧ e.seq ≤ w.nextSeq

variable {w : FileOplog}

/-- An order that depends on the file and the counter alone. -/
lemma InOrder.congr {w' : FileOplog} (h : w.InOrder) (hlog : w'.log = w.log)
    (hcrypto : w'.crypto = w.crypto) (hnext : w.nextSeq ≤ w'.nextSeq) : w'.InOrder := by
  have hentries : w'.entries = w.entries := by rw [entries, entries, hlog, hcrypto]
  refine ⟨?_, ?_, ?_⟩
  · rw [hentries]
    exact h.whole.congr hlog hcrypto
  · rw [hentries]
    exact h.increasing
  · rw [hentries]
    intro e he
    have hrange := h.range e he
    omega

/-- An append keeps the order, and stores its entry when it returns a number. -/
theorem InOrder.append (h : w.InOrder) (hd : Dependable w.crypto) (entry : OplogEntry)
    (nonce : Nonce) :
    (w.append entry nonce none).2.InOrder ∧ (w.append entry nonce none).2.crypto = w.crypto ∧
      ((w.append entry nonce none).1 = .ok (w.nextSeq + 1) ∧
          (w.append entry nonce none).2.nextSeq = w.nextSeq + 1 ∧
          (w.append entry nonce none).2.entries = w.entries ++ [entry.withSeq (w.nextSeq + 1)] ∨
        (∃ err, (w.append entry nonce none).1 = .error err) ∧
          (w.append entry nonce none).2.entries = w.entries) := by
  rcases append_cases w entry nonce none with ⟨err, hout⟩ | ⟨p, henc, -, hout⟩ | ⟨p, f, -, hf, -⟩
  · rw [hout]
    exact ⟨h.congr rfl rfl (Nat.le_succ _), rfl, Or.inr ⟨⟨err, rfl⟩, rfl⟩⟩
  · rw [hout]
    set w' : FileOplog := { w with log := w.log ++ Framing.frame p, nextSeq := w.nextSeq + 1 }
    obtain ⟨hlen, hseq⟩ := encodeEntry_sized hd.codecSized hd.cipherSized henc
    have hholds : w'.Holds (w.entries ++ [entry.withSeq (w.nextSeq + 1)]) [] :=
      h.whole.append_whole (encodes_of_encodeEntry hd.codec hd.cipher henc) hlen rfl rfl
    have hentries := hholds.entries_eq
    refine ⟨⟨?_, ?_, ?_⟩, rfl, Or.inl ⟨rfl, rfl, hentries⟩⟩
    · rw [hentries]
      exact hholds
    · rw [hentries, List.pairwise_append]
      refine ⟨h.increasing, List.pairwise_singleton _ _, fun a ha b hb => ?_⟩
      have hrange := h.range a ha
      rw [List.mem_singleton.mp hb, OplogEntry.withSeq_seq]
      omega
    · rw [hentries]
      intro e he
      show 0 < e.seq ∧ e.seq < 2 ^ 63 ∧ e.seq ≤ w.nextSeq + 1
      rcases List.mem_append.mp he with he | he
      · have hrange := h.range e he
        omega
      · rw [List.mem_singleton.mp he]
        rw [OplogEntry.withSeq_seq] at hseq ⊢
        omega
  · cases hf

/-- Opening the path again finds the same entries in order. -/
theorem InOrder.reopen (h : w.InOrder) {w' : FileOplog} (hopen : w.reopen = .ok w') :
    w'.InOrder ∧ w'.crypto = w.crypto ∧ w'.entries = w.entries := by
  cases happlied : readApplied w.crypto w.appliedFile with
  | error err =>
    rw [FileOplog.reopen, newWithCrypto, Option.getD_some, h.whole.readLatestSeq_eq, happlied]
      at hopen
    cases hopen
  | ok applied =>
    rw [h.whole.reopen_eq happlied] at hopen
    obtain rfl := Except.ok.inj hopen
    refine ⟨⟨h.whole, h.increasing, fun e he => ?_⟩, rfl, rfl⟩
    have hrange := h.range e he
    exact ⟨hrange.1, hrange.2.1, seq_le_lastSeq h.increasing he⟩

end FileOplog

/-! ## The log of an engine -/

/-- A `FileOplog` whose file is in order, with the nonces that will be drawn for it. -/
structure FileLog where
  file : FileOplog
  nonces : ℕ → Nonce
  dependable : Dependable file.crypto
  inOrder : file.InOrder

namespace FileLog

/-- A log on a new path. -/
def new (crypto : Option CryptoEngine) (nonces : ℕ → Nonce) (hd : Dependable crypto) : FileLog where
  file := (FileRun.start crypto).oplog
  nonces := nonces
  dependable := hd
  inOrder :=
    have hnone : (FileRun.start crypto).oplog.entries = [] := rfl
    { whole := ⟨[], rfl, by simp, by rw [hnone]; exact .nil, rfl⟩
      increasing := by rw [hnone]; exact .nil
      range := by rw [hnone]; simp }

/-- The nonces that are left when one has been drawn. -/
def nextNonces (w : FileLog) (n : ℕ) : Nonce := w.nonces (n + 1)

def append (e : OplogEntry) (w : FileLog) : Except RangoError ℕ × FileLog :=
  ((w.file.append e (w.nonces 0) none).1,
    { file := (w.file.append e (w.nonces 0) none).2
      nonces := w.nextNonces
      dependable := by
        rw [(w.inOrder.append w.dependable e (w.nonces 0)).2.1]
        exact w.dependable
      inOrder := (w.inOrder.append w.dependable e (w.nonces 0)).1 })

/-- Marking touches neither the log nor the counter. -/
lemma markApplied_rest (w : FileOplog) (seq : ℕ) (nonce : Nonce) :
    (w.markApplied seq nonce none).2.log = w.log ∧
      (w.markApplied seq nonce none).2.crypto = w.crypto ∧
      (w.markApplied seq nonce none).2.nextSeq = w.nextSeq := by
  unfold FileOplog.markApplied FileOplog.writeApplied
  split
  · exact ⟨rfl, rfl, rfl⟩
  · exact ⟨rfl, rfl, rfl⟩

def markApplied (seq : ℕ) (w : FileLog) : Except RangoError Unit × FileLog :=
  ((w.file.markApplied seq (w.nonces 0) none).1,
    { file := (w.file.markApplied seq (w.nonces 0) none).2
      nonces := w.nextNonces
      dependable := by
        rw [(markApplied_rest w.file seq (w.nonces 0)).2.1]
        exact w.dependable
      inOrder :=
        have hrest := markApplied_rest w.file seq (w.nonces 0)
        w.inOrder.congr hrest.1 hrest.2.1 hrest.2.2.ge })

instance : LogOplog FileLog where
  append := append
  readSince seq limit w := w.file.readSince seq limit
  markApplied := markApplied
  latestSeq w := w.file.latestSeq
  toEntries w := w.file.entries
  increasing w := w.inOrder.increasing
  seq_range w e he := by
    have hrange := w.inOrder.range e he
    omega
  append_ok e w s w' h := by
    replace h : append e w = (.ok s, w') := h
    obtain ⟨hs, rfl⟩ := Prod.mk.inj h
    rcases (w.inOrder.append w.dependable e (w.nonces 0)).2.2 with
      ⟨hok, -, hentries⟩ | ⟨⟨err, herr⟩, -⟩
    · rw [hok] at hs
      rw [← Except.ok.inj hs]
      exact hentries
    · rw [herr] at hs
      cases hs
  append_error e w err w' h := by
    replace h : append e w = (.error err, w') := h
    obtain ⟨hs, rfl⟩ := Prod.mk.inj h
    rcases (w.inOrder.append w.dependable e (w.nonces 0)).2.2 with ⟨hok, -⟩ | ⟨-, hentries⟩
    · rw [hok] at hs
      cases hs
    · exact hentries
  readSince_ok w s limit es hlimit h := by
    replace h : w.file.readSince s limit = .ok es := h
    rw [w.inOrder.whole.readSince_eq s hlimit] at h
    exact (Except.ok.inj h).symm
  latestSeq_ok w n h e he := by
    rw [← show w.file.nextSeq = n from Except.ok.inj h]
    exact (w.inOrder.range e he).2.2

instance : ReadableOplog FileLog where
  latestSeq_total w := ⟨w.file.nextSeq, rfl⟩
  readSince_total w s _ hlimit := ⟨_, w.inOrder.whole.readSince_eq s hlimit⟩

instance : CountingOplog FileLog where
  counter w := w.file.nextSeq
  append_counts e w s w' h := by
    replace h : append e w = (.ok s, w') := h
    obtain ⟨hs, rfl⟩ := Prod.mk.inj h
    rcases (w.inOrder.append w.dependable e (w.nonces 0)).2.2 with
      ⟨hok, hnext, -⟩ | ⟨⟨err, herr⟩, -⟩
    · rw [hok] at hs
      rw [← Except.ok.inj hs]
      exact ⟨rfl, hnext⟩
    · rw [herr] at hs
      cases hs

/-- Another `new_with_crypto` on the same path. -/
def reopen (w : FileLog) : Except RangoError FileLog :=
  match hopen : w.file.reopen with
  | .error err => .error err
  | .ok file =>
    .ok
      { file
        nonces := w.nonces
        dependable := by
          rw [(w.inOrder.reopen hopen).2.1]
          exact w.dependable
        inOrder := (w.inOrder.reopen hopen).1 }

instance : DurableOplog FileLog where
  seq_stored w e he := (w.inOrder.range e he).2.1
  reopen := reopen
  reopen_ok w w' h := by
    unfold reopen at h
    split at h
    · cases h
    · next file hopen =>
      rw [← Except.ok.inj h]
      exact (w.inOrder.reopen hopen).2.2

end FileLog
end
end Rango
