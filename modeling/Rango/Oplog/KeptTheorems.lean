import Rango.Oplog.FileTheorems

/-!
# What compaction keeps

`compact` reads the log record by record and writes the ones that it keeps to a new file
(`compact_eq_compactLoop`). It is to drop the applied entries and nothing else. It does so with a
record that does not open and with one that is a document but no entry; a record that opens to bytes
that are no document has no branch, and is lost (`compact_keeps_iff`).
-/

namespace Rango.FileOplog

open Framing (frame)

section
variable [BsonCodec] {crypto : Option CryptoEngine} {applied : List ℕ} {w : FileOplog}
  {ps : List Bytes}

/-! ## The loop -/

/-- The loop of `compact`, over the bytes that are left of the log: the new file, and how many
records it holds. -/
def compactLoop (crypto : Option CryptoEngine) (applied : List ℕ) :
    ℕ → Bytes → Bytes → ℕ → Bytes × ℕ
  | 0, _, temp, kept => (temp, kept)
  | fuel + 1, log, temp, kept =>
    match Framing.next log with
    | none => (temp, kept)
    | some (buf, rest) =>
      match openRecord crypto buf with
      | .error _ => compactLoop crypto applied fuel rest (temp ++ frame buf) (kept + 1)
      | .ok plaintext =>
        match BsonCodec.fromReader plaintext with
        -- neither written nor counted
        | .error _ => compactLoop crypto applied fuel rest temp kept
        | .ok doc =>
          match BsonCodec.deserializeEntry doc with
          | .ok entry =>
            if entry.seq ∈ applied then compactLoop crypto applied fuel rest temp kept
            else compactLoop crypto applied fuel rest (temp ++ frame buf) (kept + 1)
          | .error _ => compactLoop crypto applied fuel rest (temp ++ frame buf) (kept + 1)

/-- One round of the loop. -/
lemma compactLoop_succ {log buf rest : Bytes} (hnext : Framing.next log = some (buf, rest))
    (fuel : ℕ) (temp : Bytes) (kept : ℕ) :
    compactLoop crypto applied (fuel + 1) log temp kept =
      if keepRecord crypto applied buf then
        compactLoop crypto applied fuel rest (temp ++ frame buf) (kept + 1)
      else compactLoop crypto applied fuel rest temp kept := by
  rw [compactLoop, hnext]
  dsimp only
  cases hopen : openRecord crypto buf with
  | error err =>
    have hkeep : keepRecord crypto applied buf = true := by simp [keepRecord, hopen]
    rw [if_pos hkeep]
  | ok plaintext =>
    dsimp only
    cases hdoc : BsonCodec.fromReader plaintext with
    | error err =>
      have hdrop : ¬keepRecord crypto applied buf = true := by simp [keepRecord, hopen, hdoc]
      rw [if_neg hdrop]
    | ok doc =>
      dsimp only
      cases hentry : BsonCodec.deserializeEntry doc with
      | error err =>
        have hkeep : keepRecord crypto applied buf = true := by
          simp [keepRecord, hopen, hdoc, hentry]
        rw [if_pos hkeep]
      | ok entry =>
        by_cases hseq : entry.seq ∈ applied
        · simp [keepRecord, hopen, hdoc, hentry, hseq]
        · simp [keepRecord, hopen, hdoc, hentry, hseq]

/-- All rounds. -/
theorem compactLoop_eq (fuel : ℕ) (log temp : Bytes) (kept : ℕ) :
    compactLoop crypto applied fuel log temp kept =
      (temp ++ ((Framing.scan fuel log).1.filter (keepRecord crypto applied)).flatMap frame,
        kept + ((Framing.scan fuel log).1.filter (keepRecord crypto applied)).length) := by
  induction fuel generalizing log temp kept with
  | zero => simp [compactLoop, Framing.scan]
  | succ fuel ih =>
    rw [Framing.scan]
    cases hnext : Framing.next log with
    | none => simp [compactLoop, hnext]
    | some pr =>
      obtain ⟨buf, rest⟩ := pr
      rw [compactLoop_succ hnext]
      dsimp only
      by_cases hkeep : keepRecord crypto applied buf = true
      · rw [if_pos hkeep, ih, List.filter_cons_of_pos hkeep, List.flatMap_cons, List.append_assoc,
          List.length_cons]
        simp only [Nat.add_assoc, Nat.add_comm 1]
      · rw [if_neg hkeep, ih, List.filter_cons_of_neg hkeep]

/-- `compact` is its loop. -/
theorem compact_eq_compactLoop (w : FileOplog) :
    w.compact none = (.ok (compactLoop w.crypto w.applied w.log.length w.log [] 0).2,
      { w with log := (compactLoop w.crypto w.applied w.log.length w.log [] 0).1 }) := by
  rw [compactLoop_eq]
  simp [compact, Framing.payloads]

/-! ## The records that stay -/

/-- The record does not decode to an entry that is marked applied. -/
def unapplied (w : FileOplog) (buf : Bytes) : Bool :=
  (recordEntry w.crypto buf).all fun entry => entry.seq ∉ w.applied

/-- The record opens to bytes that are no document. -/
def Illegible (crypto : Option CryptoEngine) (buf : Bytes) : Prop :=
  ∃ plaintext err, openRecord crypto buf = .ok plaintext ∧
    BsonCodec.fromReader plaintext = .error err

/-- **One record.** -/
lemma keepRecord_iff (w : FileOplog) (buf : Bytes) :
    keepRecord w.crypto w.applied buf = true ↔
      w.unapplied buf = true ∧ ¬Illegible w.crypto buf := by
  unfold keepRecord unapplied recordEntry parseEntry Illegible
  cases openRecord w.crypto buf with
  | error err => simp [Except.toOption]
  | ok plaintext =>
    cases hdoc : BsonCodec.fromReader plaintext with
    | error err => simp [hdoc]
    | ok doc =>
      cases hentry : BsonCodec.deserializeEntry doc with
      | error err => simp [hdoc, hentry, Except.toOption]
      | ok entry => simp [hdoc, hentry, Except.toOption]

lemma unapplied_of_illegible {buf : Bytes} (h : Illegible w.crypto buf) :
    w.unapplied buf = true := by
  obtain ⟨plaintext, err, hopen, hread⟩ := h
  simp [unapplied, recordEntry, parseEntry, hopen, hread, Except.toOption]

/-- A log of whole records, compacted. -/
lemma compact_frames (hlog : w.log = ps.flatMap frame) (hps : ∀ p ∈ ps, p.length < 2 ^ 32) :
    w.compact none = (.ok (ps.filter (keepRecord w.crypto w.applied)).length,
      { w with log := (ps.filter (keepRecord w.crypto w.applied)).flatMap frame }) := by
  have hread : Framing.payloads w.log = ps := by
    have hpayloads := (Framing.payloads_frames hps []).1
    rw [List.append_nil, ← hlog] at hpayloads
    simpa [Framing.payloads] using hpayloads
  rw [compact, hread]

/-- **Compaction drops only applied entries.** Of a log of whole records it keeps the ones that do
not decode to an applied entry, and returns their number, just when no record of the log opens to
bytes that are no document. -/
theorem compact_keeps_iff (hlog : w.log = ps.flatMap frame) (hps : ∀ p ∈ ps, p.length < 2 ^ 32) :
    w.compact none = (.ok (ps.filter w.unapplied).length,
        { w with log := (ps.filter w.unapplied).flatMap frame }) ↔
      ∀ p ∈ ps, ¬Illegible w.crypto p := by
  rw [compact_frames hlog hps]
  constructor
  · -- the records that stay are among the unapplied ones, and would be as many
    intro h p hp hillegible
    have hlength : (ps.filter (keepRecord w.crypto w.applied)).length =
        (ps.filter w.unapplied).length := Except.ok.inj (congrArg Prod.fst h)
    have hsub : (ps.filter (keepRecord w.crypto w.applied)).Sublist (ps.filter w.unapplied) :=
      List.monotone_filter_right ps fun q hq => ((keepRecord_iff w q).mp hq).1
    have hmem : p ∈ ps.filter w.unapplied :=
      List.mem_filter.mpr ⟨hp, unapplied_of_illegible hillegible⟩
    rw [← hsub.eq_of_length hlength] at hmem
    exact ((keepRecord_iff w p).mp (List.mem_filter.mp hmem).2).2 hillegible
  · intro h
    have hfilter : ps.filter (keepRecord w.crypto w.applied) = ps.filter w.unapplied := by
      refine List.filter_congr fun p hp => ?_
      rw [Bool.eq_iff_iff, keepRecord_iff]
      exact and_iff_left (h p hp)
    rw [hfilter]

end

section
attribute [local instance] sampleCodec

/-- A log with these records, of which number `1` is marked applied. -/
def sampleKept (ps : List Bytes) : FileOplog := ⟨ps.flatMap frame, none, 2, [1], none⟩

/-- An entry that is applied, a document that is no entry, and an entry that is not applied. -/
def sampleLegible : List Bytes :=
  [sampleRecord (sampleEntry 1 "a"), (BsonCodec.layout (appliedDocument [1])).getD [],
    sampleRecord (sampleEntry 2 "c")]

theorem compact_keeps_sample : (sampleKept sampleLegible).compact none =
    (.ok 2, sampleKept (sampleLegible.drop 1)) := by
  have hread : ∀ p ∈ sampleLegible, (BsonCodec.fromReader p).toOption.isSome := by decide +kernel
  have hlegible : ∀ p ∈ sampleLegible, ¬Illegible none p := by
    rintro p hp ⟨plaintext, err, hopen, herr⟩
    cases hopen
    have hsome := hread p hp
    rw [herr] at hsome
    cases hsome
  have hkept :
      sampleLegible.filter (sampleKept sampleLegible).unapplied = sampleLegible.drop 1 := by
    decide +kernel
  have hlog : (sampleKept sampleLegible).log = sampleLegible.flatMap frame := rfl
  have hcompact := (compact_keeps_iff hlog (by decide +kernel)).mpr hlegible
  rwa [hkept] at hcompact

/-- A record that is no document is lost. -/
theorem compact_drops_illegible : [[255]].filter (sampleKept [[255]]).unapplied = [[255]] ∧
    (sampleKept [[255]]).compact none = (.ok 0, sampleKept []) := by
  have hnone : (BsonCodec.fromReader [255]).toOption = none := by decide +kernel
  have hillegible : Illegible none [255] := by
    cases hread : BsonCodec.fromReader [255] with
    | error err => exact ⟨[255], err, rfl, hread⟩
    | ok doc =>
      rw [hread] at hnone
      cases hnone
  have hlog : (sampleKept [[255]]).log = [[255]].flatMap frame := rfl
  have hdrop : keepRecord none [1] [255] = false := by
    rw [Bool.eq_false_iff]
    exact fun hkeep => ((keepRecord_iff (sampleKept [[255]]) [255]).mp hkeep).2 hillegible
  constructor
  · rw [List.filter_cons_of_pos (unapplied_of_illegible hillegible), List.filter_nil]
  · rw [compact_frames hlog (by decide)]
    simp [sampleKept, hdrop]

end
end Rango.FileOplog
