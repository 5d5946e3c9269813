import Rango.Types.Codec

/-!
# Operation logs

`Oplog` is the interface that the engine and the server call. `LogOplog` adds what an oplog
is for: it holds a list of entries with increasing sequence numbers, a successful append
puts one entry at its end, a failed one stores nothing, and a read returns a stretch of the
list. Two implementations stand here: `NullOplog`, which keeps only the counter, and
`MemLog`, which keeps the list.
-/

namespace Rango

/-- The trait `Oplog`, for an implementation with state `ω`. -/
class Oplog (ω : Type) where
  append : OplogEntry → ω → Except RangoError ℕ × ω
  readSince : ℕ → ℕ → ω → Except RangoError (List OplogEntry)
  markApplied : ℕ → ω → Except RangoError Unit × ω
  latestSeq : ω → Except RangoError ℕ

/-- What a read from `seq` on, cut to `limit` entries, sees of a list of entries. -/
def entriesSince (entries : List OplogEntry) (seq limit : ℕ) : List OplogEntry :=
  (entries.filter fun e => seq ≤ e.seq).take limit

/-- An oplog that behaves as a list of entries. Appends and reads may still fail. -/
class LogOplog (ω : Type) extends Oplog ω where
  toEntries : ω → List OplogEntry
  increasing : ∀ w, (toEntries w).Pairwise fun a b => a.seq < b.seq
  seq_range : ∀ w, ∀ e ∈ toEntries w, 0 < e.seq ∧ e.seq < 2 ^ 64
  append_ok : ∀ e w s w', append e w = (.ok s, w') → toEntries w' = toEntries w ++ [e.withSeq s]
  append_error : ∀ e w err w', append e w = (.error err, w') → toEntries w' = toEntries w
  readSince_ok : ∀ w s limit es, 0 < limit → readSince s limit w = .ok es →
    es = entriesSince (toEntries w) s limit
  latestSeq_ok : ∀ w n, latestSeq w = .ok n → ∀ e ∈ toEntries w, e.seq ≤ n

export LogOplog (toEntries)

/-- A read from the first entry on returns all that fit its limit. -/
theorem readSince_one {ω : Type} [LogOplog ω] {w : ω} {limit : ℕ} {es : List OplogEntry}
    (hlimit : 0 < limit) (hread : Oplog.readSince 1 limit w = .ok es)
    (hall : (toEntries w).length ≤ limit) : es = toEntries w := by
  have hfrom : (toEntries w).filter (fun e => 1 ≤ e.seq) = toEntries w := by
    rw [List.filter_eq_self]
    intro e he
    exact decide_eq_true (LogOplog.seq_range w e he).1
  rw [LogOplog.readSince_ok w 1 limit es hlimit hread, entriesSince, hfrom,
    List.take_of_length_le hall]

/-- A log whose reads never fail. Appends still may. -/
class ReadableOplog (ω : Type) extends LogOplog ω where
  latestSeq_total : ∀ w, ∃ n, latestSeq w = .ok n
  readSince_total : ∀ w s limit, 0 < limit → ∃ es, readSince s limit w = .ok es

/-- A log that numbers its entries one after another. -/
class CountingOplog (ω : Type) extends LogOplog ω where
  counter : ω → ℕ
  append_counts : ∀ e w s w', append e w = (.ok s, w') → s = counter w + 1 ∧ counter w' = s

/-- A log on a path that can be opened again: what is opened holds the same entries. Numbers
are stored as `i64`. -/
class DurableOplog (ω : Type) extends CountingOplog ω where
  seq_stored : ∀ w, ∀ e ∈ toEntries w, e.seq < 2 ^ 63
  reopen : ω → Except RangoError ω
  reopen_ok : ∀ w w', reopen w = .ok w' → toEntries w' = toEntries w

/-! ## The no-op log -/

/-- `NullOplog`: hands out numbers and stores nothing. -/
structure NullOplog where
  seq : ℕ
deriving DecidableEq

instance : Oplog NullOplog where
  append _ w := (.ok (w.seq + 1), ⟨w.seq + 1⟩)
  readSince _ _ _ := .ok []
  markApplied _ w := (.ok (), w)
  latestSeq w := .ok w.seq

/-! ## The in-memory log -/

/-- A log kept as the list of its entries, numbered from one. A number that does not fit an
`i64` cannot be stored, so the log stays below that. -/
structure MemLog where
  entries : List OplogEntry
  numbered : entries.map OplogEntry.seq = List.range' 1 entries.length
  bounded : entries.length < 2 ^ 63

namespace MemLog

def new : MemLog := ⟨[], rfl, Nat.two_pow_pos 63⟩

def append (e : OplogEntry) (w : MemLog) : Except RangoError ℕ × MemLog :=
  if h : w.entries.length + 1 < 2 ^ 63 then
    (.ok (w.entries.length + 1),
      { entries := w.entries ++ [e.withSeq (w.entries.length + 1)]
        numbered := by
          rw [List.map_append, w.numbered, List.length_append, List.length_singleton,
            List.range'_concat]
          simp [Nat.add_comm]
        bounded := by simpa using h })
  else (.error (.storage "unsigned integer exceeded range"), w)

def readSince (seq limit : ℕ) (w : MemLog) : Except RangoError (List OplogEntry) :=
  .ok (entriesSince w.entries seq limit)

theorem seq_mem {w : MemLog} {e : OplogEntry} (h : e ∈ w.entries) :
    1 ≤ e.seq ∧ e.seq ≤ w.entries.length := by
  have hmem : e.seq ∈ w.entries.map OplogEntry.seq := List.mem_map_of_mem h
  rw [w.numbered, List.mem_range'_1] at hmem
  omega

instance : LogOplog MemLog where
  append := append
  readSince := readSince
  markApplied _ w := (.ok (), w)
  latestSeq w := .ok w.entries.length
  toEntries := entries
  increasing w := by
    rw [← List.pairwise_map (f := OplogEntry.seq) (R := (· < ·)), w.numbered]
    exact List.pairwise_lt_range'
  seq_range w e he := by
    have h := seq_mem he
    have hb := w.bounded
    omega
  append_ok e w s w' h := by
    unfold append at h
    split_ifs at h with hb
    · obtain ⟨hs, rfl⟩ := Prod.mk.inj h
      rw [← Except.ok.inj hs]
    · cases (Prod.mk.inj h).1
  append_error e w err w' h := by
    unfold append at h
    split_ifs at h with hb
    · cases (Prod.mk.inj h).1
    · rw [(Prod.mk.inj h).2]
  readSince_ok w s limit es _ h := (Except.ok.inj h).symm
  latestSeq_ok w n h e he := by
    rw [← Except.ok.inj h]
    exact (seq_mem he).2

instance : ReadableOplog MemLog where
  latestSeq_total w := ⟨w.entries.length, rfl⟩
  readSince_total w s limit _ := ⟨entriesSince w.entries s limit, rfl⟩

instance : CountingOplog MemLog where
  counter w := w.entries.length
  append_counts e w s w' h := by
    replace h : append e w = (.ok s, w') := h
    unfold append at h
    split_ifs at h with hb
    · obtain ⟨hs, rfl⟩ := Prod.mk.inj h
      rw [← Except.ok.inj hs]
      exact ⟨rfl, by rw [List.length_append, List.length_singleton]⟩
    · cases (Prod.mk.inj h).1

@[simp] theorem toEntries_new : toEntries MemLog.new = [] := rfl

end MemLog
end Rango
