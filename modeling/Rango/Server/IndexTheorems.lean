import Mathlib.Data.List.Pairwise
import Rango.Lib.Runs
import Rango.Server.AppendTheorems

/-!
# The indexes of the server

The server keeps two indexes over its log and rebuilds them when it starts. `Reflects` says what
indexes of a list of entries hold, and determines them; indexing the next entry keeps it
(`Reflects.append`). So the indexes that a run maintains and those that a restart builds are the
same (`run_indexed`), and a client that sends a mutation again gets its number again.
-/

namespace Rango

/-- Entries of the audit collection are not indexed, all others are. -/
def OplogEntry.Indexable (e : OplogEntry) : Prop := e.mutation.collection ≠ auditCollection

namespace ServerState

section
variable {ω η : Type}

/-! ## What the indexes hold -/

/-- The indexes of the state are those of a list of entries. -/
structure Reflects (st : ServerState ω η) (es : List OplogEntry) : Prop where
  latest_mem : ∀ scope s, st.scopedLatest scope = some s →
    ∃ e ∈ es, e.Indexable ∧ scopeOf e.mutation = scope ∧ e.seq = s
  latest_le : ∀ e ∈ es, e.Indexable →
    ∃ s, st.scopedLatest (scopeOf e.mutation) = some s ∧ e.seq ≤ s
  writeIds : ∀ key s, st.scopedWriteIds key = some s ↔
    ∃ e ∈ es, e.Indexable ∧ writeKey e.mutation = key ∧ e.seq = s

/-- No two indexed entries have one key. -/
def KeysUnique (es : List OplogEntry) : Prop :=
  es.Pairwise fun a b => a.Indexable → b.Indexable → writeKey a.mutation ≠ writeKey b.mutation

variable {st st' : ServerState ω η} {es : List OplogEntry}

lemma Reflects.congr (h : st.Reflects es) (hlatest : st'.scopedLatest = st.scopedLatest)
    (hwriteIds : st'.scopedWriteIds = st.scopedWriteIds) : st'.Reflects es where
  latest_mem := by rw [hlatest]; exact h.latest_mem
  latest_le := by rw [hlatest]; exact h.latest_le
  writeIds := by rw [hwriteIds]; exact h.writeIds

lemma reflects_unindexed (oplog : ω) (hooks : η) (tick : ℕ) :
    (unindexed oplog hooks tick).Reflects [] where
  latest_mem _ _ h := nomatch h
  latest_le _ h := nomatch h
  writeIds key s := by simp [unindexed]

/-- A scope has a latest number when it has an entry. -/
lemma Reflects.latest_eq_none (h : st.Reflects es) (scope : String × String) :
    st.scopedLatest scope = none ↔
      ∀ e ∈ es, e.Indexable → scopeOf e.mutation ≠ scope := by
  constructor
  · intro hnone e he hindexable hscope
    obtain ⟨s, hs, -⟩ := h.latest_le e he hindexable
    rw [hscope, hnone] at hs
    cases hs
  · intro hno
    cases hs : st.scopedLatest scope with
    | none => rfl
    | some s =>
      obtain ⟨e, he, hindexable, hscope, -⟩ := h.latest_mem scope s hs
      exact absurd hscope (hno e he hindexable)

/-- A checkpoint covers a scope when it covers its entries. -/
lemma Reflects.scopedLatestCheckpoint_le_iff (h : st.Reflects es) (tenantId nameSpace : String)
    (s : ℕ) : st.scopedLatestCheckpoint tenantId nameSpace ≤ s ↔
      ∀ e ∈ es, e.Indexable → scopeOf e.mutation = (tenantId, nameSpace) → e.seq ≤ s := by
  rw [scopedLatestCheckpoint_eq, scopedLatestSeq]
  constructor
  · intro hle e he hindexable hscope
    obtain ⟨latest, hlatest, hseq⟩ := h.latest_le e he hindexable
    rw [hscope] at hlatest
    rw [hlatest] at hle
    exact hseq.trans hle
  · intro hcovers
    cases hlatest : st.scopedLatest (tenantId, nameSpace) with
    | none => exact Nat.zero_le s
    | some latest =>
      obtain ⟨e, he, hindexable, hscope, rfl⟩ := h.latest_mem _ latest hlatest
      exact hcovers e he hindexable hscope

/-- A key is unknown when no entry has it. -/
lemma Reflects.writeIds_eq_none (h : st.Reflects es) (key : String × String × String) :
    st.scopedWriteIds key = none ↔ ∀ e ∈ es, e.Indexable → writeKey e.mutation ≠ key := by
  rw [Option.eq_none_iff_forall_not_mem]
  constructor
  · intro hnone e he hindexable hkey
    exact hnone e.seq ((h.writeIds key e.seq).mpr ⟨e, he, hindexable, hkey, rfl⟩)
  · intro hno s hs
    obtain ⟨e, he, hindexable, hkey, -⟩ := (h.writeIds key s).mp hs
    exact hno e he hindexable hkey

/-- **The entries determine the indexes.** -/
theorem Reflects.unique (h : st.Reflects es) (h' : st'.Reflects es) :
    st.scopedLatest = st'.scopedLatest ∧ st.scopedWriteIds = st'.scopedWriteIds := by
  constructor
  · funext scope
    cases hs : st.scopedLatest scope with
    | none =>
      rw [h.latest_eq_none] at hs
      exact ((h'.latest_eq_none scope).mpr hs).symm
    | some s =>
      obtain ⟨e, he, hindexable, hscope, hseq⟩ := h.latest_mem scope s hs
      obtain ⟨s', hs', hle⟩ := h'.latest_le e he hindexable
      obtain ⟨e', he', hindexable', hscope', hseq'⟩ := h'.latest_mem _ _ hs'
      obtain ⟨s'', hs'', hle'⟩ := h.latest_le e' he' hindexable'
      rw [hscope', hscope, hs] at hs''
      rw [hscope] at hs'
      have hsame : s = s'' := Option.some.inj hs''
      have heq : s = s' := by omega
      rw [hs', heq]
  · funext key
    refine Option.ext fun s => ?_
    show st.scopedWriteIds key = some s ↔ st'.scopedWriteIds key = some s
    rw [h.writeIds, h'.writeIds]

/-- Indexing an entry with the greatest number so far sets the latest number of its scope and the
number of its key. -/
lemma Reflects.indexMutation_eq (h : st.Reflects es) {e : OplogEntry}
    (hlast : ∀ x ∈ es, x.seq < e.seq) (hindexable : e.Indexable) :
    (st.indexMutation e.seq e.mutation).scopedLatest =
        Function.update st.scopedLatest (scopeOf e.mutation) (some e.seq) ∧
      (st.indexMutation e.seq e.mutation).scopedWriteIds =
        Function.update st.scopedWriteIds (writeKey e.mutation) (some e.seq) := by
  have hmax : ((st.scopedLatest (scopeOf e.mutation)).map
      fun current => max current e.seq).getD e.seq = e.seq := by
    cases hs : st.scopedLatest (scopeOf e.mutation) with
    | none => rfl
    | some s =>
      obtain ⟨x, hx, -, -, hseq⟩ := h.latest_mem _ s hs
      have hlt := hlast x hx
      show max s e.seq = e.seq
      omega
  rw [indexMutation, if_neg hindexable]
  exact ⟨congrArg (fun n => Function.update st.scopedLatest (scopeOf e.mutation) (some n)) hmax,
    rfl⟩

lemma mem_append_singleton {x e : OplogEntry} : x ∈ es ++ [e] ↔ x ∈ es ∨ x = e := by
  rw [List.mem_append, List.mem_singleton]

/-- An audit record at the end of the list leaves the indexes. -/
lemma Reflects.append_audit (h : st.Reflects es) {e : OplogEntry} (haudit : ¬ e.Indexable) :
    st.Reflects (es ++ [e]) := by
  have hold : ∀ {x}, x ∈ es ++ [e] → x.Indexable → x ∈ es := by
    intro x hx hix
    rcases mem_append_singleton.mp hx with hx | rfl
    · exact hx
    · exact absurd hix haudit
  refine ⟨fun scope s hs => ?_, fun x hx hix => h.latest_le x (hold hx hix) hix, fun key s => ?_⟩
  · obtain ⟨x, hx, hrest⟩ := h.latest_mem scope s hs
    exact ⟨x, mem_append_singleton.mpr (.inl hx), hrest⟩
  · rw [h.writeIds]
    constructor
    · rintro ⟨x, hx, hrest⟩
      exact ⟨x, mem_append_singleton.mpr (.inl hx), hrest⟩
    · rintro ⟨x, hx, hix, hrest⟩
      exact ⟨x, hold hx hix, hix, hrest⟩

/-- An indexed entry at the end of the list: the greatest number of its scope, and the only one of
its key. -/
lemma Reflects.append_indexable (h : st.Reflects es) {e : OplogEntry}
    (hlast : ∀ x ∈ es, x.seq < e.seq) (hindexable : e.Indexable)
    (hnew : st.scopedWriteIds (writeKey e.mutation) = none)
    (hlatest : st'.scopedLatest =
      Function.update st.scopedLatest (scopeOf e.mutation) (some e.seq))
    (hwriteIds : st'.scopedWriteIds =
      Function.update st.scopedWriteIds (writeKey e.mutation) (some e.seq)) :
    st'.Reflects (es ++ [e]) := by
  refine ⟨fun scope s hs => ?_, fun x hx hix => ?_, fun key s => ?_⟩
  · rw [hlatest] at hs
    by_cases hscope : scope = scopeOf e.mutation
    · rw [hscope, Function.update_self] at hs
      exact ⟨e, mem_append_singleton.mpr (.inr rfl), hindexable, hscope.symm, Option.some.inj hs⟩
    · rw [Function.update_of_ne hscope] at hs
      obtain ⟨x, hx, hrest⟩ := h.latest_mem scope s hs
      exact ⟨x, mem_append_singleton.mpr (.inl hx), hrest⟩
  · rw [hlatest]
    rcases mem_append_singleton.mp hx with hx | rfl
    · by_cases hscope : scopeOf x.mutation = scopeOf e.mutation
      · rw [hscope, Function.update_self]
        exact ⟨e.seq, rfl, (hlast x hx).le⟩
      · rw [Function.update_of_ne hscope]
        exact h.latest_le x hx hix
    · rw [Function.update_self]
      exact ⟨x.seq, rfl, le_rfl⟩
  · rw [hwriteIds]
    have hno := (h.writeIds_eq_none _).mp hnew
    by_cases hkey : key = writeKey e.mutation
    · -- no entry before it has its key
      subst hkey
      rw [Function.update_self]
      constructor
      · intro hs
        exact ⟨e, mem_append_singleton.mpr (.inr rfl), hindexable, rfl, Option.some.inj hs⟩
      · rintro ⟨x, hx, hix, hxkey, rfl⟩
        rcases mem_append_singleton.mp hx with hx | rfl
        · exact absurd hxkey (hno x hx hix)
        · rfl
    · -- it adds nothing under another key
      rw [Function.update_of_ne hkey, h.writeIds]
      constructor
      · rintro ⟨x, hx, hrest⟩
        exact ⟨x, mem_append_singleton.mpr (.inl hx), hrest⟩
      · rintro ⟨x, hx, hix, hxkey, hseq⟩
        rcases mem_append_singleton.mp hx with hx | rfl
        · exact ⟨x, hx, hix, hxkey, hseq⟩
        · exact absurd hxkey.symm hkey

/-- **Indexing the next entry.** Its number is greater than all before, and its key new. -/
theorem Reflects.append (h : st.Reflects es) {e : OplogEntry} (hlast : ∀ x ∈ es, x.seq < e.seq)
    (hnew : e.Indexable → st.scopedWriteIds (writeKey e.mutation) = none) :
    (st.indexMutation e.seq e.mutation).Reflects (es ++ [e]) := by
  by_cases hindexable : e.Indexable
  · obtain ⟨hlatest, hwriteIds⟩ := h.indexMutation_eq hlast hindexable
    exact h.append_indexable hlast hindexable (hnew hindexable) hlatest hwriteIds
  · rw [indexMutation_audit _ _ (not_not.mp hindexable)]
    exact h.append_audit hindexable

/-- Keys stay unique when an entry with a new key is appended. -/
lemma KeysUnique.append (h : KeysUnique es) (hst : st.Reflects es) {e : OplogEntry}
    (hnew : e.Indexable → st.scopedWriteIds (writeKey e.mutation) = none) :
    KeysUnique (es ++ [e]) := by
  refine List.pairwise_append.mpr ⟨h, List.pairwise_singleton _ _, ?_⟩
  intro x hx y hy hix hiy
  rw [List.mem_singleton.mp hy] at hiy ⊢
  exact (hst.writeIds_eq_none _).mp (hnew hiy) x hx hix

/-- Of two indexed entries with one key there is only one. -/
lemma KeysUnique.eq (h : KeysUnique es) {e e' : OplogEntry} (he : e ∈ es)
    (he' : e' ∈ es) (hix : e.Indexable) (hix' : e'.Indexable)
    (hkey : writeKey e.mutation = writeKey e'.mutation) : e = e' := by
  by_contra hne
  have hsymm : Std.Symm fun a b : OplogEntry =>
      a.Indexable → b.Indexable → writeKey a.mutation ≠ writeKey b.mutation :=
    ⟨fun _ _ hab hb ha heq => hab ha hb heq.symm⟩
  exact List.Pairwise.forall h he he' hne hix hix' hkey

/-- Indexing a list of entries with increasing numbers and unique keys. -/
lemma Reflects.foldl (h : st.Reflects es) {added : List OplogEntry}
    (hinc : (es ++ added).Pairwise fun a b => a.seq < b.seq) (hkeys : KeysUnique (es ++ added)) :
    (added.foldl (fun st e => st.indexMutation e.seq e.mutation) st).Reflects (es ++ added) := by
  induction added generalizing st es with
  | nil => rwa [List.append_nil]
  | cons e rest ih =>
    have hsplit : es ++ e :: rest = (es ++ [e]) ++ rest := by
      rw [List.append_assoc, List.singleton_append]
    have hfirst := h.append (e := e)
      (fun x hx => (List.pairwise_append.mp hinc).2.2 x hx e List.mem_cons_self) fun hie => by
        rw [h.writeIds_eq_none]
        intro x hx hix
        exact (List.pairwise_append.mp hkeys).2.2 x hx e List.mem_cons_self hix hie
    rw [hsplit] at hinc hkeys ⊢
    exact ih hfirst hinc hkeys

end
/-! ## Indexed states -/

section
variable {ω η : Type} [LogOplog ω] {st st' : ServerState ω η}

/-- The state's indexes are those of its log, in which every key occurs once. -/
structure Indexed (st : ServerState ω η) : Prop where
  reflects : st.Reflects (toEntries st.oplog)
  keys : KeysUnique (toEntries st.oplog)

lemma Indexed.sameLog (h : st.Indexed) (hsame : SameLog st st') : st'.Indexed where
  reflects := by
    rw [hsame.entries]
    exact h.reflects.congr hsame.latest hsame.writeIds
  keys := by
    rw [hsame.entries]
    exact h.keys

lemma Indexed.appends (h : st.Indexed) {e : OplogEntry} (happ : Appends st st' e) :
    st'.Indexed := by
  have hinc := LogOplog.increasing st'.oplog
  rw [happ.entries] at hinc
  have hlast : ∀ x ∈ toEntries st.oplog, x.seq < e.seq := fun x hx =>
    (List.pairwise_append.mp hinc).2.2 x hx e (List.mem_singleton_self e)
  refine ⟨?_, ?_⟩
  · rw [happ.entries]
    exact (h.reflects.append hlast happ.new).congr happ.latest happ.writeIds
  · rw [happ.entries]
    exact h.keys.append h.reflects happ.new

/-- The pieces of a request keep the indexes right. -/
lemma Indexed.grows {P : Mutation → Prop} (h : st.Indexed) (hgrows : Grows P st st') :
    st'.Indexed := by
  induction hgrows with
  | same hsame => exact h.sameLog hsame
  | append e _ happ => exact h.appends happ
  | trans _ _ ih ih' => exact ih' (ih h)

/-- The checkpoint of a scope is the greatest number among its indexed entries, and zero when it
has none. -/
theorem Indexed.scopedLatestCheckpoint (h : st.Indexed) (tenantId nameSpace : String) :
    (∀ e ∈ toEntries st.oplog, e.Indexable → scopeOf e.mutation = (tenantId, nameSpace) →
      e.seq ≤ st.scopedLatestCheckpoint tenantId nameSpace) ∧
    ((∃ e ∈ toEntries st.oplog, e.Indexable ∧ scopeOf e.mutation = (tenantId, nameSpace) ∧
        e.seq = st.scopedLatestCheckpoint tenantId nameSpace) ∨
      (∀ e ∈ toEntries st.oplog, e.Indexable → scopeOf e.mutation ≠ (tenantId, nameSpace)) ∧
        st.scopedLatestCheckpoint tenantId nameSpace = 0) := by
  rw [scopedLatestCheckpoint_eq, scopedLatestSeq]
  cases hs : st.scopedLatest (tenantId, nameSpace) with
  | none =>
    have hno := (h.reflects.latest_eq_none _).mp hs
    exact ⟨fun e he hix hscope => absurd hscope (hno e he hix), .inr ⟨hno, rfl⟩⟩
  | some s =>
    obtain ⟨e, he, hix, hscope, hseq⟩ := h.reflects.latest_mem _ s hs
    refine ⟨fun x hx hixx hscopex => ?_, .inl ⟨e, he, hix, hscope, hseq⟩⟩
    obtain ⟨s', hs', hle⟩ := h.reflects.latest_le x hx hixx
    rw [hscopex, hs] at hs'
    show x.seq ≤ s
    rw [Option.some.inj hs']
    exact hle

end

/-! ## Restarts -/

section
variable {ω η : Type} [ReadableOplog ω]

/-- Strictly increasing numbers up to `n` are at most `n` many. -/
lemma length_le_of_increasing {es : List OplogEntry} {a n : ℕ}
    (hinc : es.Pairwise fun a b => a.seq < b.seq) (hrange : ∀ e ∈ es, a < e.seq ∧ e.seq ≤ n) :
    es.length ≤ n - a := by
  induction es generalizing a with
  | nil => exact Nat.zero_le _
  | cons e rest ih =>
    obtain ⟨hfirst, hrest⟩ := List.pairwise_cons.mp hinc
    have he := hrange e List.mem_cons_self
    have hlen := ih hrest fun x hx =>
      ⟨hfirst x hx, (hrange x (List.mem_cons_of_mem _ hx)).2⟩
    rw [List.length_cons]
    omega

/-- The read of a restart returns the whole log. -/
lemma entriesSince_all {w : ω} {n : ℕ} (hlatest : Oplog.latestSeq w = .ok n) :
    entriesSince (toEntries w) 1 (n + 1) = toEntries w := by
  have hrange : ∀ e ∈ toEntries w, 0 < e.seq ∧ e.seq ≤ n := fun e he =>
    ⟨(LogOplog.seq_range w e he).1, LogOplog.latestSeq_ok w n hlatest e he⟩
  have hlen := length_le_of_increasing (LogOplog.increasing w) hrange
  rw [entriesSince, List.filter_eq_self.mpr, List.take_of_length_le]
  · omega
  · intro e he
    exact decide_eq_true (hrange e he).1

/-- **A restart indexes the log.** -/
theorem withControlPlane_indexed {w : ω} (hkeys : KeysUnique (toEntries w)) (hooks : η)
    (tick : ℕ) : (withControlPlane w hooks tick).Indexed := by
  suffices hreflects : (withControlPlane w hooks tick).Reflects (toEntries w) by
    refine ⟨?_, ?_⟩
    · rw [withControlPlane_oplog]
      exact hreflects
    · rw [withControlPlane_oplog]
      exact hkeys
  have hstart := reflects_unindexed w hooks tick
  obtain ⟨n, hlatest⟩ := ReadableOplog.latestSeq_total w
  obtain ⟨es, hread⟩ := ReadableOplog.readSince_total w 1 (n + 1) (Nat.succ_pos n)
  have hes := LogOplog.readSince_ok _ _ _ _ (Nat.succ_pos n) hread
  rw [entriesSince_all hlatest] at hes
  simp only [withControlPlane, hlatest]
  split_ifs with hzero
  · -- numbers start at one, so a log without a latest number is empty
    have hempty : toEntries w = [] := by
      refine List.eq_nil_iff_forall_not_mem.mpr fun e he => ?_
      have hpos := (LogOplog.seq_range w e he).1
      have hle := LogOplog.latestSeq_ok w n hlatest e he
      omega
    rw [hempty]
    exact hstart
  · rw [hread, hes]
    exact hstart.foldl (LogOplog.increasing w) hkeys

variable [Formatting] [Surroundings] [Arithmetic] (cp : ControlPlane η)

lemma step_indexed {st : ServerState ω η} (h : st.Indexed) (ev : ServerEvent η) :
    (st.step cp ev).Indexed := by
  by_cases hev : ∃ hooks, ev = .restart hooks
  · obtain ⟨hooks, rfl⟩ := hev
    exact withControlPlane_indexed h.keys hooks st.tick
  · exact h.grows (step_grows (P := fun _ => True) cp (fun _ _ _ _ _ _ _ _ => trivial)
      (fun _ _ => trivial) (fun hooks heq => hev ⟨hooks, heq⟩) st)

/-- Every run of a server on a log without duplicates keeps the indexes right. -/
theorem run_indexed_of_unique {w : ω} (hkeys : KeysUnique (toEntries w)) (hooks : η) (tick : ℕ)
    (events : List (ServerEvent η)) : ((withControlPlane w hooks tick).run cp events).Indexed := by
  have hstep : ∀ (st : ServerState ω η) (ev : ServerEvent η), st.Indexed →
      (st.step cp ev).Indexed := fun st ev h => step_indexed cp h ev
  exact Runs.invariant hstep events (withControlPlane_indexed hkeys hooks tick)

/-- Every run of a server on an empty log keeps the indexes right. -/
theorem run_indexed {w : ω} (hempty : toEntries w = []) (hooks : η) (tick : ℕ)
    (events : List (ServerEvent η)) : ((withControlPlane w hooks tick).run cp events).Indexed := by
  refine run_indexed_of_unique cp ?_ hooks tick events
  rw [hempty]
  exact List.Pairwise.nil

end
end ServerState
end Rango
