import Mathlib.Data.Set.Insert
import Rango.Server.RequestPoolTheorems

/-!
# Indexes under concurrent requests

A request appends an entry under one lock and indexes it under two others, so the indexes lag
behind the log. `Covers` is a list of entries with indexes that lack some of them, and `Lags` that
the entries they lack are those that some request has still to index. So the indexes name entries
of the log at any time (`concurrent_indexes_sound`), and when all requests are done they are those
that a restart builds (`quiescent_indexes`), up to the choice among entries with one key.
-/

namespace Rango

open Interleaving

/-- The entry that a request has stored and not yet indexed. -/
def PushPhase.entry : PushPhase → Option (ℕ × Mutation)
  | .idle | .missed _ => none
  | .stored seq m | .half seq m => some (seq, m)

namespace ServerState

/-! ## Indexes that lag behind -/

section
variable {ω η : Type} {st st' : ServerState ω η} {es : List OplogEntry} {L W : Set OplogEntry}

/-- The indexes of the state are those of a list of entries, of which the latest numbers may lack
those in `L` and the write ids those in `W`. -/
structure Covers (st : ServerState ω η) (es : List OplogEntry) (L W : Set OplogEntry) : Prop where
  latest_mem : ∀ scope s, st.scopedLatest scope = some s →
    ∃ e ∈ es, e.Indexable ∧ scopeOf e.mutation = scope ∧ e.seq = s
  latest_le : ∀ e ∈ es, e.Indexable → e ∉ L →
    ∃ s, st.scopedLatest (scopeOf e.mutation) = some s ∧ e.seq ≤ s
  writeIds_mem : ∀ key s, st.scopedWriteIds key = some s →
    ∃ e ∈ es, e.Indexable ∧ writeKey e.mutation = key ∧ e.seq = s
  writeIds_some : ∀ e ∈ es, e.Indexable → e ∉ W → st.scopedWriteIds (writeKey e.mutation) ≠ none

namespace Covers

lemma congr (h : st.Covers es L W) (hlatest : st'.scopedLatest = st.scopedLatest)
    (hwriteIds : st'.scopedWriteIds = st.scopedWriteIds) : st'.Covers es L W where
  latest_mem := by rw [hlatest]; exact h.latest_mem
  latest_le := by rw [hlatest]; exact h.latest_le
  writeIds_mem := by rw [hwriteIds]; exact h.writeIds_mem
  writeIds_some := by rw [hwriteIds]; exact h.writeIds_some

lemma mono (h : st.Covers es L W) {L' W' : Set OplogEntry} (hL : L ⊆ L') (hW : W ⊆ W') :
    st.Covers es L' W' where
  latest_mem := h.latest_mem
  latest_le e he hix hlate := h.latest_le e he hix fun hmem => hlate (hL hmem)
  writeIds_mem := h.writeIds_mem
  writeIds_some e he hix hlate := h.writeIds_some e he hix fun hmem => hlate (hW hmem)

/-- One more entry, which is not indexed yet. -/
lemma append (h : st.Covers es L W) (e : OplogEntry) (hL : e.Indexable → e ∈ L)
    (hW : e.Indexable → e ∈ W) : st.Covers (es ++ [e]) L W := by
  refine ⟨fun scope s hs => ?_, fun x hx hix hlate => ?_, fun key s hs => ?_,
    fun x hx hix hlate => ?_⟩
  · obtain ⟨x, hx, hrest⟩ := h.latest_mem scope s hs
    exact ⟨x, List.mem_append_left _ hx, hrest⟩
  · rcases mem_append_singleton.mp hx with hx | rfl
    · exact h.latest_le x hx hix hlate
    · exact absurd (hL hix) hlate
  · obtain ⟨x, hx, hrest⟩ := h.writeIds_mem key s hs
    exact ⟨x, List.mem_append_left _ hx, hrest⟩
  · rcases mem_append_singleton.mp hx with hx | rfl
    · exact h.writeIds_some x hx hix hlate
    · exact absurd (hW hix) hlate

/-- The latest number of an entry's scope takes the entry in. -/
lemma indexLatest (h : st.Covers es L W) {e : OplogEntry} (he : e ∈ es) (hix : e.Indexable) :
    (st.indexLatest e.seq e.mutation).Covers es
      {x ∈ L | ¬ (x.seq = e.seq ∧ x.mutation = e.mutation)} W := by
  let scope := scopeOf e.mutation
  let n := ((st.scopedLatest scope).map fun current => max current e.seq).getD e.seq
  have hlatest : (st.indexLatest e.seq e.mutation).scopedLatest =
      Function.update st.scopedLatest scope (some n) := rfl
  have hle : e.seq ≤ n ∧ ∀ s, st.scopedLatest scope = some s → s ≤ n := by
    show e.seq ≤ ((st.scopedLatest scope).map _).getD _ ∧ _
    cases hs : st.scopedLatest scope with
    | none => simp [n, hs]
    | some s => simp [n, hs]
  refine ⟨fun scope' s hs => ?_, fun x hx hixx hlate => ?_, h.writeIds_mem, h.writeIds_some⟩
  · rw [hlatest] at hs
    by_cases hscope : scope' = scope
    · subst hscope
      rw [Function.update_self] at hs
      obtain rfl := Option.some.inj hs
      -- the greatest number is the entry's own or the one from before
      cases hold : st.scopedLatest scope with
      | none => exact ⟨e, he, hix, rfl, by simp [n, hold]⟩
      | some s =>
        rcases le_total s e.seq with hse | hse
        · exact ⟨e, he, hix, rfl, by simp [n, hold, hse]⟩
        · obtain ⟨x, hx, hixx, hscopex, hseq⟩ := h.latest_mem scope s hold
          exact ⟨x, hx, hixx, hscopex, by simp [n, hold, hse, hseq]⟩
    · rw [Function.update_of_ne hscope] at hs
      exact h.latest_mem scope' s hs
  · rw [hlatest]
    by_cases hscope : scopeOf x.mutation = scope
    · rw [hscope, Function.update_self]
      refine ⟨n, rfl, ?_⟩
      by_cases hsame : x.seq = e.seq ∧ x.mutation = e.mutation
      · rw [hsame.1]
        exact hle.1
      · obtain ⟨s, hs, hxs⟩ := h.latest_le x hx hixx fun hL => hlate ⟨hL, hsame⟩
        rw [hscope] at hs
        exact hxs.trans (hle.2 s hs)
    · rw [Function.update_of_ne hscope]
      refine h.latest_le x hx hixx fun hL => hlate ⟨hL, fun hsame => hscope ?_⟩
      rw [hsame.2]

/-- The write ids take the entry in. -/
lemma indexWriteId (h : st.Covers es L W) {e : OplogEntry} (he : e ∈ es) (hix : e.Indexable) :
    (st.indexWriteId e.seq e.mutation).Covers es L
      {x ∈ W | ¬ (x.seq = e.seq ∧ x.mutation = e.mutation)} := by
  have hwriteIds : (st.indexWriteId e.seq e.mutation).scopedWriteIds =
      Function.update st.scopedWriteIds (writeKey e.mutation) (some e.seq) := rfl
  refine ⟨h.latest_mem, h.latest_le, fun key s hs => ?_, fun x hx hixx hlate => ?_⟩
  · rw [hwriteIds] at hs
    by_cases hkey : key = writeKey e.mutation
    · subst hkey
      rw [Function.update_self] at hs
      exact ⟨e, he, hix, rfl, Option.some.inj hs⟩
    · rw [Function.update_of_ne hkey] at hs
      exact h.writeIds_mem key s hs
  · rw [hwriteIds]
    by_cases hkey : writeKey x.mutation = writeKey e.mutation
    · rw [hkey, Function.update_self]
      exact Option.some_ne_none _
    · rw [Function.update_of_ne hkey]
      refine h.writeIds_some x hx hixx fun hW => hlate ⟨hW, fun hsame => hkey ?_⟩
      rw [hsame.2]

end Covers

/-- The indexes lack nothing. -/
abbrev Complete (st : ServerState ω η) (es : List OplogEntry) : Prop := st.Covers es ∅ ∅

namespace Complete

/-- Indexing the next entry. -/
lemma append (h : st.Complete es) (e : OplogEntry) :
    (st.indexMutation e.seq e.mutation).Complete (es ++ [e]) := by
  by_cases hix : e.Indexable
  · have hlate : st.Covers (es ++ [e]) {e} {e} :=
      (h.mono (Set.empty_subset _) (Set.empty_subset _)).append e (fun _ => rfl) fun _ => rfl
    have hmem : e ∈ es ++ [e] := List.mem_append_right _ List.mem_cons_self
    rw [indexMutation, if_neg hix]
    refine ((hlate.indexLatest hmem hix).indexWriteId hmem hix).mono ?_ ?_
    · rintro x ⟨rfl, hne⟩
      exact hne ⟨rfl, rfl⟩
    · rintro x ⟨rfl, hne⟩
      exact hne ⟨rfl, rfl⟩
  · rw [indexMutation_audit _ _ (not_not.mp hix)]
    exact Covers.append h e (fun hix' => absurd hix' hix) fun hix' => absurd hix' hix

lemma foldl (h : st.Complete es) (added : List OplogEntry) :
    (added.foldl (fun st e => st.indexMutation e.seq e.mutation) st).Complete (es ++ added) := by
  induction added generalizing st es with
  | nil => rwa [List.append_nil]
  | cons e rest ih =>
    have hsplit : es ++ e :: rest = (es ++ [e]) ++ rest := by
      rw [List.append_assoc, List.singleton_append]
    rw [hsplit]
    exact ih (h.append e)

lemma latest_eq_some (h : st.Complete es) {scope : String × String} {s : ℕ}
    (hs : st.scopedLatest scope = some s) (h' : st'.Complete es) :
    ∃ s', st'.scopedLatest scope = some s' ∧ s ≤ s' := by
  obtain ⟨e, he, hix, rfl, rfl⟩ := h.latest_mem scope s hs
  exact h'.latest_le e he hix (Set.notMem_empty e)

/-- The entries determine the latest numbers. -/
lemma latest_unique (h : st.Complete es) (h' : st'.Complete es) :
    st.scopedLatest = st'.scopedLatest := by
  funext scope
  cases hs : st.scopedLatest scope with
  | none =>
    cases hs' : st'.scopedLatest scope with
    | none => rfl
    | some s' =>
      obtain ⟨s, hsome, -⟩ := h'.latest_eq_some hs' h
      rw [hs] at hsome
      cases hsome
  | some s =>
    obtain ⟨s', hs', hle⟩ := h.latest_eq_some hs h'
    obtain ⟨s'', hs'', hle'⟩ := h'.latest_eq_some hs' h
    rw [hs] at hs''
    obtain rfl := Option.some.inj hs''
    rw [hs', hle.antisymm hle']

lemma writeIds_ne_none (h : st.Complete es) {key : String × String × String} {s : ℕ}
    (hs : st.scopedWriteIds key = some s) (h' : st'.Complete es) :
    st'.scopedWriteIds key ≠ none := by
  obtain ⟨e, he, hix, rfl, -⟩ := h.writeIds_mem key s hs
  exact h'.writeIds_some e he hix (Set.notMem_empty e)

/-- The entries determine which write ids are known. -/
lemma writeIds_none_iff (h : st.Complete es) (h' : st'.Complete es)
    (key : String × String × String) :
    st.scopedWriteIds key = none ↔ st'.scopedWriteIds key = none := by
  constructor
  · intro hnone
    cases hs : st'.scopedWriteIds key with
    | none => rfl
    | some s => exact absurd hnone (h'.writeIds_ne_none hs h)
  · intro hnone
    cases hs : st.scopedWriteIds key with
    | none => rfl
    | some s => exact absurd hnone (h.writeIds_ne_none hs h')

/-- Where no two have one key, they determine the numbers of the write ids. -/
lemma writeIds_unique (h : st.Complete es) (h' : st'.Complete es) (hkeys : KeysUnique es) :
    st.scopedWriteIds = st'.scopedWriteIds := by
  funext key
  cases hs : st.scopedWriteIds key with
  | none => exact ((h.writeIds_none_iff h' key).mp hs).symm
  | some s =>
    obtain ⟨s', hs'⟩ := Option.ne_none_iff_exists'.mp (h.writeIds_ne_none hs h')
    obtain ⟨e, he, hix, hkey, hseq⟩ := h.writeIds_mem key s hs
    obtain ⟨e', he', hix', hkey', hseq'⟩ := h'.writeIds_mem key s' hs'
    have hsame := hkeys.eq he he' hix hix' (hkey.trans hkey'.symm)
    rw [hs', ← hseq, ← hseq', hsame]

end Complete
end

/-! ## Restarts -/

section
variable {ω η : Type} [ReadableOplog ω]

/-- **A restart indexes the log**, whichever keys its entries have. -/
theorem withControlPlane_complete (w : ω) (hooks : η) (tick : ℕ) :
    (withControlPlane w hooks tick).Complete (toEntries w) := by
  have hstart : (unindexed w hooks tick).Complete [] := by
    refine ⟨fun _ _ hs => ?_, fun e he => absurd he List.not_mem_nil, fun _ _ hs => ?_,
      fun e he => absurd he List.not_mem_nil⟩
    · cases hs
    · cases hs
  obtain ⟨n, hlatest⟩ := ReadableOplog.latestSeq_total w
  obtain ⟨es, hread⟩ := ReadableOplog.readSince_total w 1 (n + 1) (Nat.succ_pos n)
  have hes := LogOplog.readSince_ok _ _ _ _ (Nat.succ_pos n) hread
  rw [entriesSince_all hlatest] at hes
  simp only [withControlPlane, hlatest]
  split_ifs with hzero
  · -- numbers start at one, so a log without a latest number is empty
    have hempty : toEntries w = [] := by
      refine List.eq_nil_iff_forall_not_mem.mpr fun e he => ?_
      have hpos := (LogOplog.seq_range w e he).1
      have hle := LogOplog.latestSeq_ok w n hlatest e he
      omega
    rw [hempty]
    exact hstart
  · rw [hread, hes]
    exact hstart.foldl (toEntries w)

end

/-! ## Requests that have still to index -/

section
variable {ω η ι : Type} [LogOplog ω]

/-- The entries that some request has still to index for their scope. -/
def lateLatest (φs : ι → Conduct) : Set OplogEntry :=
  {e | ∃ i, (φs i).store = .stored e.seq e.mutation}

/-- The entries whose write id some request has still to index. -/
def lateWriteIds (φs : ι → Conduct) : Set OplogEntry :=
  {e | ∃ i, (φs i).store.entry = some (e.seq, e.mutation)}

/-- The indexes lack no entries but those that some request has still to index, and those are in
the log. -/
structure Lags (st : ServerState ω η) (φs : ι → Conduct) : Prop where
  covers : st.Covers (toEntries st.oplog) (lateLatest φs) (lateWriteIds φs)
  pending : ∀ i seq m, (φs i).store.entry = some (seq, m) →
    ∃ e ∈ toEntries st.oplog, e.Indexable ∧ e.seq = seq ∧ e.mutation = m

variable {st st' : ServerState ω η} {φs : ι → Conduct} [DecidableEq ι] {i : ι} {ψ : Conduct}

/-- The indexes lack no more when a request goes on that has nothing to index. -/
lemma Lags.covers_update (h : Lags st φs) (hi : (φs i).store.entry = none)
    (hlatest : st'.scopedLatest = st.scopedLatest)
    (hwriteIds : st'.scopedWriteIds = st.scopedWriteIds) :
    st'.Covers (toEntries st.oplog) (lateLatest (Function.update φs i ψ))
      (lateWriteIds (Function.update φs i ψ)) := by
  refine (h.covers.congr hlatest hwriteIds).mono ?_ ?_
  · rintro e ⟨j, hj⟩
    have hji : j ≠ i := by
      rintro rfl
      rw [hj] at hi
      cases hi
    exact ⟨j, by rw [Function.update_of_ne hji, hj]⟩
  · rintro e ⟨j, hj⟩
    have hji : j ≠ i := by
      rintro rfl
      rw [hj] at hi
      cases hi
    exact ⟨j, by rw [Function.update_of_ne hji, hj]⟩

/-- What is pending of the other requests. -/
lemma Lags.pending_update (h : Lags st φs)
    (hmono : ∀ e ∈ toEntries st.oplog, e ∈ toEntries st'.oplog)
    (hψ : ∀ seq m, ψ.store.entry = some (seq, m) →
      ∃ e ∈ toEntries st'.oplog, e.Indexable ∧ e.seq = seq ∧ e.mutation = m) :
    ∀ j seq m, (Function.update φs i ψ j).store.entry = some (seq, m) →
      ∃ e ∈ toEntries st'.oplog, e.Indexable ∧ e.seq = seq ∧ e.mutation = m := by
  intro j seq m hj
  by_cases hji : j = i
  · rw [hji, Function.update_self] at hj
    exact hψ seq m hj
  · rw [Function.update_of_ne hji] at hj
    obtain ⟨e, he, hrest⟩ := h.pending j seq m hj
    exact ⟨e, hmono e he, hrest⟩

/-- A step that stores nothing to index and indexes nothing. -/
lemma Lags.skip (h : Lags st φs) (hi : (φs i).store.entry = none) (hψ : ψ.store.entry = none)
    (hlatest : st'.scopedLatest = st.scopedLatest)
    (hwriteIds : st'.scopedWriteIds = st.scopedWriteIds)
    (hentries : toEntries st'.oplog = toEntries st.oplog ∨
      ∃ e, ¬ e.Indexable ∧ toEntries st'.oplog = toEntries st.oplog ++ [e]) :
    Lags st' (Function.update φs i ψ) := by
  have hcovers := h.covers_update (ψ := ψ) hi hlatest hwriteIds
  have hnone : ∀ seq m, ψ.store.entry = some (seq, m) →
      ∃ e ∈ toEntries st'.oplog, e.Indexable ∧ e.seq = seq ∧ e.mutation = m := by
    intro seq m hentry
    rw [hψ] at hentry
    cases hentry
  rcases hentries with hsame | ⟨e, haudit, happend⟩
  · refine ⟨hsame ▸ hcovers, h.pending_update (fun e he => hsame ▸ he) hnone⟩
  · refine ⟨?_, h.pending_update (fun x hx => ?_) hnone⟩
    · rw [happend]
      exact hcovers.append e (fun hix => absurd hix haudit) fun hix => absurd hix haudit
    · rw [happend]
      exact List.mem_append_left _ hx

/-- A request stores an entry that it has still to index. -/
lemma Lags.store (h : Lags st φs) (hi : (φs i).store.entry = none) {e : OplogEntry}
    (hix : e.Indexable) (hψ : ψ.store = .stored e.seq e.mutation)
    (hlatest : st'.scopedLatest = st.scopedLatest)
    (hwriteIds : st'.scopedWriteIds = st.scopedWriteIds)
    (hentries : toEntries st'.oplog = toEntries st.oplog ++ [e]) :
    Lags st' (Function.update φs i ψ) := by
  have hcovers := h.covers_update (ψ := ψ) hi hlatest hwriteIds
  refine ⟨?_, h.pending_update (fun x hx => ?_) fun seq m hentry => ?_⟩
  · rw [hentries]
    exact hcovers.append e (fun _ => ⟨i, by rw [Function.update_self, hψ]⟩)
      fun _ => ⟨i, by rw [Function.update_self, hψ]; rfl⟩
  · rw [hentries]
    exact List.mem_append_left _ hx
  · rw [hψ] at hentry
    obtain ⟨rfl, rfl⟩ := Prod.mk.inj (Option.some.inj hentry)
    rw [hentries]
    exact ⟨e, List.mem_append_right _ List.mem_cons_self, hix, rfl, rfl⟩

/-- A request indexes its entry for the scope. -/
lemma Lags.indexLatest (h : Lags st φs) {seq : ℕ} {m : Mutation}
    (hi : (φs i).store = .stored seq m) (hψ : ψ.store = .half seq m) :
    Lags (st.indexLatest seq m) (Function.update φs i ψ) := by
  obtain ⟨e, he, hix, rfl, rfl⟩ := h.pending i seq m (by rw [hi]; rfl)
  refine ⟨(h.covers.indexLatest he hix).mono ?_ ?_, h.pending_update (fun x hx => hx) ?_⟩
  · rintro x ⟨⟨j, hj⟩, hne⟩
    have hji : j ≠ i := by
      rintro rfl
      rw [hi] at hj
      obtain ⟨hseq, hm⟩ := PushPhase.stored.inj hj
      exact hne ⟨hseq.symm, hm.symm⟩
    exact ⟨j, by rw [Function.update_of_ne hji, hj]⟩
  · rintro x ⟨j, hj⟩
    by_cases hji : j = i
    · subst hji
      rw [hi] at hj
      exact ⟨j, by rw [Function.update_self, hψ]; exact hj⟩
    · exact ⟨j, by rw [Function.update_of_ne hji, hj]⟩
  · intro seq m hentry
    rw [hψ] at hentry
    exact h.pending i seq m (by rw [hi]; exact hentry)

/-- A request indexes its entry's write id. -/
lemma Lags.indexWriteId (h : Lags st φs) {seq : ℕ} {m : Mutation}
    (hi : (φs i).store = .half seq m) (hψ : ψ.store = .idle) :
    Lags (st.indexWriteId seq m) (Function.update φs i ψ) := by
  obtain ⟨e, he, hix, rfl, rfl⟩ := h.pending i seq m (by rw [hi]; rfl)
  refine ⟨(h.covers.indexWriteId he hix).mono ?_ ?_, h.pending_update (fun x hx => hx) ?_⟩
  · rintro x ⟨j, hj⟩
    have hji : j ≠ i := by
      rintro rfl
      rw [hi] at hj
      cases hj
    exact ⟨j, by rw [Function.update_of_ne hji, hj]⟩
  · rintro x ⟨⟨j, hj⟩, hne⟩
    have hji : j ≠ i := by
      rintro rfl
      rw [hi] at hj
      obtain ⟨hseq, hm⟩ := Prod.mk.inj (Option.some.inj hj)
      exact hne ⟨hseq.symm, hm.symm⟩
    exact ⟨j, by rw [Function.update_of_ne hji, hj]⟩
  · intro seq m hentry
    rw [hψ] at hentry
    cases hentry

variable [Formatting] [Surroundings] {cp : ControlPlane η} {requests : ι → ServerEvent η}
  {o : RequestOp}

omit [LogOplog ω] [DecidableEq ι] in
/-- An idle request stays without an entry to index. -/
lemma entry_next_of_idle [Oplog ω] (hallowed : (φs i).allowed (requests i) o)
    (hidle : (φs i).store = .idle) :
    ((φs i).next ⟨o, (st.performRequest cp o).1⟩).store.entry = none := by
  cases o with
  | promotionPath request payload =>
    show (φs i).store.entry = none
    rw [hidle]
    rfl
  | server o =>
    show ((φs i).store.next o _).entry = none
    rw [hidle]
    cases o with
    | lookup tenantId nameSpace m =>
      cases (st.performRequest cp (.server (.lookup tenantId nameSpace m))).1 with
      | none => rfl
      | some seq => rfl
    | _ => rfl

/-- **Steps** leave nothing behind that no request has still to index. -/
lemma Lags.step (h : Lags st φs) (hallowed : (φs i).allowed (requests i) o) :
    Lags (st.performRequest cp o).2
      (Function.update φs i ((φs i).next ⟨o, (st.performRequest cp o).1⟩)) := by
  -- only appends and the two locks of the indexes matter
  have hquiet : (φs i).store = .idle → (st.performRequest cp o).2.scopedLatest = st.scopedLatest →
      (st.performRequest cp o).2.scopedWriteIds = st.scopedWriteIds →
      (toEntries (st.performRequest cp o).2.oplog = toEntries st.oplog ∨ ∃ e, ¬ e.Indexable ∧
        toEntries (st.performRequest cp o).2.oplog = toEntries st.oplog ++ [e]) →
      Lags (st.performRequest cp o).2
        (Function.update φs i ((φs i).next ⟨o, (st.performRequest cp o).1⟩)) := by
    intro hidle hlatest hwriteIds hentries
    exact h.skip (by rw [hidle]; rfl) (entry_next_of_idle hallowed hidle) hlatest hwriteIds
      hentries
  cases o with
  | promotionPath request payload => exact hquiet hallowed rfl rfl (.inl rfl)
  | server o =>
    cases o with
    | appendAudit e =>
      obtain ⟨hidle, eventNum, stage, tenantId, nameSpace, writeId, d, t, -, rfl⟩ := hallowed
      refine hquiet hidle rfl rfl ?_
      rcases append_entries (Atomic.auditEntry stage tenantId nameSpace writeId d eventNum t)
        st.oplog with ⟨seq, -, hentries⟩ | ⟨err, -, hentries⟩
      · exact .inr ⟨_, fun hix => hix rfl, hentries⟩
      · exact .inl hentries
    | lookup tenantId nameSpace m => exact hquiet hallowed.1 rfl rfl (.inl rfl)
    | readSince first limit => exact hquiet hallowed.1 rfl rfl (.inl rfl)
    | appendRemote m =>
      obtain ⟨hmissed, -⟩ := hallowed
      have hnone : (φs i).store.entry = none := by rw [hmissed]; rfl
      have hnext : ∀ r, ((φs i).next ⟨.server (.appendRemote m), r⟩).store =
          (PushPhase.missed m).next (.appendRemote m) r := by
        intro r
        rw [Conduct.next, Conduct.nextStore, hmissed]
      show Lags { st with oplog := (Oplog.append (st.remoteEntry m) st.oplog).2
                          tick := st.tick + 1 }
        (Function.update φs i ((φs i).next ⟨.server (.appendRemote m),
          (Oplog.append (st.remoteEntry m) st.oplog).1⟩))
      rcases append_entries (st.remoteEntry m) st.oplog with
        ⟨seq, hout, hentries⟩ | ⟨err, hout, hentries⟩
      · rw [hout]
        by_cases hm : m.collection = auditCollection
        · refine h.skip hnone ?_ rfl rfl (.inr ⟨_, fun hix => hix hm, hentries⟩)
          rw [hnext, PushPhase.next, if_pos hm]
          rfl
        · refine h.store (e := (st.remoteEntry m).withSeq seq) hnone hm ?_ rfl rfl hentries
          rw [hnext, PushPhase.next, if_neg hm]
          rfl
      · rw [hout]
        refine h.skip hnone ?_ rfl rfl (.inl hentries)
        rw [hnext]
        rfl
    | indexLatest seq m =>
      refine h.indexLatest hallowed ?_
      rw [Conduct.next, Conduct.nextStore, show (φs i).store = .stored seq m from hallowed]
      rfl
    | indexWriteId seq m =>
      refine h.indexWriteId hallowed ?_
      rw [Conduct.next, Conduct.nextStore, show (φs i).store = .half seq m from hallowed]
      rfl
    | _ => exact hquiet hallowed rfl rfl (.inl rfl)

end

/-! ## Concurrent requests -/

section
variable {ω η ι : Type} [ReadableOplog ω] [Formatting] [Surroundings] [Arithmetic] [DecidableEq ι]

/-- Every schedule leaves the indexes behind by what some request has still to index. -/
lemma requestPool_lags (cp : ControlPlane η) (w : ω) (hooks : η) (tick : ℕ)
    (requests : ι → ServerEvent η) (schedule : List ι) :
    ∃ φs, ((requestPool (withControlPlane w hooks tick) requests).exec (performRequest cp)
        schedule).Tracked (fun i => conductProtocol (requests i))
          (fun i φ reply => φ.store = .idle ∧ (requests i).HandsOut φ.page reply) φs ∧
      Lags ((requestPool (withControlPlane w hooks tick) requests).exec (performRequest cp)
        schedule).shared φs := by
  have hstart : Lags (withControlPlane w hooks tick) fun _ : ι => Conduct.fresh := by
    refine ⟨?_, fun _ _ _ hentry => ?_⟩
    · rw [withControlPlane_oplog]
      exact (withControlPlane_complete w hooks tick).mono (Set.empty_subset _) (Set.empty_subset _)
    · cases hentry
  exact Pool.exec_invariant (performRequest cp) (performRequest_expected cp)
    (fun _ _ _ _ hlags hallowed => Lags.step hlags hallowed) (requestPool_tracked _ requests)
    hstart schedule

omit [ReadableOplog ω] [Surroundings] [Arithmetic] [DecidableEq ι] in
/-- A request that has an entry to index does so next. -/
lemma head_of_entry {α : Type} {ev : ServerEvent η} {post : Conduct → α → Prop} {φ : Conduct}
    {p : RequestProg α} (hpost : ∀ a, post φ a → φ.store = .idle)
    (h : (conductProtocol ev).Follows post φ p) (seq : ℕ) (m : Mutation) :
    (φ.store = .stored seq m → p.head = some (.server (.indexLatest seq m))) ∧
      (φ.store = .half seq m → p.head = some (.server (.indexWriteId seq m))) := by
  cases p with
  | done a =>
    have hidle := hpost a h
    simp [hidle]
  | call o rest =>
    have hallowed : φ.allowed ev o := h.1
    -- all other steps are taken in other phases
    unfold Conduct.allowed at hallowed
    split at hallowed
    all_goals
      constructor
      · intro hstore
        simp_all
      · intro hstore
        simp_all

/-- **Indexes name entries of the log.** Under any number of requests, whose steps interleave in
any order on a server that starts on any log, the latest number of a scope is at any time that of
an entry of the scope, and the number of a write id that of an entry with the key. The entries of
the log that the indexes lack are those that some request indexes in its next step, or in the step
after it. -/
theorem concurrent_indexes_sound (cp : ControlPlane η) (w : ω) (hooks : η) (tick : ℕ)
    (requests : ι → ServerEvent η) (schedule : List ι) :
    let pool := (requestPool (withControlPlane w hooks tick) requests).exec (performRequest cp)
      schedule
    let st := pool.shared
    let log := toEntries st.oplog
    (∀ scope s, st.scopedLatest scope = some s →
      ∃ e ∈ log, e.Indexable ∧ scopeOf e.mutation = scope ∧ e.seq = s) ∧
    (∀ key s, st.scopedWriteIds key = some s →
      ∃ e ∈ log, e.Indexable ∧ writeKey e.mutation = key ∧ e.seq = s) ∧
    (∀ e ∈ log, e.Indexable →
      (∃ s, st.scopedLatest (scopeOf e.mutation) = some s ∧ e.seq ≤ s) ∨
        ∃ i, (pool.threads i).head = some (.server (.indexLatest e.seq e.mutation))) ∧
    (∀ e ∈ log, e.Indexable → st.scopedWriteIds (writeKey e.mutation) ≠ none ∨
      ∃ i, (pool.threads i).head = some (.server (.indexLatest e.seq e.mutation)) ∨
        (pool.threads i).head = some (.server (.indexWriteId e.seq e.mutation))) := by
  intro pool st log
  obtain ⟨φs, htracked, hlags⟩ := requestPool_lags cp w hooks tick requests schedule
  have hhead := fun i (e : OplogEntry) =>
    head_of_entry (fun _ hpost => hpost.1) (htracked i) e.seq e.mutation
  refine ⟨hlags.covers.latest_mem, hlags.covers.writeIds_mem, fun e he hix => ?_,
    fun e he hix => ?_⟩
  · by_cases hlate : e ∈ lateLatest φs
    · obtain ⟨i, hi⟩ := hlate
      exact .inr ⟨i, (hhead i e).1 hi⟩
    · exact .inl (hlags.covers.latest_le e he hix hlate)
  · by_cases hlate : e ∈ lateWriteIds φs
    · obtain ⟨i, hi⟩ := hlate
      right
      refine ⟨i, ?_⟩
      cases hstore : (φs i).store with
      | idle =>
        rw [hstore] at hi
        cases hi
      | missed m =>
        rw [hstore] at hi
        cases hi
      | stored seq m =>
        rw [hstore] at hi
        obtain ⟨rfl, rfl⟩ := Prod.mk.inj (Option.some.inj hi)
        exact .inl ((hhead i e).1 hstore)
      | half seq m =>
        rw [hstore] at hi
        obtain ⟨rfl, rfl⟩ := Prod.mk.inj (Option.some.inj hi)
        exact .inr ((hhead i e).2 hstore)
    · exact .inl (hlags.covers.writeIds_some e he hix hlate)

/-- **Indexes of concurrent requests.** A server starts on any log whose reads return every entry,
and answers any number of requests of every kind, whose steps interleave in any order. When all
of them are answered, the latest number of every scope is the one that a restart would find, the
known write ids are the ones that it would know, and so are their numbers where no two entries
have one key. -/
theorem quiescent_indexes (cp : ControlPlane η) (w : ω) (hooks : η) (tick : ℕ)
    (requests : ι → ServerEvent η) (schedule : List ι)
    (hdone : ∀ i, (((requestPool (withControlPlane w hooks tick) requests).exec
      (performRequest cp) schedule).threads i).result.isSome = true) (hooks' : η) (tick' : ℕ) :
    let st := ((requestPool (withControlPlane w hooks tick) requests).exec (performRequest cp)
      schedule).shared
    let restarted : ServerState ω η := withControlPlane st.oplog hooks' tick'
    st.scopedLatest = restarted.scopedLatest ∧
      (∀ key, st.scopedWriteIds key = none ↔ restarted.scopedWriteIds key = none) ∧
      (KeysUnique (toEntries st.oplog) → st.scopedWriteIds = restarted.scopedWriteIds) := by
  intro st restarted
  obtain ⟨φs, htracked, hlags⟩ := requestPool_lags cp w hooks tick requests schedule
  have hidle : ∀ i, (φs i).store = .idle := by
    intro i
    obtain ⟨reply, hreply⟩ := Option.isSome_iff_exists.mp (hdone i)
    exact (htracked.result hreply).1
  have hcomplete : st.Complete (toEntries st.oplog) := by
    refine hlags.covers.mono ?_ ?_
    · rintro e ⟨i, hi⟩
      rw [hidle i] at hi
      cases hi
    · rintro e ⟨i, hi⟩
      rw [hidle i] at hi
      cases hi
  have hrestarted := withControlPlane_complete st.oplog hooks' tick'
  exact ⟨hcomplete.latest_unique hrestarted, hcomplete.writeIds_none_iff hrestarted,
    hcomplete.writeIds_unique hrestarted⟩

end
end ServerState

section
attribute [local instance] Formatting.sample Surroundings.sample Arithmetic.sample

/-- A push and a pull, and both come to an end. -/
theorem ServerState.quiescent_indexes_sample :
    let st := ((requestPool sampleServer sampleRequests).exec (ServerState.performRequest .default)
      (sampleInterleaving ++ List.replicate 4 false)).shared
    let restarted : ServerState MemLog Unit := .withControlPlane st.oplog () 0
    st.scopedLatest = restarted.scopedLatest ∧
      (∀ key, st.scopedWriteIds key = none ↔ restarted.scopedWriteIds key = none) ∧
      (ServerState.KeysUnique (toEntries st.oplog) →
        st.scopedWriteIds = restarted.scopedWriteIds) :=
  ServerState.quiescent_indexes .default MemLog.new () 0 sampleRequests
    (sampleInterleaving ++ List.replicate 4 false) (by decide +kernel) () 0

end
end Rango
