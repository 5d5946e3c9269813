import Rango.Server.ConcurrentPushTheorems
import Rango.Server.DeliveryTheorems

/-!
# A pull among concurrent pushes

A pull scans the log at one moment and reads its checkpoint at a later one. `pullProtocol` is
what a State-tier pull does in between, and `Race` a pool of one pull and any number of pushes
that remembers the log as the pull scanned it. As long as no push advances the index of the scope
past an entry that the scan has not seen, the pull returns everything up to its checkpoint
(`concurrent_pull_complete`); a push that runs between the two moments is lost
(`pushed_between_lost`).
-/

namespace Rango

open Interleaving

/-! ## The protocol of a pull -/

/-- Where a pull stands: it has scanned a page, and then read its checkpoint. -/
inductive PullPhase where
  | fresh
  | scanned (page : List OplogEntry)
  | answered (page : List OplogEntry) (checkpoint : ℕ)

/-- Every candidate is found again among the filtered ones. -/
def Admits (candidates filtered : List Document) : Prop :=
  ∀ c ∈ candidates, ∃ c' ∈ filtered, candidateIdentity c' = candidateIdentity c

namespace PullPhase

variable [Arithmetic] (req : PullRequest)

/-- The steps that a pull takes in a phase. -/
def allowed : PullPhase → ServerOp → Prop
  | .fresh, .readSince first limit =>
    afterCheckpoint req.sinceCheckpoint = .ok first ∧ limit = pageLimit
  | .scanned _, .readPath .. => True
  | .scanned _, .containmentGate tenantId nameSpace | .scanned _, .checkpoint tenantId nameSpace =>
    tenantId = req.tenantId ∧ nameSpace = req.nameSpace
  | .scanned _, o => o.Settling
  | _, _ => False

omit [Arithmetic] in
/-- The phase after a step of a pull that is let through. -/
def next : PullPhase → (o : ServerOp) → o.Res → PullPhase → Prop
  | .fresh, .readSince .., .ok page, ψ =>
    ψ = .scanned page ∧ (page.Pairwise fun a b => a.seq < b.seq) ∧ ∀ e ∈ page, e.seq < 2 ^ 64
  | .scanned page, .readPath _ candidates, (d, filtered), ψ =>
    ψ = .scanned page ∧ ControlPlane.isReject d = false ∧ Admits candidates filtered
  | .scanned page, .containmentGate .., containment, ψ => ψ = .scanned page ∧ containment = none
  | .scanned page, .checkpoint .., n, ψ => ψ = .answered page n
  | φ, _, _, ψ => ψ = φ

/-- The response has the checkpoint that was read and the mutations of the page. A pull that
fails has not read a page. -/
def post : PullPhase → Except RequestFault PullResponse → Prop
  | φ, .error _ => φ = .fresh
  | φ, .ok resp => ∃ page, φ = .answered page resp.newCheckpoint ∧
      ∀ e ∈ page, inPullScope req .state e = true → e.mutation.patch ≠ none →
        e.mutation ∈ resp.mutations

end PullPhase

/-- The protocol of a pull. -/
def pullProtocol [Arithmetic] (req : PullRequest) : Protocol PullPhase ServerOp.Res where
  allowed := PullPhase.allowed req
  next := PullPhase.next

/-- A pull between its scan and its checkpoint is not done. -/
lemma scanned_head_ne_none [Arithmetic] {req : PullRequest} {page : List OplogEntry}
    {p : ServerProg (Except RequestFault PullResponse)}
    (hp : (pullProtocol req).Follows (PullPhase.post req) (.scanned page) p) : p.head ≠ none := by
  intro hhead
  cases p with
  | call o next => cases hhead
  | done answer =>
    have hpost : PullPhase.post req (.scanned page) answer := hp
    cases answer with
    | error fault => cases hpost
    | ok resp =>
      obtain ⟨page', hanswered, -⟩ := hpost
      cases hanswered

/-! ## Pulls follow their protocol -/

/-- What the selection keeps when every candidate is admitted. -/
lemma mem_selectMutations_of_admits {es : List OplogEntry} {filtered : List Document}
    (hinc : es.Pairwise fun a b => a.seq < b.seq) (hseq : ∀ e ∈ es, e.seq < 2 ^ 64)
    (hadmits : Admits (es.filterMap addCandidateIdentity) filtered) {e : OplogEntry} (he : e ∈ es)
    (hpatch : e.mutation.patch ≠ none) :
    e.mutation ∈ selectMutations .state (identityCounts filtered) es := by
  have hcount : 0 < identityCounts (es.filterMap addCandidateIdentity) (entryIdentity e) :=
    identityCounts_candidates hseq he hpatch
  rw [identityCounts_pos, List.mem_filterMap] at hcount
  obtain ⟨c, hc, hidentity⟩ := hcount
  obtain ⟨c', hc', hsame⟩ := hadmits c hc
  have hcounted : 0 < identityCounts filtered (entryIdentity e) := by
    rw [identityCounts_pos, List.mem_filterMap]
    exact ⟨c', hc', hsame.trans hidentity⟩
  rw [selectMutations_eq hinc, List.mem_map]
  refine ⟨e, List.mem_filter.mpr ⟨he, ?_⟩, rfl⟩
  simpa only [selectable, Bool.and_eq_true, decide_eq_true_eq] using ⟨hpatch, hcounted⟩

namespace Atomic

variable [Formatting] [Arithmetic] {req : PullRequest} {page : List OplogEntry}

/-- The end of a pull. -/
lemma pullAnswered_follows (d : GovernanceDecision) {mutations : List Mutation}
    (hmutations : ∀ e ∈ page, inPullScope req .state e = true → e.mutation.patch ≠ none →
      e.mutation ∈ mutations) :
    (pullProtocol req).Follows (PullPhase.post req) (.scanned page)
      (pullAnswered req d mutations) := by
  refine follows_bind (settle_follows (fun o ho => ?_) ..) fun _ => ?_
  · cases o with
    | countAudit => exact ⟨ho, fun r ψ hψ => hψ⟩
    | registerDecisionOutcome => exact ⟨ho, fun r ψ hψ => hψ⟩
    | appendAudit e => exact ⟨ho, fun r ψ hψ => hψ⟩
    | _ => exact ho.elim
  · refine ⟨⟨rfl, rfl⟩, ?_⟩
    rintro n ψ rfl
    exact ⟨page, rfl, hmutations⟩

/-- A pull behind its scan. -/
lemma pullRead_follows (hinc : page.Pairwise fun a b => a.seq < b.seq)
    (hseq : ∀ e ∈ page, e.seq < 2 ^ 64) :
    (pullProtocol req).Follows (PullPhase.post req) (.scanned page)
      (pullRead req .state (page.filter (inPullScope req .state))) := by
  refine ⟨trivial, ?_⟩
  rintro ⟨d, filtered⟩ ψ ⟨rfl, hd, hadmits⟩
  refine ⟨⟨rfl, rfl⟩, ?_⟩
  rintro containment ψ ⟨rfl, rfl⟩
  show (pullProtocol req).Follows _ _ (pullDecided req .state _ d filtered)
  rw [pullDecided, if_neg (by rw [hd]; exact Bool.false_ne_true)]
  refine pullAnswered_follows d fun e he hscope hpatch => ?_
  have hsub := List.filter_sublist (p := inPullScope req .state) (l := page)
  exact mem_selectMutations_of_admits (hinc.sublist hsub) (fun x hx => hseq x (hsub.subset hx))
    hadmits (List.mem_filter.mpr ⟨he, hscope⟩) hpatch

/-- **Pulls follow their protocol.** -/
theorem processPull_follows {principal : AuthPrincipal} (hnode : principal.nodeId = req.nodeId)
    (htenant : principal.tenantId = req.tenantId) :
    (pullProtocol req).Follows (PullPhase.post req) .fresh
      (processPull req principal .state) := by
  rw [processPull, if_neg (by simp [hnode, htenant])]
  cases hfirst : afterCheckpoint req.sinceCheckpoint with
  | error fault => rfl
  | ok first =>
    refine ⟨⟨hfirst, rfl⟩, ?_⟩
    rintro (err | page) ψ hψ
    · exact hψ
    · obtain ⟨rfl, hinc, hseq⟩ := hψ
      exact pullRead_follows hinc hseq

end Atomic

/-! ## What holds in a race -/

namespace ServerState

section
variable {ω η : Type} [LogOplog ω]

/-- The number is zero or that of an entry. -/
def Numbered (es : List OplogEntry) (n : ℕ) : Prop := n = 0 ∨ ∃ e ∈ es, e.seq = n

/-- Entries that are due up to a number of the log are older than what is appended later. -/
lemma Due.old {req : PullRequest} {n : ℕ} {w w' : ω}
    (hext : ∃ added, toEntries w' = toEntries w ++ added) (hn : Numbered (toEntries w) n)
    {e : OplogEntry} (he : e ∈ toEntries w') (hdue : Due req n e) : e ∈ toEntries w := by
  obtain ⟨added, hentries⟩ := hext
  have hinc := LogOplog.increasing w'
  rw [hentries] at he hinc
  rcases List.mem_append.mp he with he | he
  · exact he
  · have hupTo := hdue.upTo
    have hafter := hdue.after
    rcases hn with rfl | ⟨x, hx, rfl⟩
    · omega
    · have hlt := (List.pairwise_append.mp hinc).2.2 x hx e he
      omega

/-- The page of a pull holds everything behind its checkpoint. -/
lemma mem_page_of_few [Arithmetic] {req : PullRequest} {w : ω} {first : ℕ}
    (hfirst : afterCheckpoint req.sinceCheckpoint = .ok first)
    (hfew : (toEntries w).countP (fun e => req.sinceCheckpoint < e.seq) < 1000) {e : OplogEntry}
    (he : e ∈ toEntries w) (hafter : req.sinceCheckpoint < e.seq) :
    e ∈ entriesSince (toEntries w) first pageLimit := by
  rw [mem_page hfirst he hafter]
  refine ⟨he, hafter, ?_⟩
  have hle := List.countP_mono_left (l := toEntries w)
    (p := fun x => decide (req.sinceCheckpoint < x.seq ∧ x.seq ≤ e.seq))
    (q := fun x => decide (req.sinceCheckpoint < x.seq)) fun x _ hx => by
      rw [decide_eq_true_eq] at hx ⊢
      exact hx.1
  have hlimit : pageLimit = 1000 := rfl
  omega

/-- What the phase of the pull says about the state and the scan. -/
def PullHolds (req : PullRequest) (st : ServerState ω η) (scan : Option (List OplogEntry)) :
    PullPhase → Prop
  | .fresh => True
  | .scanned page => ∃ es, scan = some es ∧ (∀ e ∈ es, req.sinceCheckpoint < e.seq → e ∈ page) ∧
      ∀ e ∈ toEntries st.oplog,
        Due req (st.scopedLatestCheckpoint req.tenantId req.nameSpace) e → e ∈ es
  | .answered page n => Numbered (toEntries st.oplog) n ∧
      ∀ e ∈ toEntries st.oplog, Due req n e → e ∈ page

/-- The numbers of the index are those of entries. -/
def LatestStored (st : ServerState ω η) : Prop :=
  ∀ scope s, st.scopedLatest scope = some s → ∃ e ∈ toEntries st.oplog, e.seq = s

variable {st st' : ServerState ω η} {req : PullRequest} {scan : Option (List OplogEntry)}

/-- A number of the log that is taken into the index of a scope. -/
lemma latest_update {latest : String × String → Option ℕ} {es : List OplogEntry} {seq : ℕ}
    (hlatest : ∀ scope s, latest scope = some s → ∃ e ∈ es, e.seq = s)
    (hseq : ∃ e ∈ es, e.seq = seq) (scope' : String × String) :
    ∀ scope s, Function.update latest scope'
        (some (((latest scope').map fun current => max current seq).getD seq)) scope = some s →
      ∃ e ∈ es, e.seq = s := by
  intro scope s hs
  by_cases hscope : scope = scope'
  · rw [hscope, Function.update_self] at hs
    obtain rfl := Option.some.inj hs
    cases hcurrent : latest scope' with
    | none => exact hseq
    | some current =>
      rcases le_total current seq with hle | hle
      · show ∃ e ∈ es, e.seq = max current seq
        rw [max_eq_right hle]
        exact hseq
      · show ∃ e ∈ es, e.seq = max current seq
        rw [max_eq_left hle]
        exact hlatest scope' current hcurrent
  · rw [Function.update_of_ne hscope] at hs
    exact hlatest scope s hs

lemma LatestStored.numbered (h : st.LatestStored) (tenantId nameSpace : String) :
    Numbered (toEntries st.oplog) (st.scopedLatestCheckpoint tenantId nameSpace) := by
  rw [scopedLatestCheckpoint_eq, scopedLatestSeq]
  cases hs : st.scopedLatest (tenantId, nameSpace) with
  | none => exact .inl rfl
  | some s => exact .inr (h _ s hs)

lemma Numbered.mono {es added : List OplogEntry} {n : ℕ} (h : Numbered es n) :
    Numbered (es ++ added) n := by
  rcases h with rfl | ⟨e, he, rfl⟩
  · exact .inl rfl
  · exact .inr ⟨e, List.mem_append_left _ he, rfl⟩

/-- A step that appends, or leaves the log, and leaves the index. -/
lemma PullHolds.frame {φ : PullPhase} (h : PullHolds req st scan φ) (hlatest : st.LatestStored)
    (hext : ∃ added, toEntries st'.oplog = toEntries st.oplog ++ added)
    (hsame : st'.scopedLatest = st.scopedLatest) : PullHolds req st' scan φ := by
  cases φ with
  | fresh => trivial
  | scanned page =>
    obtain ⟨es, hscan, hpage, hdue⟩ := h
    refine ⟨es, hscan, hpage, fun e he hdue' => ?_⟩
    rw [scopedLatestCheckpoint_congr hsame] at hdue'
    exact hdue e (Due.old hext (hlatest.numbered _ _) he hdue') hdue'
  | answered page n =>
    refine ⟨?_, fun e he hdue => h.2 e (Due.old hext h.1 he hdue) hdue⟩
    obtain ⟨added, hentries⟩ := hext
    rw [hentries]
    exact h.1.mono

end

section
variable {ω η : Type} [LogOplog ω] [Formatting] [Surroundings] {cp : ControlPlane η}

variable (cp) in
/-- Every step leaves the entries, or appends. -/
lemma perform_extends (o : ServerOp) (st : ServerState ω η) :
    ∃ added, toEntries (st.perform cp o).2.oplog = toEntries st.oplog ++ added := by
  have happend : ∀ e, ∃ added, toEntries (Oplog.append e st.oplog).2 =
      toEntries st.oplog ++ added := by
    intro e
    rcases append_entries e st.oplog with ⟨seq, -, hentries⟩ | ⟨err, -, hentries⟩
    · exact ⟨_, hentries⟩
    · exact ⟨[], by rw [hentries, List.append_nil]⟩
  cases o with
  | appendAudit e => exact happend e
  | appendRemote m => exact happend _
  | _ => exact ⟨[], (List.append_nil _).symm⟩

/-- The number of an entry stays that of one. -/
lemma perform_numbered (o : ServerOp) {st : ServerState ω η} {n : ℕ}
    (h : ∃ e ∈ toEntries st.oplog, e.seq = n) :
    ∃ e ∈ toEntries (st.perform cp o).2.oplog, e.seq = n := by
  obtain ⟨added, hentries⟩ := perform_extends cp o st
  obtain ⟨e, he, hseq⟩ := h
  rw [hentries]
  exact ⟨e, List.mem_append_left _ he, hseq⟩

/-- A push that has stored an entry has its number from the log. -/
lemma perform_stored {φ : PushPhase} {o : ServerOp} (hallowed : φ.allowed o)
    (ho : ∀ seq m, o ≠ .indexLatest seq m) {st : ServerState ω η} {seq : ℕ} {m : Mutation}
    (hnext : φ.next o (st.perform cp o).1 = .stored seq m) :
    ∃ e ∈ toEntries (st.perform cp o).2.oplog, e.seq = seq := by
  cases φ with
  | idle =>
    obtain ⟨-, -, hidle | ⟨m', -, hmissed, -⟩⟩ := perform_idle cp hallowed st
    · rw [hidle] at hnext
      cases hnext
    · rw [hmissed] at hnext
      cases hnext
  | missed m' =>
    obtain rfl : o = .appendRemote m' := hallowed
    let entry : OplogEntry :=
      { seq := 0, timestamp := Surroundings.now st.tick, mutation := m', origin := .remote
        applied := false, snapshotAnchor := none }
    have hnext' : (PushPhase.missed m').next (.appendRemote m')
      (Oplog.append entry st.oplog).1 = .stored seq m := hnext
    rcases append_entries entry st.oplog with ⟨seq', hout, hentries⟩ | ⟨err, hout, hentries⟩
    · rw [hout, PushPhase.next] at hnext'
      split_ifs at hnext'
      obtain ⟨rfl, rfl⟩ := PushPhase.stored.inj hnext'
      refine ⟨entry.withSeq seq', ?_, rfl⟩
      have hmem : entry.withSeq seq' ∈ toEntries (Oplog.append entry st.oplog).2 := by
        rw [hentries]
        exact List.mem_append_right _ (List.mem_singleton_self _)
      exact hmem
    · rw [hout] at hnext'
      cases hnext'
  | stored seq' m' => exact absurd hallowed (ho seq' m')
  | half seq' m' =>
    obtain rfl : o = .indexWriteId seq' m' := hallowed
    cases hnext

/-- Only the first lock of the indexes changes the latest numbers. -/
lemma perform_latest {o : ServerOp} (ho : ∀ seq m, o ≠ .indexLatest seq m)
    (st : ServerState ω η) : (st.perform cp o).2.scopedLatest = st.scopedLatest := by
  cases o with
  | indexLatest seq m => exact absurd rfl (ho seq m)
  | _ => rfl

end
end ServerState

/-! ## A pull and pushes -/

/-- What the requests of a race answer: the pull is `none`. -/
@[reducible] def Answer {κ : Type} : Option κ → Type
  | none => Except RequestFault PullResponse
  | some _ => Except RequestFault PushResponse

/-- A pool of one pull and some pushes, with the log as the pull scanned it. -/
structure Race (ω η κ : Type) where
  pool : Pool (ServerState ω η) ServerOp.Res fun i : Option κ => Answer i
  scan : Option (List OplogEntry)

namespace ServerState

section
variable {ω η κ : Type} [LogOplog ω]

/-- A race on a server, before any step. -/
def race [Formatting] [Arithmetic] (st : ServerState ω η) (req : PullRequest)
    (principal : AuthPrincipal) (requests : κ → PushRequest × AuthPrincipal) : Race ω η κ where
  pool :=
    { shared := st
      threads := fun
        | none => Atomic.processPull req principal .state
        | some j => Atomic.processPush (requests j).1 (requests j).2 }
  scan := none

/-- The phases of the requests of a race. -/
@[reducible] def RacePhase : Option κ → Type
  | none => PullPhase
  | some _ => PushPhase

/-- The protocols of the requests of a race. -/
def raceProtocol [Arithmetic] (req : PullRequest) :
    (i : Option κ) → Protocol (RacePhase i) ServerOp.Res
  | none => pullProtocol req
  | some _ => pushProtocol

/-- How the requests of a race end. -/
def racePost (req : PullRequest) : (i : Option κ) → RacePhase i → Answer i → Prop
  | none => PullPhase.post req
  | some _ => fun φ _ => φ = .idle

/-- What holds in a race. -/
structure RaceHolds (req : PullRequest) (scan : Option (List OplogEntry)) (st : ServerState ω η)
    (φs : (i : Option κ) → RacePhase i) : Prop where
  latest : st.LatestStored
  stored : ∀ j seq m, φs (some j) = .stored seq m → ∃ e ∈ toEntries st.oplog, e.seq = seq
  pull : PullHolds req st scan (φs none)

variable [DecidableEq κ] {req : PullRequest} {scan : Option (List OplogEntry)}
  {st : ServerState ω η} {φs : (i : Option κ) → RacePhase i}

/-- A step of a push that advances the index of a scope. -/
lemma indexLatest_holds {j : κ} {seq : ℕ} {m : Mutation} (h : RaceHolds req scan st φs)
    (hj : φs (some j) = .stored seq m)
    (hserves : ∀ page, φs none = .scanned page → scopeOf m = (req.tenantId, req.nameSpace) →
      ∀ scanned ∈ scan, ∀ e ∈ toEntries st.oplog, Due req seq e → e ∈ scanned) :
    RaceHolds req scan (st.indexLatest seq m)
      (Function.update φs (some j) (PushPhase.half seq m)) := by
  have hupdate : (st.indexLatest seq m).scopedLatest = Function.update st.scopedLatest (scopeOf m)
      (some (((st.scopedLatest (scopeOf m)).map fun current => max current seq).getD seq)) := rfl
  -- the new number is the old one or that of the entry
  have hnumber : ((st.scopedLatest (scopeOf m)).map fun current => max current seq).getD seq =
        seq ∨ st.scopedLatest (scopeOf m) = some
          (((st.scopedLatest (scopeOf m)).map fun current => max current seq).getD seq) := by
    cases hs : st.scopedLatest (scopeOf m) with
    | none => exact .inl rfl
    | some current =>
      rcases le_total current seq with hle | hle
      · exact .inl (max_eq_right hle)
      · exact .inr (congrArg some (max_eq_left hle).symm)
  refine ⟨latest_update h.latest (h.stored j seq m hj) (scopeOf m), ?_, ?_⟩
  · intro j' seq' m' hj'
    by_cases hjj : some j' = some j
    · obtain rfl := Option.some.inj hjj
      rw [Function.update_self] at hj'
      cases hj'
    · rw [Function.update_of_ne hjj] at hj'
      exact h.stored j' seq' m' hj'
  · rw [Function.update_of_ne (Option.some_ne_none j).symm]
    have hpull := h.pull
    cases hφ : φs none with
    | fresh => trivial
    | answered page n =>
      rw [hφ] at hpull
      exact hpull
    | scanned page =>
      rw [hφ] at hpull
      obtain ⟨es, hscan, hpage, hdue⟩ := hpull
      refine ⟨es, hscan, hpage, fun e he hdue' => ?_⟩
      rw [scopedLatestCheckpoint_eq, scopedLatestSeq, hupdate] at hdue'
      by_cases hscope : (req.tenantId, req.nameSpace) = scopeOf m
      · rw [hscope, Function.update_self, Option.getD_some] at hdue'
        rcases hnumber with hnumber | hnumber
        · rw [hnumber] at hdue'
          exact hserves page hφ hscope.symm es hscan e he hdue'
        · refine hdue e he ?_
          rw [scopedLatestCheckpoint_eq, scopedLatestSeq, hscope, hnumber]
          exact hdue'
      · rw [Function.update_of_ne hscope] at hdue'
        refine hdue e he ?_
        rw [scopedLatestCheckpoint_eq, scopedLatestSeq]
        exact hdue'

variable [Formatting] [Surroundings] (cp : ControlPlane η)

/-- One step of a race. -/
def raceStep (s : Race ω η κ) (i : Option κ) : Race ω η κ where
  pool := s.pool.step (perform cp) i
  scan :=
    match (s.pool.threads i).head with
    | some (.readSince ..) => some (toEntries s.pool.shared.oplog)
    | _ => s.scan

/-- When a step of `i` serves the pull: the pull scans while fewer than a thousand entries lie
behind its checkpoint, the control plane admits all its candidates, containment lets it through,
and as long as it has not answered, no push advances the index of its scope to or past an entry
that is due and was not scanned. -/
def ServesBy (req : PullRequest) (s : Race ω η κ) (i : Option κ) : ServerOp → Prop
  | .readSince .. =>
    (toEntries s.pool.shared.oplog).countP (fun e => req.sinceCheckpoint < e.seq) < 1000
  | .readPath request candidates =>
    ControlPlane.isReject (cp.readPath request candidates s.pool.shared.hooks).1.1 = false ∧
      Admits candidates (cp.readPath request candidates s.pool.shared.hooks).1.2
  | .containmentGate tenantId nameSpace =>
    i = none → (s.pool.shared.containmentGate tenantId nameSpace).1 = none
  | .indexLatest seq m =>
    (s.pool.threads none).head ≠ none → scopeOf m = (req.tenantId, req.nameSpace) →
      ∀ scanned ∈ s.scan, ∀ e ∈ toEntries s.pool.shared.oplog, Due req seq e → e ∈ scanned
  | _ => True

/-- The next step of `i` serves the pull. -/
def Serves (req : PullRequest) (s : Race ω η κ) (i : Option κ) : Prop :=
  ∀ o ∈ (s.pool.threads i).head, ServesBy cp req s i o

variable {cp}

/-- **Steps of pushes.** -/
lemma pushStep_holds {j : κ} {o : ServerOp} (h : RaceHolds req scan st φs)
    (hallowed : PushPhase.allowed (φs (some j)) o)
    (hserves : ∀ page seq m, φs none = .scanned page → o = .indexLatest seq m →
      scopeOf m = (req.tenantId, req.nameSpace) →
        ∀ scanned ∈ scan, ∀ e ∈ toEntries st.oplog, Due req seq e → e ∈ scanned) :
    RaceHolds req scan (st.perform cp o).2
      (Function.update φs (some j) (PushPhase.next (φs (some j)) o (st.perform cp o).1)) := by
  by_cases ho : ∃ seq m, o = .indexLatest seq m
  · obtain ⟨seq, m, rfl⟩ := ho
    have hj : φs (some j) = PushPhase.stored seq m := by
      cases hφ : φs (some j) with
      | idle =>
        rw [hφ] at hallowed
        exact hallowed.elim
      | missed m' =>
        rw [hφ] at hallowed
        cases hallowed
      | stored seq' m' =>
        rw [hφ] at hallowed
        cases hallowed
        rfl
      | half seq' m' =>
        rw [hφ] at hallowed
        cases hallowed
    rw [hj]
    exact indexLatest_holds h hj fun page hφ => hserves page seq m hφ rfl
  · have hsame : (st.perform cp o).2.scopedLatest = st.scopedLatest :=
      perform_latest (fun seq m hom => ho ⟨seq, m, hom⟩) st
    refine ⟨?_, ?_, ?_⟩
    · intro scope s hs
      rw [hsame] at hs
      exact perform_numbered o (h.latest scope s hs)
    · intro j' seq m hj'
      by_cases hjj : some j' = some j
      · obtain rfl := Option.some.inj hjj
        rw [Function.update_self] at hj'
        exact perform_stored hallowed (fun seq m hom => ho ⟨seq, m, hom⟩) hj'
      · rw [Function.update_of_ne hjj] at hj'
        exact perform_numbered o (h.stored j' seq m hj')
    · rw [Function.update_of_ne (Option.some_ne_none j).symm]
      exact h.pull.frame h.latest (perform_extends cp o st) hsame

omit [Formatting] [Surroundings] [DecidableEq κ] in
/-- The page of a pull that scans is that of the log. -/
lemma readSince_holds [Arithmetic] {first : ℕ} {scan' : Option (List OplogEntry)}
    (hfirst : afterCheckpoint req.sinceCheckpoint = .ok first)
    (hscan : scan' = some (toEntries st.oplog))
    (hfew : (toEntries st.oplog).countP (fun e => req.sinceCheckpoint < e.seq) < 1000) :
    ∃ ψ, PullPhase.next .fresh (.readSince first pageLimit)
      (Oplog.readSince first pageLimit st.oplog) ψ ∧ PullHolds req st scan' ψ := by
  cases hout : Oplog.readSince first pageLimit st.oplog with
  | error err => exact ⟨.fresh, rfl, trivial⟩
  | ok page =>
    have hpage := LogOplog.readSince_ok _ _ _ _ (by decide) hout
    have hsub : page.Sublist (toEntries st.oplog) := by
      rw [hpage]
      exact (List.take_sublist _ _).trans List.filter_sublist
    refine ⟨.scanned page, ⟨rfl, (LogOplog.increasing st.oplog).sublist hsub, ?_⟩, ?_⟩
    · exact fun e he => (LogOplog.seq_range st.oplog e (hsub.subset he)).2
    · refine ⟨toEntries st.oplog, hscan, fun e he hafter => ?_, fun e he _ => he⟩
      rw [hpage]
      exact mem_page_of_few hfirst hfew he hafter

/-- **Steps of the pull.** Its scan is the log as it scans it. -/
lemma pullStep_holds [Arithmetic] {o : ServerOp} (h : RaceHolds req scan st φs)
    (hallowed : PullPhase.allowed req (φs none) o) {scan' : Option (List OplogEntry)}
    (hscan : (∃ first limit, o = .readSince first limit ∧ scan' = some (toEntries st.oplog) ∧
        (toEntries st.oplog).countP (fun e => req.sinceCheckpoint < e.seq) < 1000) ∨
      (∀ first limit, o ≠ .readSince first limit) ∧ scan' = scan)
    (hread : ∀ request candidates, o = .readPath request candidates →
      ControlPlane.isReject (cp.readPath request candidates st.hooks).1.1 = false ∧
        Admits candidates (cp.readPath request candidates st.hooks).1.2)
    (hgate : ∀ tenantId nameSpace, o = .containmentGate tenantId nameSpace →
      (st.containmentGate tenantId nameSpace).1 = none) :
    ∃ ψ, PullPhase.next (φs none) o (st.perform cp o).1 ψ ∧
      RaceHolds req scan' (st.perform cp o).2 (Function.update φs none ψ) := by
  have hlatest : (st.perform cp o).2.scopedLatest = st.scopedLatest := by
    refine perform_latest (fun seq m ho => ?_) st
    rw [ho] at hallowed
    cases hφ : φs none with
    | fresh => rw [hφ] at hallowed; exact hallowed
    | scanned page => rw [hφ] at hallowed; exact hallowed
    | answered page n => rw [hφ] at hallowed; exact hallowed
  -- the pushes are where they were
  suffices hphase : ∃ ψ, PullPhase.next (φs none) o (st.perform cp o).1 ψ ∧
      PullHolds req (st.perform cp o).2 scan' ψ by
    obtain ⟨ψ, hnext, hpull⟩ := hphase
    refine ⟨ψ, hnext, ?_, ?_, ?_⟩
    · intro scope s hs
      rw [hlatest] at hs
      exact perform_numbered o (h.latest scope s hs)
    · intro j seq m hj
      rw [Function.update_of_ne (Option.some_ne_none j)] at hj
      exact perform_numbered o (h.stored j seq m hj)
    · rw [Function.update_self]
      exact hpull
  have hpull := h.pull
  cases hφ : φs none with
  | fresh =>
    rw [hφ] at hallowed
    cases o with
    | readSince first limit =>
      obtain ⟨hfirst, rfl⟩ := hallowed
      obtain ⟨-, hscan, hfew⟩ : _ ∧ scan' = some (toEntries st.oplog) ∧ _ := by
        rcases hscan with ⟨_, _, -, hscan, hfew⟩ | ⟨hno, -⟩
        · exact ⟨trivial, hscan, hfew⟩
        · exact absurd rfl (hno first pageLimit)
      exact readSince_holds hfirst hscan hfew
    | _ => exact hallowed.elim
  | scanned page =>
    rw [hφ] at hallowed hpull
    have hsame : scan' = scan := by
      rcases hscan with ⟨first, limit, rfl, -, -⟩ | ⟨-, hscan⟩
      · exact hallowed.elim
      · exact hscan
    have hframe : PullHolds req (st.perform cp o).2 scan' (.scanned page) := by
      rw [hsame]
      exact PullHolds.frame hpull h.latest (perform_extends cp o st) hlatest
    cases o with
    | readPath request candidates =>
      exact ⟨_, ⟨rfl, hread request candidates rfl⟩, hframe⟩
    | containmentGate tenantId nameSpace =>
      exact ⟨_, ⟨rfl, hgate tenantId nameSpace rfl⟩, hframe⟩
    | checkpoint tenantId nameSpace =>
      obtain ⟨rfl, rfl⟩ := hallowed
      refine ⟨_, rfl, h.latest.numbered _ _, fun e he hdue => ?_⟩
      obtain ⟨es, -, hpage, hscanned⟩ := hpull
      exact hpage e (hscanned e he hdue) hdue.after
    | countAudit => exact ⟨_, rfl, hframe⟩
    | registerDecisionOutcome tenantId nameSpace d => exact ⟨_, rfl, hframe⟩
    | appendAudit e => exact ⟨_, rfl, hframe⟩
    | _ => exact hallowed.elim
  | answered page n =>
    rw [hφ] at hallowed
    exact hallowed.elim

/-- Each request of the race is somewhere in its protocol. -/
def RaceOrderly [Arithmetic] (req : PullRequest) (s : Race ω η κ) : Prop :=
  ∃ φs, s.pool.Tracked (raceProtocol req) (racePost req) φs ∧
    RaceHolds req s.scan s.pool.shared φs

lemma raceStep_orderly [Arithmetic] {s : Race ω η κ} (h : RaceOrderly req s) {i : Option κ}
    (hserves : Serves cp req s i) : RaceOrderly req (raceStep cp s i) := by
  obtain ⟨φs, htracked, hholds⟩ := h
  refine Pool.step_tracked (perform cp) htracked ?_ ?_
  · intro hhead
    have hscan : (raceStep cp s i).scan = s.scan := by
      rw [raceStep, hhead]
    rw [hscan]
    exact hholds
  · intro o hhead hallowed
    have hserves : ServesBy cp req s i o := hserves o hhead
    cases i with
    | some j =>
      have hallowed : PushPhase.allowed (φs (some j)) o := hallowed
      have hscan : (raceStep cp s (some j)).scan = s.scan := by
        rw [raceStep, hhead]
        cases o with
        | readSince first limit => cases hφ : φs (some j) <;> rw [hφ] at hallowed <;> cases hallowed
        | _ => rfl
      rw [hscan]
      refine ⟨_, rfl, pushStep_holds hholds hallowed ?_⟩
      intro page seq m hφ ho hscope
      rw [ho] at hserves
      have hpull := htracked none
      rw [hφ] at hpull
      exact hserves (scanned_head_ne_none hpull) hscope
    | none =>
      refine pullStep_holds hholds hallowed ?_ ?_ ?_
      · rw [raceStep, hhead]
        cases o with
        | readSince first limit => exact .inl ⟨first, limit, rfl, rfl, hserves⟩
        | _ => exact .inr ⟨fun _ _ => ServerOp.noConfusion, rfl⟩
      · intro request candidates ho
        rw [ho] at hserves
        exact hserves
      · intro tenantId nameSpace ho
        rw [ho] at hserves
        exact hserves rfl

end

/-! ## Races on a server -/

section
variable {ω η : Type} [LogOplog ω] {st st' : ServerState ω η}

lemma LatestStored.appends (h : st.LatestStored) {e : OplogEntry} (happ : Appends st st' e) :
    st'.LatestStored := by
  have hold : ∀ scope s, st.scopedLatest scope = some s →
      ∃ x ∈ toEntries st'.oplog, x.seq = s := by
    intro scope s hs
    obtain ⟨x, hx, hseq⟩ := h scope s hs
    rw [happ.entries]
    exact ⟨x, List.mem_append_left _ hx, hseq⟩
  have hnew : ∃ x ∈ toEntries st'.oplog, x.seq = e.seq := by
    rw [happ.entries]
    exact ⟨e, List.mem_append_right _ (List.mem_singleton_self e), rfl⟩
  intro scope s hs
  rw [happ.latest, indexMutation] at hs
  split_ifs at hs with hcollection
  · exact hold scope s hs
  · exact latest_update hold hnew _ scope s hs

lemma LatestStored.grows {P : Mutation → Prop} (h : st.LatestStored) (hgrows : Grows P st st') :
    st'.LatestStored := by
  induction hgrows with
  | same hsame =>
    intro scope s hs
    rw [hsame.latest] at hs
    rw [hsame.entries]
    exact h scope s hs
  | append e _ happ => exact h.appends happ
  | trans _ _ ih ih' => exact ih' (ih h)

lemma LatestStored.foldl {es : List OplogEntry} (h : st.LatestStored)
    (hes : ∀ e ∈ es, e ∈ toEntries st.oplog) :
    (es.foldl (fun st e => st.indexMutation e.seq e.mutation) st).LatestStored := by
  induction es generalizing st with
  | nil => exact h
  | cons e rest ih =>
    rw [List.foldl_cons]
    refine ih (fun scope s hs => ?_) fun x hx => ?_
    · rw [indexMutation_oplog]
      rw [indexMutation] at hs
      split_ifs at hs with hcollection
      · exact h scope s hs
      · exact latest_update h ⟨e, hes e List.mem_cons_self, rfl⟩ _ scope s hs
    · rw [indexMutation_oplog]
      exact hes x (List.mem_cons_of_mem _ hx)

lemma withControlPlane_latestStored (w : ω) (hooks : η) (tick : ℕ) :
    (withControlPlane w hooks tick).LatestStored := by
  have hstart : (unindexed w hooks tick).LatestStored := fun _ _ hs => nomatch hs
  rw [withControlPlane]
  split
  · exact hstart
  · next latest hlatest =>
    split_ifs
    · exact hstart
    · split
      · exact hstart
      · next es hread =>
        refine hstart.foldl fun e he => ?_
        rw [LogOplog.readSince_ok _ _ _ _ (Nat.succ_pos _) hread] at he
        exact List.mem_of_mem_filter (List.mem_of_mem_take he)

variable [Formatting] [Surroundings] [Arithmetic] (cp : ControlPlane η)

/-- In every run the numbers of the index are those of entries. -/
lemma run_latestStored (w : ω) (hooks : η) (tick : ℕ) (events : List (ServerEvent η)) :
    ((withControlPlane w hooks tick).run cp events).LatestStored := by
  have hstep : ∀ (st : ServerState ω η) (ev : ServerEvent η), st.LatestStored →
      (st.step cp ev).LatestStored := by
    intro st ev h
    by_cases hev : ∃ hooks, ev = .restart hooks
    · obtain ⟨hooks, rfl⟩ := hev
      exact withControlPlane_latestStored st.oplog hooks st.tick
    · exact h.grows (step_grows (P := fun _ => True) cp (fun _ _ _ _ _ _ _ _ => trivial)
        (fun _ _ => trivial) (fun hooks heq => hev ⟨hooks, heq⟩) st)
  exact Runs.invariant hstep events (withControlPlane_latestStored w hooks tick)

variable {κ : Type} [DecidableEq κ]

/-- **A pull among pushes loses nothing.** A server answers requests one after another, then one
State-tier pull of a node of its tenant and any number of pushes concurrently, whose steps
interleave in any order. When every step serves the pull, a response of the pull has the mutation
of every entry that is due up to its checkpoint. -/
theorem concurrent_pull_complete (w : ω) (hooks : η) (tick : ℕ) (events : List (ServerEvent η))
    (req : PullRequest) (principal : AuthPrincipal) (hnode : principal.nodeId = req.nodeId)
    (htenant : principal.tenantId = req.tenantId) (requests : κ → PushRequest × AuthPrincipal)
    (schedule : List (Option κ))
    (hserves : Runs.All (raceStep cp) (Serves cp req)
      (race ((withControlPlane w hooks tick).run cp events) req principal requests) schedule)
    {resp : PullResponse}
    (hresp : ((schedule.foldl (raceStep cp) (race ((withControlPlane w hooks tick).run cp events)
      req principal requests)).pool.threads none).result = some (.ok resp)) :
    ∀ e ∈ toEntries (schedule.foldl (raceStep cp) (race ((withControlPlane w hooks tick).run cp
        events) req principal requests)).pool.shared.oplog,
      Due req resp.newCheckpoint e → e.mutation ∈ resp.mutations := by
  have hstart : RaceOrderly req (race ((withControlPlane w hooks tick).run cp events) req
      principal requests) := by
    refine ⟨fun | none => PullPhase.fresh | some _ => PushPhase.idle, ?_, ?_⟩
    · rintro (_ | j)
      · exact Atomic.processPull_follows hnode htenant
      · exact Atomic.processPush_idles (requests j).1 (requests j).2
    · refine ⟨run_latestStored cp w hooks tick events, fun _ _ _ hj => ?_, trivial⟩
      cases hj
  have hstep : ∀ (s : Race ω η κ) i, RaceOrderly req s → Serves cp req s i →
      RaceOrderly req (raceStep cp s i) := fun _ _ h hclean => raceStep_orderly h hclean
  obtain ⟨φs, htracked, hholds⟩ := hserves.invariant hstep hstart
  have hend := htracked none
  rw [Prog.result_eq_some.mp hresp] at hend
  obtain ⟨page, hanswered, hmutations⟩ : PullPhase.post req (φs none) (.ok resp) := hend
  have hpull := hholds.pull
  rw [hanswered] at hpull
  intro e he hdue
  refine hmutations e (hpull.2 e he hdue) ?_ hdue.patch
  simp [inPullScope, mutationVisibleForTier, hdue.tenantId, hdue.nameSpace, hdue.notAudit,
    hdue.notSemantic]

end

/-! ## Two races -/

section
variable {ω η κ : Type} [LogOplog ω] [Formatting] [Surroundings] [DecidableEq κ]

instance (req : PullRequest) (n : ℕ) (e : OplogEntry) : Decidable (Due req n e) :=
  decidable_of_iff (e.mutation.metadata.tenantId = req.tenantId ∧
      e.mutation.metadata.nameSpace = req.nameSpace ∧ e.mutation.patch ≠ none ∧
      e.mutation.metadata.type ≠ auditType ∧ e.mutation.metadata.type ≠ "semantic_projection" ∧
      req.sinceCheckpoint < e.seq ∧ e.seq ≤ n)
    ⟨fun ⟨h₁, h₂, h₃, h₄, h₅, h₆, h₇⟩ => ⟨h₁, h₂, h₃, h₄, h₅, h₆, h₇⟩,
      fun h => ⟨h.tenantId, h.nameSpace, h.patch, h.notAudit, h.notSemantic, h.after, h.upTo⟩⟩

instance (candidates filtered : List Document) : Decidable (Admits candidates filtered) :=
  inferInstanceAs (Decidable (∀ c ∈ candidates, ∃ c' ∈ filtered,
    candidateIdentity c' = candidateIdentity c))

instance (cp : ControlPlane η) (req : PullRequest) (s : Race ω η κ) (i : Option κ) :
    DecidablePred (ServesBy cp req s i)
  | .readSince .. => inferInstanceAs (Decidable (_ < 1000))
  | .readPath .. => inferInstanceAs (Decidable (_ = false ∧ Admits _ _))
  | .containmentGate .. => inferInstanceAs (Decidable (i = none → _ = none))
  | .indexLatest seq m =>
    inferInstanceAs (Decidable ((s.pool.threads none).head ≠ none →
      scopeOf m = (req.tenantId, req.nameSpace) → ∀ scanned ∈ s.scan,
        ∀ e ∈ toEntries s.pool.shared.oplog, Due req seq e → e ∈ scanned))
  | .countNonOwnerRejection | .countCrossTenantRejection | .registerDecisionOutcome ..
  | .writePath .. | .countAudit | .appendAudit _ | .lookup .. | .appendRemote _
  | .indexWriteId .. | .checkpoint .. => .isTrue trivial

instance (cp : ControlPlane η) (req : PullRequest) (s : Race ω η κ) (i : Option κ) :
    Decidable (Serves cp req s i) :=
  inferInstanceAs (Decidable (∀ o ∈ (s.pool.threads i).head, ServesBy cp req s i o))

end
end ServerState

section
attribute [local instance] Formatting.sample Surroundings.sample Arithmetic.sample

/-- A pull and a push of one insert in its scope. -/
def sampleRace : Race MemLog Unit Unit :=
  ServerState.race sampleServer samplePull samplePrincipal fun _ =>
    (samplePush [sampleClientInsert], samplePrincipal)

/-- The race after a schedule. -/
def sampleRaceAfter (schedule : List (Option Unit)) : Race MemLog Unit Unit :=
  schedule.foldl (ServerState.raceStep ControlPlane.default) sampleRace

/-- The push is answered before the pull begins. -/
def samplePushFirst : List (Option Unit) := List.replicate 10 (some ()) ++ List.replicate 7 none

/-- Then the pull returns its mutation. -/
theorem ServerState.concurrent_pull_complete_sample :
    ((sampleRaceAfter samplePushFirst).pool.threads none).result =
        some (.ok ⟨[sampleClientInsert], 2, [⟨.allow, "retrieval_allowed"⟩]⟩) ∧
      ∀ e ∈ toEntries (sampleRaceAfter samplePushFirst).pool.shared.oplog,
        ServerState.Due samplePull 2 e → e.mutation ∈ [sampleClientInsert] := by
  have hresp : ((sampleRaceAfter samplePushFirst).pool.threads none).result =
      some (.ok ⟨[sampleClientInsert], 2, [⟨.allow, "retrieval_allowed"⟩]⟩) := by decide +kernel
  refine ⟨hresp, ?_⟩
  exact ServerState.concurrent_pull_complete ControlPlane.default MemLog.new () 0 []
    samplePull samplePrincipal rfl rfl
    (fun _ : Unit => (samplePush [sampleClientInsert], samplePrincipal)) samplePushFirst
    (by decide +kernel) hresp

/-- The push comes between the scan of the pull and its checkpoint. -/
def samplePushBetween : List (Option Unit) :=
  none :: (List.replicate 10 (some ()) ++ List.replicate 6 none)

/-- **The push is lost.** The pull returns a checkpoint behind the pushed mutation, and not the
mutation. -/
theorem pushed_between_lost :
    ((sampleRaceAfter samplePushBetween).pool.threads none).result =
        some (.ok ⟨[], 2, [⟨.allow, "retrieval_allowed"⟩]⟩) ∧
      ∃ e ∈ toEntries (sampleRaceAfter samplePushBetween).pool.shared.oplog,
        ServerState.Due samplePull 2 e ∧ e.mutation ∉ ([] : List Mutation) := by
  decide +kernel

end
end Rango
