import Rango.Server.Retrieval
import Mathlib.Data.List.Perm.Subperm

/-!
# What a retrieval returns

The ranking is a function of the candidates alone, whichever adapter has found them
(`rank_order_independent`), and the response is the part of it that the control plane lets through:
exactly the candidates whose payloads the bounded context keeps (`retrieval_respects_context`), and
with the default control plane the best ones (`retrieval_returns_best`).
-/

namespace Rango

open StableSort

/-! ## The order of the ranking -/

/-- The scores of the candidates can be compared. -/
def Scorable (l : List RetrievalCandidate) : Prop := ∀ c ∈ l, c.score.isNaN = false

variable {a b c : RetrievalCandidate} {l : List RetrievalCandidate}

lemma rankOrder_eq (ha : a.score.isNaN = false) (hb : b.score.isNaN = false) :
    rankOrder a b =
      (compare b.score.rank a.score.rank).then (compare a.candidateId b.candidateId) := by
  rw [rankOrder, F64.partialCmp, ha, hb]
  rfl

/-- `a` may stand before `b`: its score is better, or the same and its id no greater. -/
lemma rankOrder_ne_gt_iff (ha : a.score.isNaN = false) (hb : b.score.isNaN = false) :
    rankOrder a b ≠ .gt ↔ b.score.rank < a.score.rank ∨
      b.score.rank = a.score.rank ∧ a.candidateId ≤ b.candidateId := by
  rw [rankOrder_eq ha hb]
  rcases lt_trichotomy b.score.rank a.score.rank with hlt | heq | hgt
  · rw [compare_lt_iff_lt.mpr hlt]
    simp [hlt]
  · rw [compare_eq_iff_eq.mpr heq, Ordering.then, ← compare_le_iff_le]
    simp [heq]
  · rw [compare_gt_iff_gt.mpr hgt]
    simp [hgt.not_gt, hgt.ne']

/-- Candidates that tie have the same score and the same id. -/
lemma rankOrder_eq_eq_iff (ha : a.score.isNaN = false) (hb : b.score.isNaN = false) :
    rankOrder a b = .eq ↔ b.score.rank = a.score.rank ∧ a.candidateId = b.candidateId := by
  rw [rankOrder_eq ha hb]
  rcases lt_trichotomy b.score.rank a.score.rank with hlt | heq | hgt
  · rw [compare_lt_iff_lt.mpr hlt]
    simp [hlt.ne]
  · rw [compare_eq_iff_eq.mpr heq, Ordering.then, compare_eq_iff_eq]
    simp [heq]
  · rw [compare_gt_iff_gt.mpr hgt]
    simp [hgt.ne']

lemma rankOrder_consistent (h : Scorable l) : Consistent rankOrder l where
  swap a ha b hb := by
    rw [rankOrder_eq (h a ha) (h b hb), rankOrder_eq (h b hb) (h a ha), Ordering.swap_then,
      ← Std.OrientedCmp.eq_swap, ← Std.OrientedCmp.eq_swap]
  trans a ha b hb c hc hab hbc := by
    rw [rankOrder_ne_gt_iff (h a ha) (h b hb)] at hab
    rw [rankOrder_ne_gt_iff (h b hb) (h c hc)] at hbc
    rw [rankOrder_ne_gt_iff (h a ha) (h c hc)]
    rcases hab with hab | ⟨hab, habId⟩
    · rcases hbc with hbc | ⟨hbc, -⟩
      · exact Or.inl (hbc.trans hab)
      · exact Or.inl (hbc ▸ hab)
    · rcases hbc with hbc | ⟨hbc, hbcId⟩
      · exact Or.inl (hab ▸ hbc)
      · exact Or.inr ⟨hbc.trans hab, habId.trans hbcId⟩

/-! ## Ranked candidates -/

/-- Only a candidate and itself have the same id and the same score. -/
def ToldApart (l : List RetrievalCandidate) : Prop :=
  ∀ a ∈ l, ∀ b ∈ l, a.candidateId = b.candidateId → a.score.rank = b.score.rank → a = b

lemma ToldApart.of_nodup (h : (l.map RetrievalCandidate.candidateId).Nodup) :
    ToldApart l :=
  fun _ ha _ hb hid _ => List.inj_on_of_nodup_map h ha hb hid

section
variable [Arithmetic] [Multiplication] [CandidateSort]

omit [CandidateSort] in
/-- A second scoring gives the same score. -/
@[simp] lemma RetrievalCandidate.scored_scored (c : RetrievalCandidate) :
    c.scored.scored = c.scored := rfl

/-- A ranking that does not panic returns every candidate with its score, in order. -/
lemma rankCandidatesV1_sorted (h : Scorable (l.map .scored)) :
    ∃ r, rankCandidatesV1 l = .ok r ∧ StableSorted rankOrder (l.map .scored) r :=
  CandidateSort.sorts (rankOrder_consistent h)

/-- **The ranking.** Of candidates whose scores can be compared and of which no two have the same
score and id, the ranking does not depend on the order in which the adapters return them. It has
each candidate with its score, better scores first and equal ones by id, and ranking it again
changes nothing. -/
theorem rank_order_independent {l l' : List RetrievalCandidate} (hperm : l.Perm l')
    (hscores : Scorable (l.map .scored)) (hties : ToldApart (l.map .scored)) :
    ∃ r, rankCandidatesV1 l = .ok r ∧ rankCandidatesV1 l' = .ok r ∧ rankCandidatesV1 r = .ok r ∧
      r.Perm (l.map .scored) ∧
      r.Pairwise fun a b => b.score.lt a.score = true ∨
        a.score.rank = b.score.rank ∧ a.candidateId ≤ b.candidateId := by
  obtain ⟨r, hr, hsorted⟩ := rankCandidatesV1_sorted hscores
  -- any list with these candidates, scored, is put in the order of `r`
  have hunique : ∀ l₁ : List RetrievalCandidate, (l₁.map RetrievalCandidate.scored).Perm
      (l.map .scored) → rankCandidatesV1 l₁ = .ok r := by
    intro l₁ hl₁
    obtain ⟨r₁, hr₁, hsorted₁⟩ := rankCandidatesV1_sorted (l := l₁)
      fun c hc => hscores c (hl₁.mem_iff.mp hc)
    rw [hr₁]
    refine congrArg Except.ok (List.Perm.eq_of_pairwise ?_ hsorted₁.sorted hsorted.sorted
      (hsorted₁.perm.trans (hl₁.trans hsorted.perm.symm)))
    intro a b ha hb hab hba
    have ha' : a ∈ l.map .scored := hl₁.mem_iff.mp (hsorted₁.perm.mem_iff.mp ha)
    have hb' : b ∈ l.map .scored := hsorted.perm.mem_iff.mp hb
    have htie : rankOrder a b = .eq := (rankOrder_consistent hscores).antisymm ha' hb' hab hba
    obtain ⟨hscore, hid⟩ := (rankOrder_eq_eq_iff (hscores a ha') (hscores b hb')).mp htie
    exact hties a ha' b hb' hid hscore.symm
  have hscored : r.map RetrievalCandidate.scored = r := by
    refine (List.map_congr_left fun c hc => ?_).trans (List.map_id r)
    obtain ⟨c, -, rfl⟩ := List.mem_map.mp (hsorted.perm.mem_iff.mp hc)
    rfl
  refine ⟨r, hr, hunique l' (hperm.symm.map _), hunique r ?_, hsorted.perm, ?_⟩
  · rw [hscored]
    exact hsorted.perm
  · refine hsorted.sorted.imp_of_mem fun {a b} ha hb hab => ?_
    have ha' : a.score.isNaN = false := hscores a (hsorted.perm.mem_iff.mp ha)
    have hb' : b.score.isNaN = false := hscores b (hsorted.perm.mem_iff.mp hb)
    rcases (rankOrder_ne_gt_iff ha' hb').mp hab with hlt | ⟨heq, hid⟩
    · exact Or.inl (by simp [F64.lt, ha', hb', hlt])
    · exact Or.inr ⟨heq.symm, hid⟩

end

/-! ## What the control plane keeps -/

section
variable {η : Type} {cp : ControlPlane η} {request : ReadRequest} {docs : List Document}
  {hooks : η}

/-- A read path keeps nothing, or what the bounded-context hook returns, up to the limit. -/
lemma ControlPlane.readPath_cases :
    (cp.readPath request docs hooks).1.2 = [] ∨
      ∃ hooks', (cp.readPath request docs hooks).1.2 =
        (cp.boundedContext request docs hooks').1.take request.limit := by
  unfold readPath
  cases validateReadRequest request with
  | error d => exact Or.inl rfl
  | ok _ =>
    dsimp only
    split_ifs
    · exact Or.inl rfl
    · exact Or.inr ⟨_, rfl⟩

lemma ControlPlane.length_readPath_le :
    (cp.readPath request docs hooks).1.2.length ≤ request.limit := by
  rcases readPath_cases  with
    hnil | ⟨hooks', htake⟩
  · rw [hnil]
    exact Nat.zero_le _
  · rw [htake]
    exact List.length_take_le _ _

/-- With hooks that add no documents, it adds none. -/
lemma ControlPlane.readPath_subset
    (hcontext : ∀ request docs hooks, (cp.boundedContext request docs hooks).1 ⊆ docs) :
    (cp.readPath request docs hooks).1.2 ⊆ docs := by
  rcases readPath_cases  with
    hnil | ⟨hooks', htake⟩
  · rw [hnil]
    exact List.nil_subset _
  · rw [htake]
    exact List.Subset.trans (List.take_subset _ _) (hcontext _ _ _)

end

/-! ## Payloads and ids -/

/-- Every candidate's payload carries its id. -/
def Identified (l : List RetrievalCandidate) : Prop :=
  ∀ c ∈ l, c.payload.getStr "candidate_id" = some c.candidateId

/-- The ids among the payloads of identified candidates are theirs. -/
lemma filteredIds_map_payload (h : Identified l) :
    filteredIds (l.map RetrievalCandidate.payload) = l.map RetrievalCandidate.candidateId := by
  rw [filteredIds, List.filterMap_map, ← List.filterMap_eq_map]
  exact List.filterMap_congr fun c hc => h c hc

/-- Of candidates with ids of their own, the ids of some payloads select those with these
payloads. -/
lemma boundedRanked_eq {limit : ℕ} {filtered : List Document} (hpayload : Identified l)
    (hids : (l.map RetrievalCandidate.candidateId).Nodup)
    (hsub : filtered ⊆ l.map RetrievalCandidate.payload) (hlen : filtered.length ≤ limit) :
    boundedRanked limit filtered l = l.filter (fun c => c.payload ∈ filtered) ∧
      (l.filter fun c => c.payload ∈ filtered).length ≤ limit := by
  have hmem : ∀ c ∈ l, c.candidateId ∈ filteredIds filtered ↔ c.payload ∈ filtered := by
    intro c hc
    rw [filteredIds, List.mem_filterMap]
    constructor
    · rintro ⟨doc, hdoc, hid⟩
      obtain ⟨c', hc', rfl⟩ := List.mem_map.mp (hsub hdoc)
      have heq : c'.candidateId = c.candidateId :=
        Option.some.inj ((hpayload c' hc').symm.trans hid)
      rw [← List.inj_on_of_nodup_map hids hc' hc heq]
      exact hdoc
    · intro hdoc
      exact ⟨c.payload, hdoc, hpayload c hc⟩
  have hfilter : (l.filter fun c => c.candidateId ∈ filteredIds filtered) =
      l.filter fun c => c.payload ∈ filtered :=
    List.filter_congr fun c hc => by rw [decide_eq_decide, hmem c hc]
  -- as many ids as candidates, each of a payload that was kept
  have hle : (l.filter fun c => c.payload ∈ filtered).length ≤ limit := by
    have hnodup : ((l.filter fun c => c.payload ∈ filtered).map
        RetrievalCandidate.candidateId).Nodup := hids.sublist (List.filter_sublist.map _)
    have hsubset : (l.filter fun c => c.payload ∈ filtered).map RetrievalCandidate.candidateId ⊆
        filteredIds filtered := by
      intro id hid
      obtain ⟨c, hc, rfl⟩ := List.mem_map.mp hid
      obtain ⟨hin, hkept⟩ := List.mem_filter.mp hc
      exact (hmem c hin).mpr (by simpa using hkept)
    have hlength := (hnodup.subperm hsubset).length_le
    rw [List.length_map] at hlength
    exact hlength.trans ((List.length_filterMap_le _ _).trans hlen)
  refine ⟨?_, hle⟩
  rw [boundedRanked, hfilter, List.take_of_length_le hle]

/-- A filter that passes the first elements leaves them first. -/
lemma take_filter_of_forall {α : Type} {p : α → Bool} {n : ℕ} {l : List α}
    (h : ∀ x ∈ l.take n, p x = true) : (l.filter p).take n = l.take n := by
  induction l generalizing n with
  | nil => rfl
  | cons x rest ih =>
    cases n with
    | zero => rfl
    | succ n =>
      rw [List.take_succ_cons] at h
      rw [List.filter_cons_of_pos (h x List.mem_cons_self), List.take_succ_cons,
        List.take_succ_cons, ih fun y hy => h y (List.mem_cons_of_mem x hy)]

/-- The ids of the first payloads select the first candidates. -/
lemma boundedRanked_take {limit : ℕ} (hpayload : Identified l) :
    boundedRanked limit ((l.map RetrievalCandidate.payload).take limit) l = l.take limit := by
  have htake : Identified (l.take limit) := fun c hc => hpayload c (List.mem_of_mem_take hc)
  rw [← List.map_take, boundedRanked, filteredIds_map_payload htake]
  refine take_filter_of_forall fun c hc => ?_
  rw [decide_eq_true_eq]
  exact List.mem_map_of_mem hc

/-- The reference adapters find candidates of the tenant and namespace asked for, with ids of their
own in their payloads. -/
lemma reference_candidates {vectorAvailable graphAvailable : Bool} {now now' : ℤ}
    {req : RetrievalCapabilityRequest}
    (h : (RetrievalRuntime.reference vectorAvailable graphAvailable now now').retrieve req =
      .ok l) :
    Identified l ∧ (l.map RetrievalCandidate.candidateId).Nodup ∧
      ∀ c ∈ l, c.tenantId = req.tenantId ∧ c.nameSpace = req.nameSpace := by
  have hmock : ∀ id source signals now, (mockCandidate req id source signals now).payload.getStr
      "candidate_id" = some (mockCandidate req id source signals now).candidateId := by
    intro id source signals now
    show (Document.getStr ((Document.empty.insert "candidate_id" (.string id)).insert "text"
      (.string req.query)) "candidate_id") = some id
    rw [Document.getStr, Document.get_insert_of_ne _ _ (by decide), Document.get_insert_self]
  -- without either adapter nothing is found
  cases vectorAvailable <;> cases graphAvailable
  · cases h
  all_goals
    obtain rfl := Except.ok.inj h
    exact ⟨by simp [Identified, hmock], by simp [mockCandidate], by simp [mockCandidate]⟩

/-! ## Responses -/

namespace ServerState

variable {ω η : Type} [Formatting] [Surroundings] [Oplog ω] [Arithmetic] [Multiplication]
  [CandidateSort] {cp : ControlPlane η} {st : ServerState ω η} {runtime : RetrievalRuntime}
  {req : RetrievalCapabilityRequest} {principal : AuthPrincipal}
  {candidates : List RetrievalCandidate}

/-- The handler of a server without adapters. -/
theorem handleRetrievalReadOn_fallback (st : ServerState ω η) (req : RetrievalCapabilityRequest)
    (principal : AuthPrincipal) :
    st.handleRetrievalReadOn cp .fallbackOnly req principal =
      ((st.handleRetrievalRead ⟨req.tenantId, req.nameSpace⟩ principal).1.map
          fun r => ⟨r.status, r.retrievalStatusReason, r.canonicalFallback, []⟩,
        (st.handleRetrievalRead ⟨req.tenantId, req.nameSpace⟩ principal).2) := by
  unfold handleRetrievalReadOn handleRetrievalRead
  split_ifs
  · rfl
  · rfl

/-- The response to a request with candidates that can be ranked. -/
lemma handleRetrievalReadOn_eq (hprincipal : principal.tenantId = req.tenantId)
    (hfound : runtime.retrieve req = .ok candidates) {ranked : List RetrievalCandidate}
    (hranked : rankCandidatesV1 candidates = .ok ranked) :
    let read := (cp.readPath (retrievalReadRequest req) (ranked.map RetrievalCandidate.payload)
      st.hooks).1
    (st.handleRetrievalReadOn cp runtime req principal).1 =
      .ok ⟨.healthy, read.1.reason, false, boundedRanked req.limit read.2 ranked⟩ := by
  unfold handleRetrievalReadOn
  rw [if_neg (not_not.mpr hprincipal), hfound]
  dsimp only
  rw [hranked]
  rfl

/-- **The bounded context holds.** For candidates whose scores can be compared, each with an id of
its own that its payload carries, and hooks that add no documents: whatever the control plane and
its state, the response has exactly the candidates whose payloads the read path keeps, best first,
and no more than asked for. -/
theorem retrieval_respects_context (hprincipal : principal.tenantId = req.tenantId)
    (hfound : runtime.retrieve req = .ok candidates) (hscores : Scorable (candidates.map .scored))
    (hids : (candidates.map RetrievalCandidate.candidateId).Nodup)
    (hpayload : Identified candidates)
    (hcontext : ∀ request docs hooks, (cp.boundedContext request docs hooks).1 ⊆ docs) :
    ∃ ranked : List RetrievalCandidate, ranked.Perm (candidates.map RetrievalCandidate.scored) ∧
      ranked.Pairwise (fun a b => rankOrder a b ≠ .gt) ∧
      let read := (cp.readPath (retrievalReadRequest req) (ranked.map RetrievalCandidate.payload)
        st.hooks).1
      let kept := ranked.filter fun c => c.payload ∈ read.2
      (st.handleRetrievalReadOn cp runtime req principal).1 =
          .ok ⟨.healthy, read.1.reason, false, kept⟩ ∧ kept.length ≤ req.limit := by
  obtain ⟨ranked, hranked, hsorted⟩ := rankCandidatesV1_sorted hscores
  have hpayload' : Identified ranked := by
    intro c hc
    obtain ⟨c, hin, rfl⟩ := List.mem_map.mp (hsorted.perm.mem_iff.mp hc)
    exact hpayload c hin
  have hids' : (ranked.map RetrievalCandidate.candidateId).Nodup := by
    refine (hsorted.perm.map _).nodup_iff.mpr ?_
    rw [List.map_map]
    exact hids
  have hsub : (cp.readPath (retrievalReadRequest req) (ranked.map RetrievalCandidate.payload)
      st.hooks).1.2 ⊆ ranked.map RetrievalCandidate.payload := ControlPlane.readPath_subset hcontext
  have hlen : (cp.readPath (retrievalReadRequest req) (ranked.map RetrievalCandidate.payload)
      st.hooks).1.2.length ≤ req.limit := ControlPlane.length_readPath_le
  obtain ⟨hkept, hle⟩ := boundedRanked_eq hpayload' hids' hsub hlen
  refine ⟨ranked, hsorted.perm, hsorted.sorted, ?_, hle⟩
  rw [handleRetrievalReadOn_eq hprincipal hfound hranked, hkept]

/-- **The best are returned.** The default control plane lets a valid request have the first
candidates of the ranking, up to its limit: none that it leaves out has a better score than one
that it returns. -/
theorem retrieval_returns_best {st : ServerState ω Unit}
    (hprincipal : principal.tenantId = req.tenantId)
    (hvalid : req.tenantId ≠ "" ∧ req.nameSpace ≠ "" ∧ req.limit ≠ 0)
    (hfound : runtime.retrieve req = .ok candidates) (hscores : Scorable (candidates.map .scored))
    (hpayload : Identified candidates) :
    ∃ best rest : List RetrievalCandidate,
      (best ++ rest).Perm (candidates.map RetrievalCandidate.scored) ∧
      (st.handleRetrievalReadOn .default runtime req principal).1 =
        .ok ⟨.healthy, "retrieval_allowed", false, best⟩ ∧
      best.length = min req.limit candidates.length ∧
      best.Pairwise (fun a b => rankOrder a b ≠ .gt) ∧
      ∀ a ∈ best, ∀ b ∈ rest, a.score.lt b.score = false := by
  obtain ⟨ranked, hranked, hsorted⟩ := rankCandidatesV1_sorted hscores
  have hpayload' : Identified ranked := by
    intro c hc
    obtain ⟨c, hin, rfl⟩ := List.mem_map.mp (hsorted.perm.mem_iff.mp hc)
    exact hpayload c hin
  have hread : (ControlPlane.default.readPath (retrievalReadRequest req)
      (ranked.map RetrievalCandidate.payload) st.hooks).1 =
        (⟨.allow, "retrieval_allowed"⟩,
          (ranked.map RetrievalCandidate.payload).take req.limit) := by
    have hrequest : ControlPlane.validateReadRequest (retrievalReadRequest req) = .ok () := by
      simp [ControlPlane.validateReadRequest, retrievalReadRequest, hvalid]
    unfold ControlPlane.readPath
    rw [hrequest]
    rfl
  have hcut : ranked.take req.limit ++ ranked.drop req.limit = ranked :=
    List.take_append_drop req.limit ranked
  refine ⟨ranked.take req.limit, ranked.drop req.limit, ?_, ?_, ?_, ?_, fun a ha b hb => ?_⟩
  · rw [hcut]
    exact hsorted.perm
  · rw [handleRetrievalReadOn_eq hprincipal hfound hranked, hread, boundedRanked_take hpayload']
  · rw [List.length_take, hsorted.perm.length_eq, List.length_map]
  · exact hsorted.sorted.sublist (List.take_sublist _ _)
  · have hpair := hsorted.sorted
    rw [← hcut] at hpair
    have hab := (List.pairwise_append.mp hpair).2.2 a ha b hb
    have ha' := hscores a (hsorted.perm.mem_iff.mp (List.mem_of_mem_take ha))
    have hb' := hscores b (hsorted.perm.mem_iff.mp (List.mem_of_mem_drop hb))
    -- a later candidate has no better score
    rcases (rankOrder_ne_gt_iff ha' hb').mp hab with hlt | ⟨heq, -⟩
    · simp [F64.lt, hlt.le]
    · simp [F64.lt, heq]

end ServerState

/-! ## A worked example -/

section
attribute [local instance] Formatting.sample Surroundings.sample Arithmetic.sample
  Multiplication.sample CandidateSort.sample

/-- A query for one candidate. -/
def sampleCapability : RetrievalCapabilityRequest := 
  (RetrievalCapabilityRequest.new "t" "ns" "q").withLimit 1

/-- What the reference adapters find for it. -/
def sampleFound : List RetrievalCandidate :=
  ((RetrievalRuntime.reference true true 0 0).retrieve sampleCapability).toOption.getD []

lemma sampleFound_eq :
    (RetrievalRuntime.reference true true 0 0).retrieve sampleCapability = .ok sampleFound := rfl

lemma sampleFound_scorable : Scorable (sampleFound.map .scored) := by
  unfold Scorable
  decide +kernel

/-- For these candidates, the graph adapter's first. -/
theorem rank_order_independent_sample :
    ∃ r, rankCandidatesV1 sampleFound = .ok r ∧ rankCandidatesV1 sampleFound.reverse = .ok r ∧
      rankCandidatesV1 r = .ok r ∧ r.Perm (sampleFound.map .scored) ∧
      r.Pairwise fun a b => b.score.lt a.score = true ∨
        a.score.rank = b.score.rank ∧ a.candidateId ≤ b.candidateId :=
  rank_order_independent (List.reverse_perm _).symm sampleFound_scorable
    (.of_nodup (by
      rw [List.map_map]
      exact (reference_candidates sampleFound_eq).2.1))

/-- For them and the default control plane. -/
theorem ServerState.retrieval_respects_context_sample :
    ∃ ranked : List RetrievalCandidate, ranked.Perm (sampleFound.map RetrievalCandidate.scored) ∧
      ranked.Pairwise (fun a b => rankOrder a b ≠ .gt) ∧
      let st : ServerState MemLog Unit := .withControlPlane MemLog.new () 0
      let read := (ControlPlane.default.readPath (retrievalReadRequest sampleCapability)
        (ranked.map RetrievalCandidate.payload) st.hooks).1
      let kept := ranked.filter fun c => c.payload ∈ read.2
      (st.handleRetrievalReadOn .default (.reference true true 0 0) sampleCapability ⟨"n", "t"⟩).1 =
          .ok ⟨.healthy, read.1.reason, false, kept⟩ ∧ kept.length ≤ sampleCapability.limit :=
  retrieval_respects_context rfl sampleFound_eq sampleFound_scorable
    (reference_candidates sampleFound_eq).2.1 (reference_candidates sampleFound_eq).1
    fun _ _ _ => List.Subset.refl _

/-- The better of the two. -/
theorem ServerState.retrieval_returns_best_sample :
    ∃ best rest : List RetrievalCandidate,
      (best ++ rest).Perm (sampleFound.map RetrievalCandidate.scored) ∧
      ((ServerState.withControlPlane MemLog.new () 0).handleRetrievalReadOn .default
          (.reference true true 0 0) sampleCapability ⟨"n", "t"⟩).1 =
        .ok ⟨.healthy, "retrieval_allowed", false, best⟩ ∧
      best.length = min sampleCapability.limit sampleFound.length ∧
      best.Pairwise (fun a b => rankOrder a b ≠ .gt) ∧
      ∀ a ∈ best, ∀ b ∈ rest, a.score.lt b.score = false :=
  retrieval_returns_best rfl (by decide) sampleFound_eq sampleFound_scorable
    (reference_candidates sampleFound_eq).1

end
end Rango
