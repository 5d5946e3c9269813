import Rango.Core.LocalWrites
import Rango.Lib.StableSort
import Rango.Query.Filter
import Rango.Server.Routes

/-!
# Retrieval

`RetrievalRuntime` asks a vector and a graph adapter for candidates, which are scored, ranked and
put before the control plane. The adapters are outside services, so a runtime is what the two
answer to one request. Every server of `with_control_plane` has `fallback_only`.
-/

namespace Rango

/-! ## Types -/

/-- `RetrievalSource`. -/
inductive RetrievalSource where
  | canonical
  | vector
  | graph
deriving DecidableEq

/-- `RetrievalCapabilityRequest`. -/
structure RetrievalCapabilityRequest where
  tenantId : String
  nameSpace : String
  query : String
  limit : ℕ
  vectorLimit : ℕ
  graphLimit : ℕ
deriving DecidableEq

namespace RetrievalCapabilityRequest

/-- `RetrievalCapabilityRequest::new`. -/
def new (tenantId nameSpace query : String) : RetrievalCapabilityRequest where
  tenantId
  nameSpace
  query
  limit := 20
  vectorLimit := 20
  graphLimit := 20

/-- `RetrievalCapabilityRequest::with_limit`. -/
def withLimit (req : RetrievalCapabilityRequest) (limit : ℕ) : RetrievalCapabilityRequest :=
  { req with limit }

end RetrievalCapabilityRequest

/-- `RankingSignals`. -/
structure RankingSignals where
  relevance : F64
  trust : F64
  recency : F64
  provenance : F64
deriving DecidableEq

/-- `RankingExplainability`. -/
structure RankingExplainability where
  formulaVersion : String
  relevanceWeight : F64
  trustWeight : F64
  recencyWeight : F64
  provenanceWeight : F64
  relevanceComponent : F64
  trustComponent : F64
  recencyComponent : F64
  provenanceComponent : F64
  totalScore : F64
deriving DecidableEq

/-- `RetrievalCandidate`. -/
structure RetrievalCandidate where
  candidateId : String
  tenantId : String
  nameSpace : String
  source : RetrievalSource
  lineage : String
  timestampMs : ℤ
  payload : Document
  signals : RankingSignals
  score : F64
  explainability : Option RankingExplainability
deriving DecidableEq

/-- `RetrievalCapabilityResponse`. -/
structure RetrievalCapabilityResponse where
  status : RetrievalStatus
  retrievalStatusReason : String
  canonicalFallback : Bool
  candidates : List RetrievalCandidate
deriving DecidableEq

/-! ## Ranking -/

/-- The multiplication of doubles. -/
class Multiplication where
  f64Mul : F64 → F64 → F64

/-- The multiplication for worked examples. -/
@[reducible] def Multiplication.sample : Multiplication :=
  ⟨fun x y => ⟨(Float.ofBits x.bits * Float.ofBits y.bits).toBits⟩⟩

/-- `0.35`, `0.30`, `0.20` and `0.15`. -/
def relevanceWeight : F64 := ⟨0x3FD6666666666666⟩
def trustWeight : F64 := ⟨0x3FD3333333333333⟩
def recencyWeight : F64 := ⟨0x3FC999999999999A⟩
def provenanceWeight : F64 := ⟨0x3FC3333333333333⟩

/-- `RANKING_FORMULA_V1`. -/
def rankingFormulaV1 : String := "v1"

/-- `slice::sort_by` on candidates, with the promises of `SliceSort`. -/
class CandidateSort where
  sortBy : (RetrievalCandidate → RetrievalCandidate → Ordering) → List RetrievalCandidate →
    Except Fault (List RetrievalCandidate)
  perm : ∀ {cmp : RetrievalCandidate → RetrievalCandidate → Ordering}
    {l r : List RetrievalCandidate}, sortBy cmp l = .ok r → r.Perm l
  sorts : ∀ {cmp : RetrievalCandidate → RetrievalCandidate → Ordering}
    {l : List RetrievalCandidate}, StableSort.Consistent cmp l →
      ∃ r, sortBy cmp l = .ok r ∧ StableSort.StableSorted cmp l r

/-- A sort for worked examples. -/
@[reducible] def CandidateSort.sample : CandidateSort where
  sortBy cmp l := .ok (l.insertionSort (StableSort.Before cmp))
  perm h := by
    cases h
    exact List.perm_insertionSort _ _
  sorts h := ⟨_, rfl, StableSort.insertionSort_stableSorted h⟩

section
variable [Arithmetic] [Multiplication]

/-- `deterministic_score_v1`. -/
def deterministicScoreV1 (s : RankingSignals) : F64 :=
  Arithmetic.f64Add
    (Arithmetic.f64Add
      (Arithmetic.f64Add (Multiplication.f64Mul relevanceWeight s.relevance)
        (Multiplication.f64Mul trustWeight s.trust))
      (Multiplication.f64Mul recencyWeight s.recency))
    (Multiplication.f64Mul provenanceWeight s.provenance)

/-- A candidate with its score, and how that came about. -/
def RetrievalCandidate.scored (c : RetrievalCandidate) : RetrievalCandidate :=
  { c with
    score := deterministicScoreV1 c.signals
    explainability := some
      { formulaVersion := rankingFormulaV1
        relevanceWeight
        trustWeight
        recencyWeight
        provenanceWeight
        relevanceComponent := Multiplication.f64Mul relevanceWeight c.signals.relevance
        trustComponent := Multiplication.f64Mul trustWeight c.signals.trust
        recencyComponent := Multiplication.f64Mul recencyWeight c.signals.recency
        provenanceComponent := Multiplication.f64Mul provenanceWeight c.signals.provenance
        totalScore := deterministicScoreV1 c.signals } }

/-- The comparison of two scored candidates: the better score first, then by id. Scores that
cannot be compared count as equal. -/
def rankOrder (a b : RetrievalCandidate) : Ordering :=
  ((b.score.partialCmp a.score).getD .eq).then (compare a.candidateId b.candidateId)

/-- `rank_candidates_v1`. -/
def rankCandidatesV1 [CandidateSort] (candidates : List RetrievalCandidate) :
    Except Fault (List RetrievalCandidate) :=
  CandidateSort.sortBy rankOrder (candidates.map RetrievalCandidate.scored)

end

/-! ## Adapters -/

/-- `AdapterErrorKind`. -/
inductive AdapterErrorKind where
  | timeout
  | unavailable
  | unauthorized
  | invalidRequest
  | notConfigured
deriving DecidableEq

/-- `AdapterError`. -/
structure AdapterError where
  kind : AdapterErrorKind
  reason : String
deriving DecidableEq

/-- `AdapterError::unavailable`. -/
def AdapterError.unavailable (reason : String) : AdapterError := ⟨.unavailable, reason⟩

/-- What an adapter answers to a query. -/
abbrev AdapterAnswer := Except AdapterError (List RetrievalCandidate)

/-- `RetrievalRuntime`: what its two adapters answer. -/
structure RetrievalRuntime where
  queryVector : RetrievalCapabilityRequest → AdapterAnswer
  queryGraph : RetrievalCapabilityRequest → AdapterAnswer

namespace RetrievalRuntime

/-- `RetrievalRuntime::fallback_only`. -/
def fallbackOnly : RetrievalRuntime where
  queryVector _ := .error (.unavailable "vector_adapter_unavailable")
  queryGraph _ := .error (.unavailable "graph_adapter_unavailable")

/-- The candidates of an adapter's answer: one that is out of reach or too slow has none. -/
def tolerated : AdapterAnswer → AdapterAnswer
  | .ok items => .ok items
  | .error err => if err.kind = .unavailable ∨ err.kind = .timeout then .ok [] else .error err

/-- `RetrievalRuntime::retrieve`. -/
def retrieve (runtime : RetrievalRuntime) (req : RetrievalCapabilityRequest) : AdapterAnswer :=
  match tolerated (runtime.queryVector req) with
  | .error err => .error err
  | .ok vector =>
    match tolerated (runtime.queryGraph req) with
    | .error err => .error err
    | .ok graph =>
      if (vector ++ graph).isEmpty then .error (.unavailable "adapter_unavailable")
      else .ok (vector ++ graph)

end RetrievalRuntime

/-- The candidate of a reference adapter. -/
def mockCandidate (req : RetrievalCapabilityRequest) (id : String) (source : RetrievalSource)
    (signals : RankingSignals) (now : ℤ) : RetrievalCandidate where
  candidateId := id
  tenantId := req.tenantId
  nameSpace := req.nameSpace
  source := source
  lineage := "mock-lineage"
  timestampMs := now
  payload := (Document.empty.insert "candidate_id" (.string id)).insert "text" (.string req.query)
  signals := signals
  score := ⟨0⟩
  explainability := none

/-- `QdrantAdapter::query_vector`; `now` is the clock's reading. -/
def qdrantQueryVector (available : Bool) (now : ℤ) (req : RetrievalCapabilityRequest) :
    AdapterAnswer :=
  if !available then .error (.unavailable "qdrant_adapter_unavailable")
  -- relevance 0.7, trust 0.8, recency 0.6 and provenance 0.5
  else .ok [mockCandidate req "vector:mock-1" .vector
    ⟨⟨0x3FE6666666666666⟩, ⟨0x3FE999999999999A⟩, ⟨0x3FE3333333333333⟩, ⟨0x3FE0000000000000⟩⟩ now]

/-- `Neo4jAdapter::query_graph`; `now` is the clock's reading. -/
def neo4jQueryGraph (available : Bool) (now : ℤ) (req : RetrievalCapabilityRequest) :
    AdapterAnswer :=
  if !available then .error (.unavailable "neo4j_adapter_unavailable")
  -- relevance 0.65, trust 0.85, recency 0.55 and provenance 0.75
  else .ok [mockCandidate req "graph:mock-1" .graph
    ⟨⟨0x3FE4CCCCCCCCCCCD⟩, ⟨0x3FEB333333333333⟩, ⟨0x3FE199999999999A⟩, ⟨0x3FE8000000000000⟩⟩ now]

/-- The runtime of the reference adapters. -/
def RetrievalRuntime.reference (vectorAvailable graphAvailable : Bool) (now now' : ℤ) :
    RetrievalRuntime where
  queryVector := qdrantQueryVector vectorAvailable now
  queryGraph := neo4jQueryGraph graphAvailable now'

/-! ## The request -/

/-- The ids that the filtered payloads carry. -/
def filteredIds (filtered : List Document) : List String :=
  filtered.filterMap fun doc => doc.getStr "candidate_id"

/-- The ranked candidates whose id a filtered payload carries, up to the limit. -/
def boundedRanked (limit : ℕ) (filtered : List Document) (ranked : List RetrievalCandidate) :
    List RetrievalCandidate :=
  (ranked.filter fun c => c.candidateId ∈ filteredIds filtered).take limit

namespace ServerState

variable {ω η : Type} [Formatting] [Surroundings] [Oplog ω] (cp : ControlPlane η)

/-- The end of `handle_retrieval_read`: the decision is observed, then recorded. -/
def retrievalAnswered (st : ServerState ω η) (req : RetrievalCapabilityRequest)
    (d : GovernanceDecision) (response : RetrievalCapabilityResponse) :
    Except RequestFault RetrievalCapabilityResponse × ServerState ω η :=
  (.ok response, ((st.registerDecisionOutcome req.tenantId req.nameSpace d).persistAuditEvidence
    "retrieval" req.tenantId req.nameSpace none d).2)

/-- What the control plane is asked on a retrieval. -/
def retrievalReadRequest (req : RetrievalCapabilityRequest) : ReadRequest where
  tenantId := req.tenantId
  nameSpace := req.nameSpace
  tier := .state
  limit := req.limit

/-- `handle_retrieval_read` behind the token, on any runtime. -/
def handleRetrievalReadOn [Arithmetic] [Multiplication] [CandidateSort]
    (runtime : RetrievalRuntime) (st : ServerState ω η) (req : RetrievalCapabilityRequest)
    (principal : AuthPrincipal) :
    Except RequestFault RetrievalCapabilityResponse × ServerState ω η :=
  if principal.tenantId ≠ req.tenantId then (.error .forbidden, st)
  else
    match runtime.retrieve req with
    | .error err =>
      st.retrievalAnswered req ⟨.sanitize, err.reason⟩ ⟨.degraded, err.reason, true, []⟩
    | .ok candidates =>
      match rankCandidatesV1 candidates with
      | .error _ => (.error .panic, st)
      | .ok ranked =>
        match cp.readPath (retrievalReadRequest req) (ranked.map RetrievalCandidate.payload)
            st.hooks with
        | ((d, filtered), hooks) =>
          (st.withHooks hooks).retrievalAnswered req d
            ⟨.healthy, d.reason, false, boundedRanked req.limit filtered ranked⟩

end ServerState
end Rango
