import Mathlib.Data.Fintype.Basic
import Rango.Server.Atomic
import Rango.Server.IndexTheorems
import Rango.Server.IsolationTheorems

/-!
# Concurrent pushes

`append_mutation` looks a write id up, appends the entry and indexes it, each under a lock of its
own. `pushProtocol` is what a push does around these steps, and `Exclusive` what holds of the log
and of all pushes as long as no push looks up a write id that another one is about to index. Then
every write id is stored once (`retries_stored_once`); two pushes that look it up one right after
the other both store it (`concurrent_retries_duplicate`).
-/

namespace Rango

open Interleaving

/-! ## The protocol of a push -/

/-- Where a push stands between looking a mutation up and having indexed its entry. -/
inductive PushPhase where
  | idle
  | missed (m : Mutation)
  | stored (seq : ℕ) (m : Mutation)
  | half (seq : ℕ) (m : Mutation)

namespace PushPhase

/-- The steps that a push takes in a phase. -/
def allowed : PushPhase → ServerOp → Prop
  | .missed m, o => o = .appendRemote m
  | .stored seq m, o => o = .indexLatest seq m
  | .half seq m, o => o = .indexWriteId seq m
  | .idle, .lookup tenantId nameSpace m => scopeOf m = (tenantId, nameSpace)
  | .idle, .appendAudit e => e.mutation.collection = auditCollection
  | .idle, .appendRemote _ | .idle, .indexLatest .. | .idle, .indexWriteId .. => False
  | .idle, .readPath .. | .idle, .readSince .. => False
  | .idle, _ => True

/-- The phase after a step. Entries of the audit collection are not indexed. -/
def next : PushPhase → (o : ServerOp) → o.Res → PushPhase
  | .idle, .lookup _ _ m, none => .missed m
  | .missed m, .appendRemote _, .ok seq =>
    if m.collection = auditCollection then .idle else .stored seq m
  | .missed _, .appendRemote _, .error _ => .idle
  | .stored seq m, .indexLatest .., _ => .half seq m
  | .half .., .indexWriteId .., _ => .idle
  | φ, _, _ => φ

/-- The key that a push is about to index. -/
def key : PushPhase → Option (String × String × String)
  | .idle => none
  | .missed m | .stored _ m | .half _ m =>
    if m.collection = auditCollection then none else some (writeKey m)

end PushPhase

/-- The protocol of a push. -/
def pushProtocol : Protocol PushPhase ServerOp.Res where
  allowed := PushPhase.allowed
  next φ o r ψ := ψ = φ.next o r

/-! ## Pushes follow their protocol -/

namespace Atomic

/-- A push is idle when it ends. -/
abbrev Idles {α : Type} (p : ServerProg α) : Prop :=
  pushProtocol.Follows (fun φ _ => φ = PushPhase.idle) PushPhase.idle p

/-- A step after which a push is as idle as before. -/
lemma idles_ask_bind {α : Type} {o : ServerOp} {f : o.Res → ServerProg α}
    (hallowed : PushPhase.idle.allowed o) (hnext : ∀ r, PushPhase.idle.next o r = .idle)
    (hf : ∀ r, Idles (f r)) : Idles (ask o >>= f) :=
  follows_ask_bind ⟨hallowed, fun r _ hψ => hψ.trans (hnext r)⟩ hf

/-- A piece of a push before others. -/
lemma idles_bind {α β : Type} {p : ServerProg β} {f : β → ServerProg α} (hp : Idles p)
    (hf : ∀ b, Idles (f b)) : Idles (p >>= f) :=
  follows_bind hp hf

/-- The lookup, the append and the two locks of the indexes. -/
lemma appendMutation_idles (m : Mutation) (tenantId nameSpace : String) :
    Idles (appendMutation m tenantId nameSpace) := by
  unfold appendMutation
  cases m.validateMetadata with
  | error err => rfl
  | ok u =>
    simp only
    split_ifs with hscope
    · rfl
    · rw [not_or, not_not, not_not] at hscope
      refine ⟨Prod.ext hscope.1 hscope.2, ?_⟩
      rintro (_ | existingSeq) ψ rfl
      · refine ⟨rfl, ?_⟩
        rintro (err | seq) ψ rfl
        · rfl
        · -- what follows depends on whether the entry is indexed
          show pushProtocol.Follows _ (if m.collection = auditCollection then PushPhase.idle
            else .stored seq m) (indexMutation seq m >>= fun _ =>
              (pure (.ok seq) : ServerProg (Except RangoError ℕ)))
          by_cases hcollection : m.collection = auditCollection
          · rw [if_pos hcollection, indexMutation, if_pos hcollection]
            rfl
          · rw [if_neg hcollection, indexMutation, if_neg hcollection]
            refine ⟨rfl, ?_⟩
            rintro r ψ rfl
            refine ⟨rfl, ?_⟩
            rintro r ψ rfl
            rfl
      · rfl

section
variable [Formatting]

lemma settle_idles (stage tenantId nameSpace : String) (writeId : Option String)
    (d : GovernanceDecision) : Idles (settle stage tenantId nameSpace writeId d) := by
  refine settle_follows (P := pushProtocol) (φ := PushPhase.idle) (fun o ho => ?_) ..
  cases o with
  | countAudit => exact ⟨trivial, fun r ψ hψ => hψ⟩
  | registerDecisionOutcome => exact ⟨trivial, fun r ψ hψ => hψ⟩
  | appendAudit e => exact ⟨ho, fun r ψ hψ => hψ⟩
  | _ => exact ho.elim

lemma pushRefused_idles (req : PushRequest) (m : Mutation) (crossTenant : Bool)
    (d : GovernanceDecision) : Idles (pushRefused req m crossTenant d) :=
  idles_bind (settle_idles ..) fun _ => rfl

lemma pushDecided_idles (req : PushRequest) (m : Mutation) (d : GovernanceDecision) :
    Idles (pushDecided req m d) := by
  unfold pushDecided
  split_ifs
  · exact pushRefused_idles ..
  · refine idles_bind (settle_idles ..) fun _ => idles_bind (appendMutation_idles ..) ?_
    rintro (err | seq)
    · rfl
    · rfl

lemma pushMutation_idles (req : PushRequest) (m : Mutation) : Idles (pushMutation req m) := by
  refine idles_ask_bind trivial (fun _ => rfl) ?_
  rintro (_ | d)
  · simp only
    cases m.validateMetadata with
    | error err => exact pushRefused_idles ..
    | ok u =>
      simp only
      split_ifs
      · exact idles_ask_bind trivial (fun _ => rfl) fun _ => pushRefused_idles ..
      · exact idles_ask_bind trivial (fun _ => rfl) fun _ => pushDecided_idles ..
  · exact pushRefused_idles ..

lemma pushLoop_idles (req : PushRequest) (ms : List Mutation) : Idles (pushLoop req ms) := by
  induction ms with
  | nil => rfl
  | cons m rest ih =>
    refine idles_bind (pushMutation_idles req m) ?_
    rintro (fault | pushed)
    · rfl
    · refine idles_bind ih ?_
      rintro (fault | outcomes)
      · rfl
      · rfl

lemma pushMismatch_idles (req : PushRequest) (nonOwner crossTenant : ℕ) (reason : String) :
    Idles (pushMismatch req nonOwner crossTenant reason) :=
  idles_bind (settle_idles ..) fun _ => idles_ask_bind trivial (fun _ => rfl) fun _ => rfl

/-- **Pushes follow their protocol.** -/
theorem processPush_idles (req : PushRequest) (principal : AuthPrincipal) :
    Idles (processPush req principal) := by
  unfold processPush
  split_ifs
  · exact idles_ask_bind trivial (fun _ => rfl) fun _ => pushMismatch_idles ..
  · exact idles_ask_bind trivial (fun _ => rfl) fun _ => pushMismatch_idles ..
  · refine idles_bind (pushLoop_idles ..) ?_
    rintro (fault | outcomes)
    · rfl
    · exact idles_ask_bind trivial (fun _ => rfl) fun _ => rfl

end
end Atomic

/-! ## Exclusive pushes -/

namespace ServerState

section
variable {ω η ι : Type} [LogOplog ω] {st st' : ServerState ω η} {φs : ι → PushPhase}

/-- No two pushes are about to index one key, and an entry whose key is not indexed is one that
some push is about to index. So a key that a push missed is not in the log. -/
structure Exclusive (st : ServerState ω η) (φs : ι → PushPhase) : Prop where
  apart : ∀ i j key, (φs i).key = some key → (φs j).key = some key → i = j
  unique : KeysUnique (toEntries st.oplog)
  pending : ∀ e ∈ toEntries st.oplog, e.Indexable →
    st.scopedWriteIds (writeKey e.mutation) = none → ∃ i, (φs i).key = some (writeKey e.mutation)
  fresh : ∀ i m, φs i = .missed m → m.collection ≠ auditCollection →
    ∀ e ∈ toEntries st.oplog, e.Indexable → writeKey e.mutation ≠ writeKey m

/-- Audit records do not count. -/
lemma Exclusive.audits (h : Exclusive st φs)
    (hext : Extends (fun m => m.collection = auditCollection) st st')
    (hwriteIds : st'.scopedWriteIds = st.scopedWriteIds) : Exclusive st' φs := by
  have hmem : ∀ e ∈ toEntries st'.oplog, e.Indexable → e ∈ toEntries st.oplog := by
    intro e he hix
    rcases hext.mem he with he | haudit
    · exact he
    · exact absurd haudit hix
  refine ⟨h.apart, ?_, fun e he hix hnone => ?_, fun i m hi hm e he hix => ?_⟩
  · obtain ⟨added, heq, hall⟩ := hext
    rw [heq]
    refine List.pairwise_append.mpr ⟨h.unique, ?_, ?_⟩
    · exact List.pairwise_of_forall_mem_list fun a ha _ _ hix => absurd (hall a ha) hix
    · intro a _ b hb _ hix
      exact absurd (hall b hb) hix
  · rw [hwriteIds] at hnone
    exact h.pending e (hmem e he hix) hix hnone
  · exact h.fresh i m hi hm e (hmem e he hix) hix

variable [DecidableEq ι] {i : ι}

lemma key_update (φs : ι → PushPhase) (i j : ι) (ψ : PushPhase) :
    (Function.update φs i ψ j).key = if j = i then ψ.key else (φs j).key := by
  by_cases hj : j = i
  · rw [hj, Function.update_self, if_pos rfl]
  · rw [Function.update_of_ne hj, if_neg hj]

/-- A push that has looked up a key which is not indexed, and which no other push has pending. -/
lemma Exclusive.miss (h : Exclusive st φs) (hi : φs i = .idle) {m : Mutation}
    (hmiss : st.scopedWriteIds (writeKey m) = none)
    (halone : m.collection ≠ auditCollection → ∀ j, j ≠ i → (φs j).key ≠ some (writeKey m)) :
    Exclusive st (Function.update φs i (.missed m)) := by
  have hkey : ∀ k, (PushPhase.missed m).key = some k →
      m.collection ≠ auditCollection ∧ k = writeKey m := by
    intro k hk
    rw [PushPhase.key] at hk
    split_ifs at hk with hcollection
    exact ⟨hcollection, (Option.some.inj hk).symm⟩
  refine ⟨?_, h.unique, ?_, ?_⟩
  · intro a b k ha hb
    rw [key_update] at ha hb
    by_cases hai : a = i <;> by_cases hbi : b = i
    · rw [hai, hbi]
    · rw [if_pos hai] at ha
      rw [if_neg hbi] at hb
      obtain ⟨hcollection, rfl⟩ := hkey k ha
      exact absurd hb (halone hcollection b hbi)
    · rw [if_neg hai] at ha
      rw [if_pos hbi] at hb
      obtain ⟨hcollection, rfl⟩ := hkey k hb
      exact absurd ha (halone hcollection a hai)
    · rw [if_neg hai] at ha
      rw [if_neg hbi] at hb
      exact h.apart a b k ha hb
  · intro e he hix hnone
    obtain ⟨j, hj⟩ := h.pending e he hix hnone
    have hji : j ≠ i := fun hji => by
      rw [hji, hi] at hj
      cases hj
    exact ⟨j, by rw [key_update, if_neg hji, hj]⟩
  · intro j m' hj hm' e he hix
    by_cases hji : j = i
    · rw [hji, Function.update_self] at hj
      obtain rfl := PushPhase.missed.inj hj
      -- an entry with this key would be pending for another push
      intro hsame
      obtain ⟨k, hk⟩ := h.pending e he hix (hsame ▸ hmiss)
      rw [hsame] at hk
      have hki : k ≠ i := fun hki => by
        rw [hki, hi] at hk
        cases hk
      exact halone hm' k hki hk
    · rw [Function.update_of_ne hji] at hj
      exact h.fresh j m' hj hm' e he hix

/-- A push whose key is indexed, or in no entry, has nothing pending any more. -/
lemma Exclusive.retire (h : Exclusive st φs)
    (hdone : ∀ e ∈ toEntries st.oplog, e.Indexable → (φs i).key = some (writeKey e.mutation) →
      st.scopedWriteIds (writeKey e.mutation) ≠ none) :
    Exclusive st (Function.update φs i .idle) := by
  refine ⟨?_, h.unique, ?_, ?_⟩
  · intro a b k ha hb
    rw [key_update] at ha hb
    split_ifs at ha
    · cases ha
    · split_ifs at hb
      · cases hb
      · exact h.apart a b k ha hb
  · intro e he hix hnone
    obtain ⟨j, hj⟩ := h.pending e he hix hnone
    have hji : j ≠ i := fun hji => hdone e he hix (hji ▸ hj) hnone
    exact ⟨j, by rw [key_update, if_neg hji, hj]⟩
  · intro j m hj hm e he hix
    by_cases hji : j = i
    · rw [hji, Function.update_self] at hj
      cases hj
    · rw [Function.update_of_ne hji] at hj
      exact h.fresh j m hj hm e he hix

/-- A push that has taken one more step with the same key. -/
lemma Exclusive.proceed (h : Exclusive st φs) {ψ : PushPhase} (hkey : ψ.key = (φs i).key)
    (hψ : ∀ m, ψ ≠ .missed m) : Exclusive st (Function.update φs i ψ) := by
  have hkeys : ∀ j, (Function.update φs i ψ j).key = (φs j).key := by
    intro j
    rw [key_update]
    split_ifs with hji
    · rw [hkey, hji]
    · rfl
  refine ⟨?_, h.unique, ?_, ?_⟩
  · intro a b k ha hb
    rw [hkeys] at ha hb
    exact h.apart a b k ha hb
  · intro e he hix hnone
    obtain ⟨j, hj⟩ := h.pending e he hix hnone
    exact ⟨j, (hkeys j).trans hj⟩
  · intro j m hj hm e he hix
    by_cases hji : j = i
    · rw [hji, Function.update_self] at hj
      exact absurd hj (hψ m)
    · rw [Function.update_of_ne hji] at hj
      exact h.fresh j m hj hm e he hix

/-- A push that has missed a key stores its entry. -/
lemma Exclusive.store (h : Exclusive st φs) {m : Mutation} (hi : φs i = .missed m)
    (hm : m.collection ≠ auditCollection) {e : OplogEntry} (he : e.mutation = m) (seq : ℕ)
    (hentries : toEntries st'.oplog = toEntries st.oplog ++ [e])
    (hwriteIds : st'.scopedWriteIds = st.scopedWriteIds) :
    Exclusive st' (Function.update φs i (.stored seq m)) := by
  have hkey : (φs i).key = some (writeKey m) := by
    rw [hi, PushPhase.key, if_neg hm]
  have hstored : (PushPhase.stored seq m).key = (φs i).key := by
    rw [hi]
    rfl
  have hnext := h.proceed (i := i) hstored fun _ => PushPhase.noConfusion
  have hmem : ∀ {x}, x ∈ toEntries st'.oplog → x ∈ toEntries st.oplog ∨ x = e := by
    intro x hx
    rw [hentries] at hx
    exact (List.mem_append.mp hx).imp_right List.mem_singleton.mp
  refine ⟨hnext.apart, ?_, ?_, ?_⟩
  · rw [hentries]
    refine List.pairwise_append.mpr ⟨h.unique, List.pairwise_singleton _ _, ?_⟩
    intro x hx y hy hix _
    rw [List.mem_singleton.mp hy, he]
    exact h.fresh i m hi hm x hx hix
  · intro x hx hix hnone
    rw [hwriteIds] at hnone
    rcases hmem hx with hx | rfl
    · exact hnext.pending x hx hix hnone
    · exact ⟨i, by rw [key_update, if_pos rfl, hstored, hkey, he]⟩
  · intro j m' hj hm' x hx hix
    rcases hmem hx with hx | rfl
    · exact hnext.fresh j m' hj hm' x hx hix
    · -- another push with this key would have it pending too
      rw [he]
      intro hsame
      have hji : j ≠ i := fun hji => by
        rw [hji, Function.update_self] at hj
        cases hj
      rw [Function.update_of_ne hji] at hj
      have hjkey : (φs j).key = some (writeKey m) := by
        rw [hj, PushPhase.key, if_neg hm', hsame]
      exact hji (h.apart j i _ hjkey hkey)

/-! ## Steps of pushes -/

/-- The key that a step looks up. The audit collection is not indexed. -/
def lookupKey : ServerOp → Option (String × String × String)
  | .lookup tenantId nameSpace m =>
    if m.collection = auditCollection then none else some (tenantId, nameSpace, m.writeId)
  | _ => none

/-- The key that a step is on the way to index. -/
def pendingKey : ServerOp → Option (String × String × String)
  | .appendRemote m | .indexLatest _ m | .indexWriteId _ m =>
    if m.collection = auditCollection then none else some (writeKey m)
  | _ => none

/-- The key that a push has pending is that of its next step. -/
lemma pendingKey_head {α : Type} {φ : PushPhase} {p : ServerProg α}
    (hp : pushProtocol.Follows (fun φ _ => φ = PushPhase.idle) φ p) {k : String × String × String}
    (hk : φ.key = some k) : p.head.bind pendingKey = some k := by
  cases p with
  | done a =>
    obtain rfl : φ = .idle := hp
    cases hk
  | call o next =>
    have hallowed : φ.allowed o := hp.1
    cases φ with
    | idle => cases hk
    | missed m =>
      obtain rfl : o = _ := hallowed
      exact hk
    | stored seq m =>
      obtain rfl : o = _ := hallowed
      exact hk
    | half seq m =>
      obtain rfl : o = _ := hallowed
      exact hk

/-- An append adds an entry with the mutation, or nothing. -/
lemma append_entries (e : OplogEntry) (w : ω) :
    (∃ seq, (Oplog.append e w).1 = .ok seq ∧
      toEntries (Oplog.append e w).2 = toEntries w ++ [e.withSeq seq]) ∨
    ∃ err, (Oplog.append e w).1 = .error err ∧ toEntries (Oplog.append e w).2 = toEntries w := by
  cases happ : Oplog.append e w with
  | mk r w' =>
    cases r with
    | ok seq => exact .inl ⟨seq, rfl, LogOplog.append_ok _ _ _ _ happ⟩
    | error err => exact .inr ⟨err, rfl, LogOplog.append_error _ _ _ _ happ⟩

variable [Formatting] [Surroundings] {cp : ControlPlane η}

variable (cp) in
/-- An idle push adds at most an audit record, and stays idle unless it misses a key. -/
lemma perform_idle {o : ServerOp} (hallowed : PushPhase.idle.allowed o) (st : ServerState ω η) :
    Extends (fun m => m.collection = auditCollection) st (st.perform cp o).2 ∧
      (st.perform cp o).2.scopedWriteIds = st.scopedWriteIds ∧
      (PushPhase.idle.next o (st.perform cp o).1 = .idle ∨
        ∃ m, lookupKey o = (PushPhase.missed m).key ∧
          PushPhase.idle.next o (st.perform cp o).1 = .missed m ∧
          st.scopedWriteIds (writeKey m) = none ∧ (st.perform cp o).2 = st) := by
  have hsame : Extends (fun m => m.collection = auditCollection) st st := .refl st
  cases o with
  | appendAudit e =>
    have hcollection : e.mutation.collection = auditCollection := hallowed
    refine ⟨?_, rfl, .inl rfl⟩
    rcases append_entries e st.oplog with ⟨seq, -, hentries⟩ | ⟨err, -, hentries⟩
    · exact ⟨[e.withSeq seq], hentries, by simpa using hcollection⟩
    · exact .of_entries hentries
  | lookup tenantId nameSpace m =>
    refine ⟨hsame, rfl, ?_⟩
    have hscope : scopeOf m = (tenantId, nameSpace) := hallowed
    obtain ⟨htenant, hnamespace⟩ := Prod.mk.inj hscope
    cases hfound : st.lookupScopedWriteIdSeq tenantId nameSpace m.writeId with
    | some seq =>
      left
      show PushPhase.idle.next (.lookup tenantId nameSpace m)
        (st.lookupScopedWriteIdSeq tenantId nameSpace m.writeId) = .idle
      rw [hfound]
      rfl
    | none =>
      right
      refine ⟨m, ?_, ?_, ?_, rfl⟩
      · rw [lookupKey, PushPhase.key, writeKey, htenant, hnamespace]
      · show PushPhase.idle.next (.lookup tenantId nameSpace m)
          (st.lookupScopedWriteIdSeq tenantId nameSpace m.writeId) = .missed m
        rw [hfound]
        rfl
      · rw [writeKey, htenant, hnamespace]
        exact hfound
  | appendRemote m => exact hallowed.elim
  | indexLatest seq m => exact hallowed.elim
  | indexWriteId seq m => exact hallowed.elim
  | readPath request candidates => exact hallowed.elim
  | readSince first limit => exact hallowed.elim
  | _ => exact ⟨hsame, rfl, .inl rfl⟩

/-- A push that has missed a key appends its entry, or fails to. -/
lemma Exclusive.appendRemote (h : Exclusive st φs) {m : Mutation} (hi : φs i = .missed m) :
    Exclusive (st.perform cp (.appendRemote m)).2 (Function.update φs i
      ((φs i).next (.appendRemote m) (st.perform cp (.appendRemote m)).1)) := by
  let entry : OplogEntry :=
    { seq := 0, timestamp := Surroundings.now st.tick, mutation := m, origin := .remote
      applied := false, snapshotAnchor := none }
  rw [hi]
  show Exclusive _ (Function.update φs i
    ((PushPhase.missed m).next (.appendRemote m) (Oplog.append entry st.oplog).1))
  rcases append_entries entry st.oplog with ⟨seq, hout, hentries⟩ | ⟨err, hout, hentries⟩
  · rw [hout]
    show Exclusive _ (Function.update φs i
      (if m.collection = auditCollection then .idle else .stored seq m))
    split_ifs with hm
    · refine Exclusive.retire (h.audits ⟨[entry.withSeq seq], hentries, by simpa using hm⟩ rfl) ?_
      intro e he hix hkey
      rw [hi, PushPhase.key, if_pos hm] at hkey
      cases hkey
    · exact h.store hi hm rfl seq hentries rfl
  · rw [hout]
    refine Exclusive.retire (h.audits (.of_entries hentries) rfl) ?_
    -- a key that was missed is in no entry
    intro e he hix hkey
    rw [hi, PushPhase.key] at hkey
    split_ifs at hkey with hm
    have hold : e ∈ toEntries st.oplog := by
      rw [← hentries]
      exact he
    exact absurd (Option.some.inj hkey).symm (h.fresh i m hi hm e hold hix)

omit [Formatting] [Surroundings] in
/-- A push that indexes its key is done. -/
lemma Exclusive.indexWriteId (h : Exclusive st φs) {seq : ℕ} {m : Mutation}
    (hi : φs i = .half seq m) :
    Exclusive (st.indexWriteId seq m) (Function.update φs i .idle) := by
  have hindexed : ∀ key, (st.indexWriteId seq m).scopedWriteIds key = none →
      st.scopedWriteIds key = none ∧ key ≠ writeKey m := by
    intro key hnone
    have hupdate : Function.update st.scopedWriteIds (writeKey m) (some seq) key = none := hnone
    have hne : key ≠ writeKey m := fun hkey => by
      rw [hkey, Function.update_self] at hupdate
      cases hupdate
    rw [Function.update_of_ne hne] at hupdate
    exact ⟨hupdate, hne⟩
  have hnow : Exclusive (st.indexWriteId seq m) φs :=
    ⟨h.apart, h.unique, fun e he hix hnone => h.pending e he hix (hindexed _ hnone).1, h.fresh⟩
  refine hnow.retire ?_
  intro e he hix hkey hnone
  rw [hi, PushPhase.key] at hkey
  split_ifs at hkey with hm
  exact (hindexed _ hnone).2 (Option.some.inj hkey).symm

/-- **Steps.** A step of a push keeps the pushes exclusive, unless it looks up a key that another
push has pending. -/
lemma perform_exclusive (h : Exclusive st φs) {o : ServerOp} (hallowed : (φs i).allowed o)
    (halone : ∀ key ∈ lookupKey o, ∀ j, j ≠ i → (φs j).key ≠ some key) :
    Exclusive (st.perform cp o).2
      (Function.update φs i ((φs i).next o (st.perform cp o).1)) := by
  cases hi : φs i with
  | idle =>
    rw [hi] at hallowed
    obtain ⟨hext, hwriteIds, hidle | ⟨m, hlookup, hnext, hmiss, hsame⟩⟩ :=
      perform_idle cp hallowed st
    · rw [hidle, ← hi, Function.update_eq_self]
      exact h.audits hext hwriteIds
    · rw [hnext, hsame]
      refine h.miss hi hmiss fun hm j hj => halone _ ?_ j hj
      rw [hlookup, PushPhase.key, if_neg hm]
      rfl
  | missed m =>
    rw [hi] at hallowed
    obtain rfl : o = .appendRemote m := hallowed
    rw [← hi]
    exact h.appendRemote hi
  | stored seq m =>
    rw [hi] at hallowed
    obtain rfl : o = .indexLatest seq m := hallowed
    have hext : Extends (fun m => m.collection = auditCollection) st (st.indexLatest seq m) :=
      .of_entries rfl
    refine Exclusive.proceed (h.audits hext rfl) ?_ fun _ => PushPhase.noConfusion
    rw [hi]
    rfl
  | half seq m =>
    rw [hi] at hallowed
    obtain rfl : o = .indexWriteId seq m := hallowed
    exact h.indexWriteId hi

/-! ## Concurrent pushes -/

/-- Pushes that run concurrently on a server. -/
def pushPool (st : ServerState ω η) (requests : ι → PushRequest × AuthPrincipal) :
    Pool (ServerState ω η) ServerOp.Res fun _ : ι => Except RequestFault PushResponse where
  shared := st
  threads i := Atomic.processPush (requests i).1 (requests i).2

/-- The next step of `i` looks up no key that another request has pending. -/
def LooksUpAlone {σ : Type} {α : ι → Type} (pool : Pool σ ServerOp.Res α) (i : ι) : Prop :=
  ∀ key ∈ (pool.threads i).head.bind lookupKey, ∀ j, j ≠ i →
    (pool.threads j).head.bind pendingKey ≠ some key

instance {σ : Type} {α : ι → Type} [Fintype ι] (pool : Pool σ ServerOp.Res α) (i : ι) :
    Decidable (LooksUpAlone pool i) :=
  inferInstanceAs (Decidable (∀ key ∈ (pool.threads i).head.bind lookupKey, ∀ j, j ≠ i →
    (pool.threads j).head.bind pendingKey ≠ some key))

/-- Each push is somewhere in its protocol, and the pushes are exclusive. -/
def Orderly (pool : Pool (ServerState ω η) ServerOp.Res
    fun _ : ι => Except RequestFault PushResponse) : Prop :=
  ∃ φs, pool.Tracked (fun _ => pushProtocol) (fun _ φ _ => φ = .idle) φs ∧
    Exclusive pool.shared φs

lemma step_orderly {pool : Pool (ServerState ω η) ServerOp.Res
      fun _ : ι => Except RequestFault PushResponse} (h : Orderly pool)
    (halone : LooksUpAlone pool i) : Orderly (pool.step (perform cp) i) := by
  obtain ⟨φs, htracked, hinv⟩ := h
  refine Pool.step_tracked (perform cp) htracked (fun _ => hinv) ?_
  intro o hhead hallowed
  refine ⟨_, rfl, perform_exclusive hinv hallowed ?_⟩
  intro key hkey j hj hpending
  -- a pending key shows in the next step of its push
  refine halone key ?_ j hj (pendingKey_head (htracked j) hpending)
  rw [hhead]
  exact hkey

end

section
variable {ω η ι : Type} [ReadableOplog ω] [Formatting] [Surroundings] [Arithmetic] [DecidableEq ι]

/-- **Retries are stored once.** A server starts on a readable log without duplicates and answers
requests one after another, then any number of pushes concurrently, whose steps interleave in any
order in which no step looks up a key that another push has pending. Then no two entries outside
the audit collection have one tenant, namespace and write id. -/
theorem retries_stored_once (cp : ControlPlane η) {w : ω} (hunique : KeysUnique (toEntries w))
    (hooks : η) (tick : ℕ) (events : List (ServerEvent η))
    (requests : ι → PushRequest × AuthPrincipal) (schedule : List ι)
    (halone : Runs.All (Pool.step (perform cp)) LooksUpAlone
      (pushPool ((withControlPlane w hooks tick).run cp events) requests) schedule) :
    KeysUnique (toEntries ((pushPool ((withControlPlane w hooks tick).run cp events)
      requests).exec (perform cp) schedule).shared.oplog) := by
  have hindexed := run_indexed_of_unique cp hunique hooks tick events
  have hstart : Exclusive ((withControlPlane w hooks tick).run cp events)
      fun _ : ι => PushPhase.idle := by
    refine ⟨fun i j key hi => (nomatch hi), hindexed.keys, ?_, fun i m hi => (nomatch hi)⟩
    intro e he hix hnone
    exact absurd rfl ((hindexed.reflects.writeIds_eq_none _).mp hnone e he hix)
  have horderly : Orderly (pushPool ((withControlPlane w hooks tick).run cp events) requests) :=
    ⟨fun _ => .idle, fun i => Atomic.processPush_idles (requests i).1 (requests i).2, hstart⟩
  have hstep : ∀ (pool : Pool (ServerState ω η) ServerOp.Res
      fun _ : ι => Except RequestFault PushResponse) i, Orderly pool → LooksUpAlone pool i →
      Orderly (pool.step (perform cp) i) := fun _ _ h hclean => step_orderly h hclean
  obtain ⟨φs, -, hinv⟩ := halone.invariant hstep horderly
  exact hinv.unique

end
end ServerState

section
attribute [local instance] Formatting.sample Surroundings.sample Arithmetic.sample

/-- A push and its retry. -/
def sampleRetryPool : Pool (ServerState MemLog Unit) ServerOp.Res
    fun _ : Bool => Except RequestFault PushResponse :=
  ServerState.pushPool sampleServer fun _ => (samplePush [sampleClientInsert], samplePrincipal)

/-- The retry comes when the push is answered. -/
def sampleSequentialSchedule : List Bool := List.replicate 10 false ++ List.replicate 10 true

/-- Then the write id is stored once. -/
theorem ServerState.retries_stored_once_sample :
    ServerState.KeysUnique (toEntries (sampleRetryPool.exec
      (ServerState.perform ControlPlane.default) sampleSequentialSchedule).shared.oplog) :=
  ServerState.retries_stored_once ControlPlane.default (w := MemLog.new) List.Pairwise.nil () 0 []
    _ sampleSequentialSchedule (by decide +kernel)

/-- The retry looks the write id up before the push has appended its entry. -/
def sampleRacingSchedule : List Bool :=
  List.replicate 6 false ++ List.replicate 6 true ++ List.replicate 4 false ++ List.replicate 4 true

/-- **Both are stored.** -/
theorem concurrent_retries_duplicate :
    ¬ ServerState.KeysUnique (toEntries (sampleRetryPool.exec
      (ServerState.perform ControlPlane.default) sampleRacingSchedule).shared.oplog) := by
  show ¬ List.Pairwise (fun a b : OplogEntry => a.mutation.collection ≠ auditCollection →
    b.mutation.collection ≠ auditCollection → writeKey a.mutation ≠ writeKey b.mutation) _
  decide +kernel

example : (sampleRetryPool.exec (ServerState.perform ControlPlane.default)
    sampleRacingSchedule).shared.oplog.entries.map (fun e => (e.seq, e.mutation.writeId)) =
      [(1, "governance-audit:tenant:c:write:w1:1"), (2, "governance-audit:tenant:c:write:w1:2"),
        (3, "w1"), (4, "w1")] := by decide +kernel

end
end Rango
