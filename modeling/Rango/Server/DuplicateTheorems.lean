import Rango.Server.RetryTheorems
import Rango.Server.AccountTheorems
import Rango.Server.SelectionTheorems

/-!
# Which mutation an accepted number stands for

A mutation whose key is in the index is not stored again, and is answered with the number of the
entry that has the key. Where clients use a write id for one mutation only, that entry holds the
mutation itself; but the metadata check lets an empty write id pass, which all mutations of a scope
that carry none share. `accepted_is_stored_iff` is exactly when the number of an accepted mutation
is that of an entry with its effect.
-/

namespace Rango

/-- The two mutations do the same to the same document. -/
def Mutation.SameEffect (m m' : Mutation) : Prop :=
  m.op = m'.op ∧ m.docId = m'.docId ∧ m.patch = m'.patch

instance (m m' : Mutation) : Decidable (m.SameEffect m') :=
  inferInstanceAs (Decidable (_ ∧ _ ∧ _))

/-- The event carries the mutation. -/
def ServerEvent.Offers {η : Type} (m : Mutation) : ServerEvent η → Prop
  | .push req _ => m ∈ req.mutations
  | .promote req _ => m = req.mutation
  | _ => False

lemma ServerEvent.Admits.offers {η : Type} [Formatting] {cp : ControlPlane η} {m : Mutation}
    {ev : ServerEvent η} (h : ev.Admits cp m) : ev.Offers m := by
  cases ev with
  | push req principal => exact h.2.1
  | promote req principal => exact h.2.1
  | pull | retrieve | restart => exact h.elim

/-- Mutations of one scope that carry the same write id, if it is not empty, are identical. -/
def OneMutationPerWriteId {η : Type} (events : List (ServerEvent η)) : Prop :=
  ∀ ev ∈ events, ∀ ev' ∈ events, ∀ m m', ev.Offers m → ev'.Offers m' →
    writeKey m = writeKey m' → m.writeId ≠ "" → m = m'

/-- An accepted mutation with its number and the state in which it had its turn. -/
structure Turn (ω η : Type) where
  before : ServerState ω η
  mutation : Mutation
  seq : ℕ

namespace ServerState

section
variable {ω η : Type} [Formatting] [Surroundings] [Oplog ω] (cp : ControlPlane η)

/-- The turns of the mutations that a push takes. -/
def pushTurns (st : ServerState ω η) (req : PushRequest) : List Mutation → List (Turn ω η)
  | [] => []
  | m :: rest =>
    match st.pushMutation cp req m with
    | (.error _, _) => []
    | (.ok pushed, st') =>
      (pushed.accepted.map fun s => ⟨st, m, s⟩).toList ++ pushTurns st' req rest

/-- The turns of the mutations that the response to an event accepts. -/
def turns (st : ServerState ω η) : ServerEvent η → List (Turn ω η)
  | .push req principal =>
    if req.nodeId ≠ principal.nodeId ∨ req.tenantId ≠ principal.tenantId then []
    else
      match (pushLoop cp st req req.mutations).1 with
      | .error _ => []
      | .ok _ => st.pushTurns cp req req.mutations
  | .promote req principal =>
    match (st.processPromote cp req principal).1 with
    | .error _ => []
    | .ok resp => resp.acceptedSeqs.map fun s => ⟨st, req.mutation, s⟩
  | _ => []

/-- The same for a run. -/
def runTurns [Arithmetic] (st : ServerState ω η) : List (ServerEvent η) → List (Turn ω η)
  | [] => []
  | ev :: rest => st.turns cp ev ++ runTurns (st.step cp ev) rest

variable {cp} {st st' : ServerState ω η} {req : PushRequest}

/-- The turns of a push are those of its accepted mutations. -/
lemma pushTurns_map {ms : List Mutation} {outcomes : List Pushed}
    (h : pushLoop cp st req ms = (.ok outcomes, st')) :
    (st.pushTurns cp req ms).map (fun t => (t.mutation, t.seq)) =
      (ms.zip outcomes).filterMap fun p => p.2.accepted.map fun s => (p.1, s) := by
  induction ms generalizing st outcomes with
  | nil => rfl
  | cons m rest ih =>
    rw [pushLoop] at h
    split at h
    · cases (Prod.mk.inj h).1
    · next pushed st₁ hpushed =>
      split at h
      · cases (Prod.mk.inj h).1
      · next outcomes' st₂ hrest =>
        obtain ⟨houtcomes, rfl⟩ := Prod.mk.inj h
        rw [← Except.ok.inj houtcomes, pushTurns, hpushed, List.zip_cons_cons]
        dsimp only
        rw [List.map_append, ih hrest]
        cases haccepted : pushed.accepted with
        | none => simp [haccepted]
        | some s => simp [haccepted]

/-- The turns of an event are those of the mutations that its response accepts. -/
lemma turns_map (st : ServerState ω η) (ev : ServerEvent η) :
    (st.turns cp ev).map (fun t => (t.mutation, t.seq)) = st.accepted cp ev := by
  cases ev with
  | push req principal =>
    rw [turns, accepted]
    split_ifs
    · rfl
    · cases hloop : pushLoop cp st req req.mutations with
      | mk result st₁ =>
        cases result with
        | error fault => rfl
        | ok outcomes => exact pushTurns_map hloop
  | promote req principal =>
    rw [turns, accepted]
    cases (st.processPromote cp req principal).1 with
    | error fault => rfl
    | ok resp => simp
  | pull | retrieve | restart => rfl

/-- What an event accepts it carries. -/
lemma offers_of_accepted {ev : ServerEvent η} {p : Mutation × ℕ} (hp : p ∈ st.accepted cp ev) :
    ev.Offers p.1 := by
  cases ev with
  | push req principal =>
    rw [accepted] at hp
    split_ifs at hp
    · cases hp
    · split at hp
      · cases hp
      · obtain ⟨⟨m, pushed⟩, hmem, heq⟩ := List.mem_filterMap.mp hp
        obtain ⟨s, -, rfl⟩ := Option.map_eq_some_iff.mp heq
        exact (List.of_mem_zip hmem).1
  | promote req principal =>
    rw [accepted] at hp
    split at hp
    · cases hp
    · obtain ⟨s, -, rfl⟩ := List.mem_map.mp hp
      rfl
  | pull | retrieve | restart => cases hp

/-- **The turns of a run** are those of the mutations that its responses accept. -/
theorem runTurns_map [Arithmetic] (st : ServerState ω η) (events : List (ServerEvent η)) :
    (st.runTurns cp events).map (fun t => (t.mutation, t.seq)) = st.runAccepted cp events := by
  induction events generalizing st with
  | nil => rfl
  | cons ev rest ih => rw [runTurns, runAccepted, List.map_append, turns_map, ih]

end

/-! ## Turns -/

section
variable {ω η : Type} [Formatting] [Surroundings] [LogOplog ω] {cp : ControlPlane η}
  {st st₁ st' : ServerState ω η} {t : Turn ω η}

/-- The number of the turn is the one that the mutation's key had, or that of the mutation's own
entry. -/
def AnsweredIn (st' : ServerState ω η) (t : Turn ω η) : Prop :=
  t.before.scopedWriteIds (writeKey t.mutation) = some t.seq ∨
    (t.before.scopedWriteIds (writeKey t.mutation) = none ∧
      ∃ e ∈ toEntries st'.oplog, e.mutation = t.mutation ∧ e.seq = t.seq)

/-- A turn on the way from `st` to `st'`: the log only grew up to it and after it, and the indexes
were those of the log. -/
structure TurnOn (st st' : ServerState ω η) (t : Turn ω η) : Prop where
  indexed : t.before.Indexed
  upTo : Extends (fun _ => True) st t.before
  after : Extends (fun _ => True) t.before st'
  answered : AnsweredIn st' t

omit [Formatting] [Surroundings] in
lemma TurnOn.extend (h : TurnOn st st₁ t) (hext : Extends (fun _ => True) st₁ st') :
    TurnOn st st' t where
  indexed := h.indexed
  upTo := h.upTo
  after := h.after.trans hext
  answered := h.answered.imp_right fun ⟨hnew, e, he, hrest⟩ => ⟨hnew, e, hext.mono he, hrest⟩

omit [Formatting] [Surroundings] in
lemma TurnOn.since (hext : Extends (fun _ => True) st st₁) (h : TurnOn st₁ st' t) :
    TurnOn st st' t :=
  ⟨h.indexed, hext.trans h.upTo, h.after, h.answered⟩

/-- A mutation that the server takes has its turn. -/
lemma Takes.turnOn {req : PushRequest} {m : Mutation} {s : ℕ} (h : st.Indexed)
    (htakes : Takes cp req st m s st') : TurnOn st st' ⟨st, m, s⟩ := by
  have hext : Extends (fun _ => True) st st' := by
    have hgrows : Grows (fun _ => True) st (st.pushMutation cp req m).2 :=
      pushMutation_grows cp (fun _ _ _ _ _ _ => trivial) (fun _ => trivial) st
    rw [htakes.pushMutation] at hgrows
    exact hgrows.extends
  refine ⟨h, .refl _, hext, ?_⟩
  rcases htakes.answers with ⟨hkey, -⟩ | ⟨hnew, audits, e, hentries, -, hm, hseq⟩
  · exact .inl hkey
  · exact .inr ⟨hnew, e, by rw [hentries]; simp, hm, hseq⟩

/-- So do those of a push, one after another. -/
lemma pushTurns_on {req : PushRequest} {ms : List Mutation} (h : st.Indexed)
    (ht : t ∈ st.pushTurns cp req ms) : TurnOn st (pushLoop cp st req ms).2 t := by
  induction ms generalizing st with
  | nil => cases ht
  | cons m rest ih =>
    have hfirst : Grows (fun _ => True) st (st.pushMutation cp req m).2 :=
      pushMutation_grows cp (fun _ _ _ _ _ _ => trivial) (fun _ => trivial) st
    rw [pushTurns] at ht
    rcases hpushed : st.pushMutation cp req m with ⟨fault | pushed, st₁⟩
    · simp [hpushed] at ht
    · rw [hpushed] at ht hfirst
      have hrest : Extends (fun _ => True) st₁ (pushLoop cp st₁ req rest).2 :=
        (pushLoop_grows cp (fun _ _ _ _ _ _ => trivial) (fun _ _ _ => trivial) st₁).extends
      have hend : (pushLoop cp st req (m :: rest)).2 = (pushLoop cp st₁ req rest).2 := by
        rw [pushLoop, hpushed]
        dsimp only
        split
        · next hloop => rw [hloop]
        · next hloop => rw [hloop]
      rw [hend]
      rcases List.mem_append.mp ht with hhead | htail
      · rw [Option.mem_toList, Option.map_eq_some_iff] at hhead
        obtain ⟨s, hs, rfl⟩ := hhead
        exact ((takes_of_pushMutation hpushed hs).turnOn h).extend hrest
      · exact (ih (h.grows hfirst) htail).since hfirst.extends

/-- So does that of a promotion. -/
lemma Promotes.turnOn {req : PromoteRequest} {s : ℕ} (h : st.Indexed)
    (hpromotes : Promotes cp req st s st') : TurnOn st st' ⟨st, req.mutation, s⟩ := by
  have happended := hpromotes.appended
  have hsame := promotionDecision_sameLog cp st req (promotionRequest req)
  generalize st.promotionDecision cp req (promotionRequest req) = dec at happended hsame
  have hsettled : Grows (fun _ => True) st (dec.2.settle "promotion" req.tenantId req.nameSpace
      (some req.mutation.writeId) dec.1) :=
    Grows.of_sameLog hsame (settle_grows (fun _ _ _ _ _ _ => trivial) _ _ _ _)
  have hkeys := (settle_scopedWriteIds dec.2 "promotion" req.tenantId req.nameSpace
    (some req.mutation.writeId) dec.1).trans hsame.writeIds
  generalize dec.2.settle "promotion" req.tenantId req.nameSpace (some req.mutation.writeId)
    dec.1 = settled at happended hsettled hkeys
  have happend : Grows (fun _ => True) settled
      (settled.appendMutation req.mutation req.tenantId req.nameSpace).2 :=
    appendMutation_grows fun _ _ => trivial
  rw [happended] at happend
  refine ⟨h, .refl _, (hsettled.trans happend).extends, ?_⟩
  rcases appendMutation_cases happended with ⟨hkey, -⟩ | ⟨hnew, e, hentries, hm, hseq⟩
  · exact .inl (hkeys ▸ hkey)
  · exact .inr ⟨hkeys ▸ hnew, e, by rw [hentries]; simp, hm, hseq⟩

variable [Arithmetic]

/-- The turns of an event. -/
lemma turns_on (h : st.Indexed) {ev : ServerEvent η} (ht : t ∈ st.turns cp ev) :
    TurnOn st (st.step cp ev) t := by
  cases ev with
  | push req principal =>
    rw [turns] at ht
    split_ifs at ht with hprincipal
    · cases ht
    · rw [not_or, not_not, not_not] at hprincipal
      have hstep : st.step cp (.push req principal) = (pushLoop cp st req req.mutations).2 := by
        rw [step, processPush, if_neg (not_not.mpr hprincipal.1),
          if_neg (not_not.mpr hprincipal.2)]
        split
        · next hloop => rw [hloop]
        · next hloop => rw [hloop]
      rw [hstep]
      split at ht
      · cases ht
      · exact pushTurns_on h ht
  | promote req principal =>
    rw [turns] at ht
    split at ht
    · cases ht
    · next resp hresp =>
      obtain ⟨s, hs, rfl⟩ := List.mem_map.mp ht
      exact (promotes_of_processPromote (Prod.fst_eq_iff.mp hresp) hs).turnOn h
  | pull | retrieve | restart => cases ht

end

/-! ## Runs -/

section
variable {ω η : Type} [Formatting] [Surroundings] [ReadableOplog ω] [Arithmetic]
  {cp : ControlPlane η} {st : ServerState ω η} {events : List (ServerEvent η)} {t : Turn ω η}

/-- The turns of a run. -/
lemma runTurns_on (h : st.Indexed) (ht : t ∈ st.runTurns cp events) :
    TurnOn st (st.run cp events) t := by
  induction events generalizing st with
  | nil => cases ht
  | cons ev rest ih =>
    have hfirst : Extends (fun _ => True) st (st.step cp ev) :=
      step_extends cp (fun _ _ _ _ _ _ _ _ => trivial) (fun _ _ => trivial) st
    have hrest : Extends (fun _ => True) (st.step cp ev) ((st.step cp ev).run cp rest) :=
      run_extends cp (fun _ _ _ _ _ _ _ _ => trivial) (fun _ _ _ _ => trivial) _
    rcases List.mem_append.mp ht with ht | ht
    · exact (turns_on h ht).extend hrest
    · exact (ih (step_indexed cp h ev) ht).since hfirst

omit [ReadableOplog ω] in
/-- An accepted mutation was offered in one of the events. -/
lemma offers_of_runAccepted [Oplog ω] {st : ServerState ω η} {p : Mutation × ℕ}
    (hp : p ∈ st.runAccepted cp events) : ∃ ev ∈ events, ev.Offers p.1 := by
  induction events generalizing st with
  | nil => cases hp
  | cons ev rest ih =>
    rcases List.mem_append.mp hp with hp | hp
    · exact ⟨ev, List.mem_cons_self, offers_of_accepted hp⟩
    · obtain ⟨ev', hev', hoffers⟩ := ih hp
      exact ⟨ev', List.mem_cons_of_mem _ hev', hoffers⟩

lemma offers_of_runTurns (ht : t ∈ st.runTurns cp events) :
    ∃ ev ∈ events, ev.Offers t.mutation := by
  have hmem : (t.mutation, t.seq) ∈ st.runAccepted cp events := by
    rw [← runTurns_map]
    exact List.mem_map_of_mem ht
  exact offers_of_runAccepted hmem

/-- Outside the audit collection, every entry of a log that was empty at the start was offered. -/
lemma offers_of_entry {w : ω} (hempty : toEntries w = []) (hooks : η) (tick : ℕ) {e : OplogEntry}
    (he : e ∈ toEntries ((withControlPlane w hooks tick).run cp events).oplog)
    (hindexable : e.Indexable) : ∃ ev ∈ events, ev.Offers e.mutation := by
  have hrun : Extends (fun m => m.collection = auditCollection ∨ ∃ ev ∈ events, ev.Offers m)
      (withControlPlane w hooks tick) ((withControlPlane w hooks tick).run cp events) := by
    refine run_extends cp (fun _ _ _ _ _ _ _ _ => .inl rfl) (fun ev hev m hm => ?_) _
    exact .inr ⟨ev, hev, hm.offers⟩
  rcases hrun.mem he with he | haudit | hoffers
  · rw [withControlPlane_oplog, hempty] at he
    cases he
  · exact absurd haudit hindexable
  · exact hoffers

/-- **When an accepted mutation is the one that was stored.** In a run of a server on an empty log,
with any hooks, in which clients use a write id for one mutation only: the number of an accepted
mutation is that of an entry with the mutation's effect exactly when, in case its write id is
empty, no entry with another effect had its key when its turn came. -/
theorem accepted_is_stored_iff (cp : ControlPlane η) {w : ω} (hempty : toEntries w = [])
    (hooks : η) (tick : ℕ) {events : List (ServerEvent η)} (hone : OneMutationPerWriteId events) :
    ((withControlPlane w hooks tick).runTurns cp events).map (fun t => (t.mutation, t.seq)) =
        (withControlPlane w hooks tick).runAccepted cp events ∧
      ∀ t ∈ (withControlPlane w hooks tick).runTurns cp events,
        (∃ e ∈ toEntries ((withControlPlane w hooks tick).run cp events).oplog,
          e.seq = t.seq ∧ e.mutation.SameEffect t.mutation) ↔
        (t.mutation.writeId = "" → ∀ e ∈ toEntries t.before.oplog, e.Indexable →
          writeKey e.mutation = writeKey t.mutation → e.mutation.SameEffect t.mutation) := by
  refine ⟨runTurns_map _ events, fun t ht => ?_⟩
  have hturn := runTurns_on (run_indexed cp hempty hooks tick []) ht
  rcases hturn.answered with hkey | ⟨hnew, e, he, hm, hseq⟩
  · -- the number is that of the entry `e` with its key, and of no other
    obtain ⟨e, he, hix, hekey, heseq⟩ := (hturn.indexed.reflects.writeIds _ _).mp hkey
    have hlog := hturn.after.mono he
    have hnumber : (∃ x ∈ toEntries ((withControlPlane w hooks tick).run cp events).oplog,
        x.seq = t.seq ∧ x.mutation.SameEffect t.mutation) ↔
          e.mutation.SameEffect t.mutation := by
      constructor
      · intro ⟨x, hx, hxseq, heffect⟩
        rwa [eq_of_seq (LogOplog.increasing _) hx hlog (hxseq.trans heseq.symm)] at heffect
      · exact fun heffect => ⟨e, hlog, heseq, heffect⟩
    rw [hnumber]
    constructor
    · intro heffect _ x hx hxix hxkey
      rwa [hturn.indexed.keys.eq hx he hxix hix (hxkey.trans hekey.symm)]
    · intro hagree
      by_cases hid : t.mutation.writeId = ""
      · exact hagree hid e he hix hekey
      · obtain ⟨ev, hev, hoffers⟩ := offers_of_entry hempty hooks tick hlog hix
        obtain ⟨ev', hev', hoffers'⟩ := offers_of_runTurns ht
        have hids : e.mutation.writeId = t.mutation.writeId :=
          congrArg (fun key => key.2.2) hekey
        have hne : e.mutation.writeId ≠ "" := by rwa [hids]
        rw [hone ev hev ev' hev' _ _ hoffers hoffers' hekey hne]
        exact ⟨rfl, rfl, rfl⟩
  · -- nothing had its key, so its own entry has the number
    refine iff_of_true ⟨e, he, hseq, by rw [hm]; exact ⟨rfl, rfl, rfl⟩⟩ fun _ e' he' hix hkey => ?_
    exact absurd hkey ((hturn.indexed.reflects.writeIds_eq_none _).mp hnew e' he' hix)

end
end ServerState

section
attribute [local instance] Formatting.sample Surroundings.sample Arithmetic.sample

/-- A push that is sent again after a restart. -/
theorem ServerState.accepted_is_stored_iff_sample :
    (sampleServer.runTurns ControlPlane.default (sampleRetryEvents sampleClientInsert)).map
        (fun t => (t.mutation, t.seq)) =
      sampleServer.runAccepted ControlPlane.default (sampleRetryEvents sampleClientInsert) ∧
    ∀ t ∈ sampleServer.runTurns ControlPlane.default (sampleRetryEvents sampleClientInsert),
      (∃ e ∈ toEntries (sampleServer.run ControlPlane.default
          (sampleRetryEvents sampleClientInsert)).oplog,
        e.seq = t.seq ∧ e.mutation.SameEffect t.mutation) ↔
      (t.mutation.writeId = "" → ∀ e ∈ toEntries t.before.oplog, e.Indexable →
        writeKey e.mutation = writeKey t.mutation → e.mutation.SameEffect t.mutation) := by
  have hoffers : ∀ ev ∈ sampleRetryEvents sampleClientInsert, ∀ m, ev.Offers m →
      m = sampleClientInsert := by
    intro ev hev m hm
    simp only [sampleRetryEvents, List.mem_cons, List.not_mem_nil, or_false] at hev
    rcases hev with rfl | rfl | rfl
    · exact List.mem_singleton.mp hm
    · exact hm.elim
    · exact List.mem_singleton.mp hm
  exact ServerState.accepted_is_stored_iff ControlPlane.default MemLog.toEntries_new () 0
    fun ev hev ev' hev' m m' hm hm' _ _ =>
      (hoffers ev hev m hm).trans (hoffers ev' hev' m' hm').symm

/-- Two inserts of different documents without a write id. -/
def sampleAnonymous : List Mutation :=
  ["d", "e"].map fun id => .sample "c" "tenant" id .insert (some ⟨[("_id", .string id)]⟩) 1
    "1-0-aaaa" ""

/-- The push of both. -/
def sampleAnonymousEvents : List (ServerEvent Unit) :=
  [.push (samplePush sampleAnonymous) samplePrincipal]

/-- **An empty write id counts as a duplicate.** Both inserts are accepted, under the number of the
first, and the second is not stored. -/
theorem empty_write_id_not_stored :
    OneMutationPerWriteId sampleAnonymousEvents ∧
      (sampleServer.runAccepted ControlPlane.default sampleAnonymousEvents).map
        (fun p => (p.1.docId, p.2)) = [(⟨.string "d"⟩, 2), (⟨.string "e"⟩, 2)] ∧
      ∀ e ∈ toEntries (sampleServer.run ControlPlane.default sampleAnonymousEvents).oplog,
        e.seq = 2 → e.mutation.docId ≠ ⟨.string "e"⟩ := by
  refine ⟨?_, by decide +kernel, by decide +kernel⟩
  intro ev hev ev' hev' m m' hm hm' _ hid
  obtain rfl := List.mem_singleton.mp hev
  obtain ⟨id, -, rfl⟩ := List.mem_map.mp hm
  exact absurd rfl hid

end
end Rango
