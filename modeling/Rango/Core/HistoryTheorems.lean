import Rango.Lib.Runs
import Rango.Core.RunTheorems
import Rango.Core.WriteTheorems

/-!
# The log of the local writes

`insert_one`, `update_one` and `delete_one` overwrite what they find and append what they did
to the oplog, so that after a run of them the documents are what the log wrote last
(`run_history`). A replay of the log does not overwrite: it sorts, and then the later revision
stays, except that a tombstone gives way to everything. `log_replay_iff` says for which logs
the two come to the same.
-/

namespace Rango

/-! ## Runs of local writes -/

/-- Local writes that spare `_id`, with a clock that never goes backwards and a revision counter
that does not wrap. -/
structure LocalRun (steps : List EngineStep) : Prop where
  keepsIds : ∀ s ∈ steps, s.KeepsIds
  clocked : ∀ s ∈ steps, ∃ t, s.clock = some t ∧ t.revisionMs < 2 ^ 64 ∧
    t.revisionCounter < 2 ^ 16
  forward : steps.Pairwise fun a b => ∀ t ∈ a.clock, ∀ t' ∈ b.clock,
    t.revisionMs ≤ t'.revisionMs ∧ t.revisionCounter < t'.revisionCounter

section
variable [Formatting]

/-- Later readings give later revisions. -/
lemma WriteClock.revision_lt {t t' : WriteClock} (hms : t.revisionMs < 2 ^ 64)
    (hcounter : t.revisionCounter < 2 ^ 16) (hms' : t'.revisionMs < 2 ^ 64)
    (hcounter' : t'.revisionCounter < 2 ^ 16)
    (h : t.revisionMs ≤ t'.revisionMs ∧ t.revisionCounter < t'.revisionCounter)
    (nodeId : String) : (t.revision nodeId).key < (t'.revision nodeId).key := by
  rw [Revision.key_new hms hcounter, Revision.key_new hms' hcounter']
  rcases h.1.lt_or_eq with hlt | heq
  · exact Prod.Lex.toLex_lt_toLex.mpr (Or.inl hlt)
  · exact Prod.Lex.toLex_lt_toLex.mpr (Or.inr ⟨heq, Prod.Lex.toLex_lt_toLex.mpr (Or.inl h.2)⟩)

/-- Local writes that spare `_id` and take later and later revisions. -/
structure LaterRun (nodeId : String) (steps : List EngineStep) : Prop where
  keepsIds : ∀ s ∈ steps, s.KeepsIds
  clocked : ∀ s ∈ steps, ∃ t, s.clock = some t ∧ t.revisionMs < 2 ^ 64 ∧
    t.revisionCounter < 2 ^ 16
  later : steps.Pairwise fun a b => ∀ t ∈ a.clock, ∀ t' ∈ b.clock,
    (t.revision nodeId).key < (t'.revision nodeId).key

lemma LaterRun.tail {nodeId : String} {s : EngineStep} {rest : List EngineStep}
    (h : LaterRun nodeId (s :: rest)) : LaterRun nodeId rest where
  keepsIds x hx := h.keepsIds x (List.mem_cons_of_mem _ hx)
  clocked x hx := h.clocked x (List.mem_cons_of_mem _ hx)
  later := (List.pairwise_cons.mp h.later).2

/-- A clock that never goes backwards gives later and later revisions. -/
lemma LocalRun.laterRun {steps : List EngineStep} (h : LocalRun steps) (nodeId : String) :
    LaterRun nodeId steps where
  keepsIds := h.keepsIds
  clocked := h.clocked
  later := by
    refine h.forward.imp_of_mem fun {a b} ha hb hab t ht t' ht' => ?_
    obtain ⟨x, hx, hms, hcounter⟩ := h.clocked a ha
    obtain ⟨y, hy, hms', hcounter'⟩ := h.clocked b hb
    obtain rfl : x = t := Option.some.inj (hx.symm.trans ht)
    obtain rfl : y = t' := Option.some.inj (hy.symm.trans ht')
    exact WriteClock.revision_lt hms hcounter hms' hcounter' (hab x ht y ht') nodeId

/-- One place overwritten, as registers. -/
lemma versions_set (D : DocMap) (c : CollectionName) (k : String) (d : Document) :
    versions (D.set c k (some d)) = Function.update (versions D) (c, k) (some (version d)) := by
  funext place
  by_cases h : place = (c, k)
  · rw [h, Function.update_self]
    show (D.set c k (some d) c k).map version = some (version d)
    rw [DocMap.set_self, Option.map_some]
  · rw [Function.update_of_ne h]
    show (D.set c k (some d) place.1 place.2).map version = (D place.1 place.2).map version
    rw [DocMap.set_of_ne _ _ fun hc => h (Prod.ext hc.1 hc.2)]

/-- A document that carries a well-formed revision is compared by it. -/
lemma docRevision_of_get {d : Document} {rev : Revision}
    (hrev : Revision.fromStr rev.text = .ok rev)
    (h : d.get "_rev" = some (.string rev.text)) : docRevision d = rev := by
  simp [docRevision, Document.getStr, h, hrev, Except.toOption]

omit [Formatting] in
lemma stamp_rev (nodeId : String) (rev : Revision) (t : WriteClock) (doc : Document) :
    (RangoEngine.stamp nodeId rev t doc).get "_rev" = some (.string rev.text) := by
  unfold RangoEngine.stamp
  rw [Document.get_insert_of_ne _ _ (by decide), Document.get_insert_of_ne _ _ (by decide),
    Document.get_insert_self]

omit [Formatting] in
lemma isDeleted_stamp (nodeId : String) (rev : Revision) (t : WriteClock) (doc : Document) :
    isDeleted (RangoEngine.stamp nodeId rev t doc) = isDeleted doc := by
  unfold isDeleted Document.getBool RangoEngine.stamp
  rw [Document.get_insert_of_ne _ _ (by decide), Document.get_insert_of_ne _ _ (by decide),
    Document.get_insert_of_ne _ _ (by decide)]

/-- The hash of a mutation that its write id spells out. -/
def Mutation.contentHash [MutationHasher] (m : Mutation) : UInt64 :=
  MutationHasher.hash m.op m.collection m.docId m.patch m.rev

namespace RangoEngine

variable {σ ω : Type} [MapStorage σ] [LogOplog ω]

/-! ## One write -/

/-- The mutations that the oplog holds. -/
def logged (e : RangoEngine σ ω) : List Mutation := (toEntries e.oplog).map OplogEntry.mutation

variable [MutationHasher]

/-- What a write that goes through does: the mutation is appended to the log, and its place holds
its version. -/
structure Logs (default : CollectionName) (e e' : RangoEngine σ ω) (m : Mutation)
    (t : WriteClock) : Prop where
  nodeId : e'.nodeId = e.nodeId
  rev : m.rev = t.revision e.nodeId
  replayable : m.Replayable
  log : e'.logged = e.logged ++ [m]
  docs : versions (docMap e'.storage) =
    Register.overwrite (Mutation.place default) Mutation.version (versions (docMap e.storage)) m
  named : m.writeId = m.contentWriteId

omit [Formatting] in
lemma contentWriteId_ne (m : Mutation) : m.contentWriteId ≠ "" := by
  intro h
  have hlen := congrArg String.length h
  simp [Mutation.contentWriteId] at hlen

omit [Formatting] in
/-- Mutations whose hashes differ have different write ids. -/
lemma contentHash_eq_of_contentWriteId_eq {a b : Mutation}
    (h : a.contentWriteId = b.contentWriteId) : a.contentHash = b.contentHash := by
  have hdigit : ∀ m < 16, ∀ n < 16, Nat.digitChar m = Nat.digitChar n → m = n := by decide
  have hdigits : ∀ k < 16,
      a.contentHash.toNat / 16 ^ k % 16 = b.contentHash.toNat / 16 ^ k % 16 := by
    intro k hk
    have hchars := congrArg String.toList h
    simp only [Mutation.contentWriteId, String.toList_ofList] at hchars
    have hchar := List.map_inj_left.mp hchars (15 - k) (List.mem_range.mpr (by omega))
    rw [show 15 - (15 - k) = k by omega] at hchar
    exact hdigit _ (Nat.mod_lt _ (by decide)) _ (Nat.mod_lt _ (by decide)) hchar
  -- the digits below each power of the base determine the rest
  have hmod : ∀ k ≤ 16, a.contentHash.toNat % 16 ^ k = b.contentHash.toNat % 16 ^ k := by
    intro k hk
    induction k with
    | zero => rw [pow_zero, Nat.mod_one, Nat.mod_one]
    | succ k ih => rw [Nat.mod_pow_succ, Nat.mod_pow_succ, ih (by omega), hdigits k (by omega)]
  have hlt : ∀ x : UInt64, x.toNat < 16 ^ 16 := UInt64.toNat_lt
  have hsame := hmod 16 le_rfl
  rw [Nat.mod_eq_of_lt (hlt _), Nat.mod_eq_of_lt (hlt _)] at hsame
  exact UInt64.toNat_inj.mp hsame

/-- What the write of a local call is made of: its document carries the revision, and its
mutation carries that document, or none when the document is a tombstone. -/
structure Tells (e : RangoEngine σ ω) (w : Write) (t : WriteClock) : Prop where
  clock : w.clock = t
  rev : w.doc.get "_rev" = some (.string (t.revision e.nodeId).text)
  mutation : ∃ op patch,
    w.mutation = e.localMutation op w.collection w.id patch (t.revision e.nodeId) t ∧
      ((patch = some w.doc ∧ w.doc.printedId = some w.id.toString) ∨
        (patch = none ∧ isDeleted w.doc = true))

/-- The end of a local write that goes through. -/
lemma Tells.logs (default : CollectionName) {e : RangoEngine σ ω} {w : Write} {t : WriteClock}
    (h : e.Tells w t) (hms : t.revisionMs < 2 ^ 64) (hcounter : t.revisionCounter < 2 ^ 16)
    (hok : (e.commit w).1 = .ok ()) :
    Logs default e (e.commit w).2 w.mutation t := by
  obtain ⟨hval, hnode, hdocs, n, happend⟩ := commit_ok hok
  have hentries := LogOplog.append_ok _ _ _ _ happend
  obtain ⟨op, patch, hm, hdoc⟩ := h.mutation
  have hfrom : Revision.fromStr (t.revision e.nodeId).text = .ok (t.revision e.nodeId) :=
    Revision.fromStr_new hms hcounter
  have hplace : w.mutation.place default = (w.collection, w.id.toString) := by
    have hne : w.mutation.metadata.nameSpace ≠ "" :=
      ((MutationMetadata.validate_eq_ok_iff w.mutation.metadata).mp hval).1
    rw [hm] at hne ⊢
    have hname : w.collection.name ≠ "" := hne
    unfold Mutation.place mutationCollection localMutation
    rw [if_neg hname]
  have hpatch : w.mutation.patch = patch := by rw [hm]; rfl
  have hrev : w.mutation.rev = t.revision e.nodeId := by rw [hm]; rfl
  have hid : w.mutation.docId = w.id := by rw [hm]; rfl
  have hversion : w.mutation.version = version w.doc := by
    unfold Mutation.version version
    rw [docRevision_of_get hfrom h.rev, hrev]
    rcases hdoc with ⟨hp, -⟩ | ⟨hp, hdel⟩
    · rw [Mutation.deletes, hpatch, hp]
      rfl
    · rw [Mutation.deletes, hpatch, hp, hdel]
      rfl
  refine ⟨hnode, hrev, ⟨hval, ?_, ?_, ?_, ?_⟩, ?_, ?_, ?_⟩
  · rw [hm]
    exact contentWriteId_ne _
  · rw [hrev]
    exact hfrom
  · rw [Mutation.targetKey, Mutation.target, hpatch, hid]
    rcases hdoc with ⟨hp, hprinted⟩ | ⟨hp, -⟩
    · rw [hp]
      exact hprinted
    · rw [hp]
      rfl
  · intro doc hmem
    rw [hpatch] at hmem
    rcases hdoc with ⟨hp, -⟩ | ⟨hp, -⟩
    · rw [hp] at hmem
      rw [← Option.some.inj hmem, hrev]
      exact h.rev
    · rw [hp] at hmem
      cases hmem
  · unfold logged
    rw [hentries, List.map_append]
    rfl
  · rw [← stored_eq_docMap, hdocs, versions_set, Register.overwrite, hplace, hversion]
    rfl
  · rw [hm]
    rfl

variable [BsonCodec] [Arithmetic]

/-- The writes that a local call goes for. -/
inductive Plans (e : RangoEngine σ ω) : EngineStep → Write → Prop
  | insert (c : CollectionName) (doc : Document) (t : WriteClock) :
      Plans e (.insert c doc t) (e.insertWrite c doc t)
  | update {c : CollectionName} {id : DocumentId} {update : Document} {t : WriteClock}
      {old new : Document} (hold : docMap e.storage c id.toString = some old)
      (hnew : applyUpdate old update = .ok new) :
      Plans e (.update c id update t) (e.updateWrite c id new t)
  | delete {c : CollectionName} {id : DocumentId} {t : WriteClock} {old : Document}
      (hold : docMap e.storage c id.toString = some old) :
      Plans e (.delete c id t) (e.deleteWrite c id old t)

omit [LogOplog ω] in
theorem plans_of_planned {e : RangoEngine σ ω} {s : EngineStep} {w : Write}
    (hplan : e.planned s = some w) : Plans e s w := by
  obtain ⟨found, hfound, hprepares⟩ := prepares_of_planned hplan
  cases hprepares with
  | insert c doc t => exact .insert c doc t
  | @update c id update t old new hold hnew =>
    rw [look, storageGet_eq] at hfound
    exact .update ((Except.ok.inj hfound).trans hold) hnew
  | @delete c id t old hold =>
    rw [look, storageGet_eq] at hfound
    exact .delete ((Except.ok.inj hfound).trans hold)

omit [LogOplog ω] in
/-- Every write that a local call plans is of that kind, when the documents are filed under
their own ids and an update spares `_id`. -/
lemma planned_tells {e : RangoEngine σ ω} {s : EngineStep} {w : Write} {t : WriteClock}
    (hclock : s.clock = some t) (hkeep : s.KeepsIds) (hfiled : ∀ c, Filed (docMap e.storage) c)
    (hplan : e.planned s = some w) : e.Tells w t := by
  cases plans_of_planned hplan with
  | insert c doc t' =>
    obtain rfl : t' = t := Option.some.inj hclock
    refine ⟨rfl, ?_, .insert, some (e.insertWrite c doc t').doc, rfl, Or.inl ⟨rfl, ?_⟩⟩
    · show Document.get (Document.remove _ _) _ = _
      rw [Document.get_remove_of_ne _ (by decide), stamp_rev]
    · show (Document.get (Document.remove _ _) _).map _ = _
      rw [Document.get_remove_of_ne _ (by decide), get_stamp, Document.get_insert_self]
      rfl
  | @update c id update t' old new hold hnew =>
    obtain rfl : t' = t := Option.some.inj hclock
    refine ⟨rfl, stamp_rev _ _ _ _, .update, some (e.updateWrite c id new t').doc, rfl,
      Or.inl ⟨rfl, ?_⟩⟩
    show ((stamp e.nodeId (t'.revision e.nodeId) t' new).get "_id").map _ = _
    rw [get_stamp, get_applyUpdate_of_spares hkeep hnew]
    exact hfiled c _ _ hold
  | @delete c id t' old hold =>
    obtain rfl : t' = t := Option.some.inj hclock
    refine ⟨rfl, stamp_rev _ _ _ _, .delete, none, rfl, Or.inr ⟨rfl, ?_⟩⟩
    show isDeleted (stamp e.nodeId (t'.revision e.nodeId) t' (old.insert "_deleted" _)) = true
    rw [isDeleted_stamp, isDeleted, Document.getBool, Document.get_insert_self]
    rfl

omit [LogOplog ω] [MutationHasher] [BsonCodec] [Arithmetic] in
/-- Looking changes nothing. -/
lemma look_eq (e : RangoEngine σ ω) (s : EngineStep) : (e.look s).2 = e := by
  cases s with
  | insert c doc t => rfl
  | update c id update t => exact congrArg Prod.snd (storageGet_eq e c id)
  | delete c id t => exact congrArg Prod.snd (storageGet_eq e c id)
  | applyBatch default mutations => rfl

/-- A local call that returns a value has written and logged, or had nothing to do. -/
theorem step_logs (default : CollectionName) {e : RangoEngine σ ω} {s : EngineStep}
    {t : WriteClock} (hclock : s.clock = some t) (hms : t.revisionMs < 2 ^ 64)
    (hcounter : t.revisionCounter < 2 ^ 16) (hkeep : s.KeepsIds)
    (hfiled : ∀ c, Filed (docMap e.storage) c) (hret : e.returns s = true) :
    e.step s = e ∨ ∃ m, Logs default e (e.step s) m t := by
  obtain ⟨hreturns, hstep⟩ := attempt_eq e (s := s) (by rw [hclock]; rfl)
  have hlook : (e.look s).2 = e := look_eq e s
  rw [hstep]
  cases hplan : e.planned s with
  | none =>
    rw [attempt_of_planned_none hplan, hlook]
    exact Or.inl rfl
  | some w =>
    rw [hreturns, attempt_of_planned hplan, hlook] at hret
    rw [attempt_of_planned hplan, hlook]
    have hok : (e.commit w).1 = .ok () := by
      cases hcommit : (e.commit w).1 with
      | error err => rw [hcommit] at hret; cases hret
      | ok _ => rfl
    exact Or.inr ⟨_, (planned_tells hclock hkeep hfiled hplan).logs default hms hcounter hok⟩

/-! ## Runs -/

/-- The oplog tells the documents: each place holds what was logged for it last. -/
structure History (default : CollectionName) (e : RangoEngine σ ω) : Prop where
  replayable : ∀ m ∈ e.logged, m.Replayable
  increasing : e.logged.Pairwise fun a b => a.rev.key < b.rev.key
  docs : versions (docMap e.storage) =
    Register.written (Mutation.place default) Mutation.version e.logged
  filed : ∀ c, Filed (docMap e.storage) c
  named : ∀ m ∈ e.logged, m.writeId = m.contentWriteId

omit [BsonCodec] [Arithmetic] in
/-- A hash that tells the revisions of the logged mutations apart gives them different write
ids. -/
lemma History.writeId_ne {default : CollectionName} {e : RangoEngine σ ω} (h : History default e)
    (hinj : ∀ a ∈ e.logged, ∀ b ∈ e.logged, a.contentHash = b.contentHash → a.rev = b.rev) :
    e.logged.Pairwise fun a b => a.writeId ≠ b.writeId := by
  refine h.increasing.imp_of_mem fun {a b} ha hb hlt hsame => ?_
  rw [h.named a ha, h.named b hb] at hsame
  rw [hinj a ha b hb (contentHash_eq_of_contentWriteId_eq hsame)] at hlt
  exact lt_irrefl _ hlt

/-- A call that returned a value, or was refused before it changed anything. -/
def Undisturbed (e : RangoEngine σ ω) (s : EngineStep) : Prop :=
  e.returns s = true ∨ e.step s = e

omit [BsonCodec] [Arithmetic] in
/-- A write with a later revision than all before continues the history. -/
lemma History.logs {default : CollectionName} {e e' : RangoEngine σ ω} {m : Mutation}
    {t : WriteClock} (h : History default e) (hlogs : Logs default e e' m t)
    (hlater : ∀ x ∈ e.logged, x.rev.key < (t.revision e.nodeId).key)
    (hfiled : ∀ c, Filed (docMap e'.storage) c) : History default e' where
  replayable x hx := by
    rw [hlogs.log, List.mem_append, List.mem_singleton] at hx
    rcases hx with hx | rfl
    · exact h.replayable x hx
    · exact hlogs.replayable
  increasing := by
    rw [hlogs.log, List.pairwise_append]
    refine ⟨h.increasing, List.pairwise_singleton _ _, fun x hx y hy => ?_⟩
    rw [List.mem_singleton.mp hy, hlogs.rev]
    exact hlater x hx
  docs := by rw [hlogs.log, Register.written_append_singleton, hlogs.docs, h.docs]
  filed := hfiled
  named x hx := by
    rw [hlogs.log, List.mem_append, List.mem_singleton] at hx
    rcases hx with hx | rfl
    · exact h.named x hx
    · exact hlogs.named

/-- A run of such writes leaves the documents that its log tells. -/
theorem run_history_of_later (default : CollectionName) {e : RangoEngine σ ω}
    {steps : List EngineStep} (hlocal : LaterRun e.nodeId steps)
    (hcalls : Runs.All step Undisturbed e steps) (h : History default e)
    (hlater : ∀ s ∈ steps, ∀ t ∈ s.clock, ∀ m ∈ e.logged,
      m.rev.key < (t.revision e.nodeId).key) : History default (e.run steps) := by
  induction steps generalizing e with
  | nil => exact h
  | cons s rest ih =>
    obtain ⟨hcall, hcalls⟩ := hcalls
    obtain ⟨t, hclock, hms, hcounter⟩ := hlocal.clocked s List.mem_cons_self
    have hkeep := hlocal.keepsIds s List.mem_cons_self
    have hlater' : ∀ x ∈ rest, ∀ t' ∈ x.clock, ∀ m ∈ e.logged,
        m.rev.key < (t'.revision e.nodeId).key := fun x hx =>
      hlater x (List.mem_cons_of_mem _ hx)
    have hcases : e.step s = e ∨ ∃ m, Logs default e (e.step s) m t :=
      hcall.elim (step_logs default hclock hms hcounter hkeep h.filed) Or.inl
    show History default ((e.step s).run rest)
    rcases hcases with hsame | ⟨m, hlogs⟩
    · rw [hsame] at hcalls ⊢
      exact ih hlocal.tail hcalls h hlater'
    · refine ih (hlogs.nodeId ▸ hlocal.tail) hcalls
        (h.logs hlogs (hlater s List.mem_cons_self t hclock) (step_filed hkeep h.filed)) ?_
      intro x hx t' ht' y hy
      rw [hlogs.nodeId]
      rw [hlogs.log, List.mem_append, List.mem_singleton] at hy
      rcases hy with hy | rfl
      · exact hlater' x hx t' ht' y hy
      · rw [hlogs.rev]
        exact (List.pairwise_cons.mp hlocal.later).1 x hx t hclock t' ht'

/-- A run of local writes leaves the documents that its log tells. -/
theorem run_history (default : CollectionName) {e : RangoEngine σ ω} {steps : List EngineStep}
    (hlocal : LocalRun steps) (hcalls : Runs.All step Undisturbed e steps)
    (h : History default e)
    (hlater : ∀ s ∈ steps, ∀ t ∈ s.clock, ∀ m ∈ e.logged,
      m.rev.key < (t.revision e.nodeId).key) : History default (e.run steps) :=
  run_history_of_later default (hlocal.laterRun e.nodeId) hcalls h hlater

omit [BsonCodec] [Arithmetic] in
/-- A new engine with an empty oplog. -/
lemma Fresh.history {e : RangoEngine σ ω} (he : e.Fresh) (hlog : toEntries e.oplog = [])
    (default : CollectionName) : History default e := by
  have hnone : e.logged = [] := by rw [logged, hlog, List.map_nil]
  refine ⟨?_, ?_, ?_, ?_, ?_⟩
  · rw [hnone]
    simp
  · rw [hnone]
    exact List.Pairwise.nil
  · rw [hnone, he.docs]
    rfl
  · rw [he.docs]
    exact filed_empty
  · rw [hnone]
    simp

/-! ## Replaying the log -/

/-- Each live mutation has a live one as the latest of its document, or is followed in the
canonical order by a newer mutation of its document. -/
def DeletionsOutlast (default : CollectionName) (ms : List Mutation) : Prop :=
  ∀ m ∈ ms, m.deletes = false →
    (∃ top ∈ ms, top.place default = m.place default ∧ top.deletes = false ∧
      ∀ m' ∈ ms, m'.place default = m.place default → m'.rev.cmp top.rev ≠ .gt) ∨
    ∃ m' ∈ ms, m'.place default = m.place default ∧ m.rev.cmp m'.rev = .lt ∧ CanonicalLt m m'

variable {σ' ω' : Type} [MapStorage σ']

/-- **The log against the documents.** Take a run of local writes on a new engine with an empty
oplog, whose clock never goes backwards and whose calls are undisturbed, and read back the whole
oplog; let the hash tell its mutations apart. Applied to a new engine, these mutations show every
document as the first engine shows it exactly when each live one of them has a live one as the
latest of its document, or is followed in the canonical order by a newer one of its document. -/
theorem log_replay_iff {e : RangoEngine σ ω} (he : e.Fresh) (hlog : toEntries e.oplog = [])
    {steps : List EngineStep} (hlocal : LocalRun steps)
    (hcalls : Runs.All step Undisturbed e steps) {limit : ℕ} {entries : List OplogEntry}
    (hlimit : 0 < limit) (hread : Oplog.readSince 1 limit (e.run steps).oplog = .ok entries)
    (hall : (toEntries (e.run steps).oplog).length ≤ limit)
    (hhash : ∀ a ∈ entries.map OplogEntry.mutation, ∀ b ∈ entries.map OplogEntry.mutation,
      a.contentHash = b.contentHash → a.rev = b.rev)
    {f : RangoEngine σ' ω'} (hf : f.Fresh) (default : CollectionName) :
    (f.applyMutationsDeterministic default (entries.map OplogEntry.mutation)).1
        = .ok entries.length ∧
      ((∀ c id, (f.applyMutationsDeterministic default
            (entries.map OplogEntry.mutation)).2.visible c id = (e.run steps).visible c id) ↔
        DeletionsOutlast default (entries.map OplogEntry.mutation)) := by
  have hstart : History default e := he.history hlog default
  have hhist : History default (e.run steps) := by
    refine run_history default hlocal hcalls hstart ?_
    intro s _ t _ m hm
    rw [logged, hlog] at hm
    cases hm
  have hms : entries.map OplogEntry.mutation = (e.run steps).logged := by
    rw [logged, readSince_one hlimit hread hall]
  have hlength : entries.length = (e.run steps).logged.length := by
    rw [← hms, List.length_map]
  rw [hms] at hhash ⊢
  rw [hlength]
  have hids := hhist.writeId_ne hhash
  set ms := (e.run steps).logged with hmsdef
  -- the replay applies all of them
  have hperm := List.perm_insertionSort CanonicalLe ms
  have hreplayable : ∀ m ∈ ms.insertionSort CanonicalLe, m.Replayable := fun m hm =>
    hhist.replayable m (hperm.mem_iff.mp hm)
  have happlicable : ∀ m ∈ ms.insertionSort CanonicalLe, m.Applicable := fun m hm =>
    (hreplayable m hm).applicable
  obtain ⟨hout, hfol⟩ := applyMutationsDeterministic_eq f default ms
  have hkept : (plan f.appliedWriteIds (ms.insertionSort CanonicalLe)).kept
      = ms.insertionSort CanonicalLe := by
    refine plan_kept_of_new happlicable (fun m hm => (hreplayable m hm).writeId) ?_ ?_
    · simp [hf.ids]
    · exact (hperm.pairwise_iff fun h => Ne.symm h).mpr hids
  have hreplay : versions (docMap (f.applyMutationsDeterministic default ms).2.storage) =
      Register.replay (Mutation.place default) Mutation.version
        (ms.insertionSort CanonicalLe) := by
    rw [hfol.docs, hkept, versions_foldl_deliver hreplayable, hf.docs]
    rfl
  refine ⟨?_, ?_⟩
  · rw [hout, Plan.outcome_eq_ok (plan_stopped happlicable _), hkept, Nat.zero_add,
      hperm.length_eq]
  · have hiff := Register.replay_eq_written_iff (Mutation.place default)
      Mutation.version hhist.increasing hperm (pairwise_canonicalLt hids)
      fun _ _ => CanonicalLt.asymm
    simp only [isSome_body_version, Bool.not_eq_true', hasLiveTop_iff] at hiff
    have hcond : DeletionsOutlast default ms ↔ ∀ k, Register.visible (Register.replay
        (Mutation.place default) Mutation.version (ms.insertionSort CanonicalLe) k) =
          Register.visible (Register.written (Mutation.place default) Mutation.version ms k) := by
      rw [hiff, DeletionsOutlast]
      simp only [Revision.cmp_eq_lt]
      rfl
    rw [hcond]
    simp only [visible_eq, hreplay, hhist.docs, ← hmsdef]
    constructor
    · intro h k
      by_cases hk : ∃ m ∈ ms, m.place default = k
      · obtain ⟨m, -, rfl⟩ := hk
        exact Except.ok.inj (h (mutationCollection default m) m.docId)
      · -- nothing was written there
        have hne : ∀ m ∈ ms, m.place default ≠ k := fun m hm hmk => hk ⟨m, hm, hmk⟩
        rw [Register.written_of_forall_ne hne,
          Register.replay_of_forall_ne fun m hm => hne m (hperm.mem_iff.mp hm)]
    · intro h c id
      rw [h (c, id.toString)]

end RangoEngine
end

section
attribute [local instance] Formatting.sample Arithmetic.sample sampleWriteCodec

/-- A hasher that tells the operations apart. -/
@[reducible] def sampleOpHasher : MutationHasher where
  hash op _ _ _ _ :=
    match op with
    | .insert => 2
    | .update => 1
    | .delete => 0

attribute [local instance] sampleOpHasher

/-- An insert, and a delete of the same document at the given millisecond. -/
def sampleHistory (ms : ℕ) : List EngineStep :=
  [.insert ⟨"c"⟩ sampleDoc (.sample 1 0), .delete ⟨"c"⟩ ⟨.string "d"⟩ (.sample ms 1)]

/-- What the node's oplog then holds. -/
def sampleLog (ms : ℕ) : List OplogEntry :=
  toEntries (sampleWriter.run (sampleHistory ms)).oplog

lemma sampleWriter_fresh : sampleWriter.Fresh := ⟨MemoryStorage.docMap_new, rfl⟩

lemma sampleHistory_local {ms : ℕ} (h : 1 ≤ ms) (hms : ms < 2 ^ 64) :
    LocalRun (sampleHistory ms) where
  keepsIds s hs := by
    rcases List.mem_pair.mp hs with rfl | rfl
    · trivial
    · trivial
  clocked s hs := by
    rcases List.mem_pair.mp hs with rfl | rfl
    · exact ⟨_, rfl, by decide, by decide⟩
    · exact ⟨_, rfl, hms, show 1 < 2 ^ 16 by decide⟩
  forward := by
    refine List.pairwise_pair.mpr fun t ht t' ht' => ?_
    rw [← Option.some.inj ht, ← Option.some.inj ht']
    exact ⟨h, Nat.one_pos⟩

/-- An insert and a delete one millisecond later. -/
theorem RangoEngine.log_replay_iff_later :
    ((sampleNode "a").applyMutationsDeterministic ⟨"c"⟩
        ((sampleLog 2).map OplogEntry.mutation)).1 = .ok (sampleLog 2).length ∧
      ((∀ c id, ((sampleNode "a").applyMutationsDeterministic ⟨"c"⟩
            ((sampleLog 2).map OplogEntry.mutation)).2.visible c id
          = (sampleWriter.run (sampleHistory 2)).visible c id) ↔
        DeletionsOutlast ⟨"c"⟩ ((sampleLog 2).map OplogEntry.mutation)) :=
  log_replay_iff sampleWriter_fresh rfl (sampleHistory_local (by decide) (by decide))
    ⟨Or.inl (by decide +kernel), Or.inl (by decide +kernel), trivial⟩ (show 0 < 2 by decide)
    (by decide +kernel) (by decide +kernel) (by decide +kernel) (sampleNode_fresh "a") ⟨"c"⟩

/-- An insert and a delete within one millisecond, where the delete's write id is the smaller
one: the replay of the log takes the delete first, and the document is back. -/
theorem replayed_log_undoes_delete :
    LocalRun (sampleHistory 1) ∧
      Runs.All RangoEngine.step RangoEngine.Undisturbed sampleWriter (sampleHistory 1) ∧
      Oplog.readSince 1 2 (sampleWriter.run (sampleHistory 1)).oplog = .ok (sampleLog 1) ∧
      ((sampleLog 1).map OplogEntry.mutation).Pairwise (fun a b => a.writeId ≠ b.writeId) ∧
      (sampleWriter.run (sampleHistory 1)).visible ⟨"c"⟩ ⟨.string "d"⟩ = .ok none ∧
      ((sampleNode "a").applyMutationsDeterministic ⟨"c"⟩
        ((sampleLog 1).map OplogEntry.mutation)).2.visible ⟨"c"⟩ ⟨.string "d"⟩ =
          .ok (some sampleStored) := by
  refine ⟨sampleHistory_local (by decide) (by decide), ?_, ?_, ?_, ?_, ?_⟩
  · exact ⟨Or.inl (by decide +kernel), Or.inl (by decide +kernel), trivial⟩
  · decide +kernel
  · decide +kernel
  · decide +kernel
  · decide +kernel

end
end Rango
