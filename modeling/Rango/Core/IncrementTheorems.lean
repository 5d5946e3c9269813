import Rango.Core.RevisionTheorems

/-!
# Increments

What `update_one` makes of `{$inc: {field: b}}` on a document that holds an integer `a` in the
field. It adds or fails just when the field is one that the engine leaves alone and both integers
have one width, in which the sum fits (`RangoEngine.inc_adds_iff`). Integers of different widths
are passed over, and a sum that does not fit panics or wraps.
-/

namespace Rango

/-! ## Integers of two widths -/

/-- `Bson::Int64` if wide, `Bson::Int32` otherwise. -/
def intBson (wide : Bool) (i : ℤ) : Bson := if wide then .int64 i else .int32 i

/-- The width in bits. -/
def intWidth (wide : Bool) : ℕ := if wide then 64 else 32

/-- The range of the width. -/
def Fits (wide : Bool) (i : ℤ) : Prop :=
  if wide then -2 ^ 63 ≤ i ∧ i < 2 ^ 63 else -2 ^ 31 ≤ i ∧ i < 2 ^ 31

instance (wide : Bool) (i : ℤ) : Decidable (Fits wide i) := by
  unfold Fits
  infer_instance

lemma intBson_inj {wide wide' : Bool} {i j : ℤ} (h : intBson wide i = intBson wide' j) : i = j := by
  cases wide <;> cases wide' <;>
    first | exact Bson.int32.inj h | exact Bson.int64.inj h | cases h

lemma fits_iff (wide : Bool) (i : ℤ) : Fits wide i ↔ i.bmod (2 ^ intWidth wide) = i := by
  cases wide with
  | false =>
    show -2 ^ 31 ≤ i ∧ i < 2 ^ 31 ↔ i.bmod (2 ^ 32) = i
    rw [Int.bmod_def]
    omega
  | true =>
    show -2 ^ 63 ≤ i ∧ i < 2 ^ 63 ↔ i.bmod (2 ^ 64) = i
    rw [Int.bmod_def]
    omega

/-! ## The update -/

/-- The update `{$inc: {field: operand}}`. -/
def incUpdate (field : String) (operand : Bson) : Document :=
  ⟨[("$inc", .document [(field, operand)])]⟩

section
variable [Arithmetic] {doc doc' : Document} {field : String} {wide wide' : Bool} {a b : ℤ}

lemma applyUpdate_inc (doc : Document) (field : String) (operand : Bson) :
    applyUpdate doc (incUpdate field operand) = applyInc doc field operand := by
  have hop : applyOperator doc "$inc" (.document [(field, operand)]) =
      applyInc doc field operand := by
    show [(field, operand)].foldlM (fun doc kv => applyInc doc kv.1 kv.2) doc = _
    simp
  show [("$inc", Bson.document [(field, operand)])].foldlM
    (fun doc kv => applyOperator doc kv.1 kv.2) doc = _
  simpa using hop

/-- Integers of different widths are not added. -/
lemma applyInc_of_ne (h : doc.get field = some (intBson wide a)) (hwide : wide ≠ wide') :
    applyInc doc field (intBson wide' b) = .ok doc := by
  cases wide <;> cases wide' <;> first | exact absurd rfl hwide | simp [applyInc, h, intBson]

/-- Integers of one width are. -/
lemma applyInc_same (h : doc.get field = some (intBson wide a)) :
    applyInc doc field (intBson wide b) =
      (addSigned (intWidth wide) a b).map fun r => doc.insert field (intBson wide r) := by
  cases wide <;> simp [applyInc, h, intBson, intWidth]

/-- A sum that returns is exact just when it fits. -/
lemma addSigned_of_fits (h : Fits wide (a + b)) :
    addSigned (intWidth wide) a b = .ok (a + b) := if_pos ((fits_iff wide _).mp h)

lemma fits_of_addSigned (h : addSigned (intWidth wide) a b = .ok (a + b)) :
    Fits wide (a + b) := by
  rw [fits_iff]
  unfold addSigned at h
  split_ifs at h with hfits
  · exact hfits
  · exact Except.ok.inj h

/-- A sum that fails panics. -/
lemma addSigned_error {width : ℕ} {fault : Fault} (h : addSigned width a b = .error fault) :
    fault = .panic := by
  unfold addSigned at h
  split_ifs at h
  exact (Except.error.inj h).symm

lemma applyInc_error {v : Bson} {fault : Fault} (h : applyInc doc field v = .error fault) :
    fault = .panic := by
  have hmap : ∀ {width : ℕ} {i j : ℤ} {f : ℤ → Document},
      (addSigned width i j).map f = .error fault → fault = .panic := by
    intro width i j f hmap
    cases hsum : addSigned width i j with
    | error fault' =>
      rw [hsum] at hmap
      cases hmap
      exact addSigned_error hsum
    | ok r =>
      rw [hsum] at hmap
      cases hmap
  unfold applyInc at h
  split at h
  · exact hmap h
  · exact hmap h
  · cases h
  · cases h

/-- **When the field holds the sum after the update.** -/
lemma applyInc_adds_iff (h : doc.get field = some (intBson wide a)) :
    (∃ doc' wide₁, applyInc doc field (intBson wide' b) = .ok doc' ∧
      doc'.get field = some (intBson wide₁ (a + b))) ↔
      (wide = wide' ∧ Fits wide (a + b)) ∨ (wide ≠ wide' ∧ b = 0) := by
  by_cases hwide : wide = wide'
  · subst hwide
    rw [applyInc_same h]
    constructor
    · intro ⟨doc', wide₁, hdoc', hget⟩
      cases hsum : addSigned (intWidth wide) a b with
      | error fault =>
        rw [hsum] at hdoc'
        cases hdoc'
      | ok r =>
        rw [hsum] at hdoc'
        cases hdoc'
        rw [Document.get_insert_self] at hget
        have hr : r = a + b := intBson_inj (Option.some.inj hget)
        exact .inl ⟨rfl, fits_of_addSigned (by rw [hsum, hr])⟩
    · rintro (⟨-, hfits⟩ | ⟨hne, -⟩)
      · rw [addSigned_of_fits hfits]
        exact ⟨_, wide, rfl, Document.get_insert_self _ _ _⟩
      · exact absurd rfl hne
  · rw [applyInc_of_ne h hwide]
    constructor
    · intro ⟨doc', wide₁, hdoc', hget⟩
      cases hdoc'
      rw [h] at hget
      have hsum := intBson_inj (Option.some.inj hget)
      exact .inr ⟨hwide, by omega⟩
    · rintro (⟨heq, -⟩ | ⟨-, hzero⟩)
      · exact absurd heq hwide
      · exact ⟨doc, wide, rfl, by rw [h, hzero, add_zero]⟩

end

/-! ## The call -/

/-- The fields that every local write sets. -/
def stampedFields : List String := ["_rev", "_updated_at", "_source_node"]

lemma get_stamp_of_not_mem {nodeId : String} {rev : Revision} {t : WriteClock} {doc : Document}
    {field : String} (h : field ∉ stampedFields) :
    (RangoEngine.stamp nodeId rev t doc).get field = doc.get field := by
  simp only [stampedFields, List.mem_cons, List.not_mem_nil, or_false, not_or] at h
  rw [RangoEngine.stamp, Document.get_insert_of_ne _ _ (Ne.symm h.2.2),
    Document.get_insert_of_ne _ _ (Ne.symm h.2.1), Document.get_insert_of_ne _ _ (Ne.symm h.1)]

/-- The stamp is not an integer. -/
lemma get_stamp_of_mem {nodeId : String} {rev : Revision} {t : WriteClock} {doc : Document}
    {field : String} (h : field ∈ stampedFields) (wide : Bool) (i : ℤ) :
    (RangoEngine.stamp nodeId rev t doc).get field ≠ some (intBson wide i) := by
  simp only [stampedFields, List.mem_cons, List.not_mem_nil, or_false] at h
  rcases h with rfl | rfl | rfl
  all_goals cases wide <;> simp [RangoEngine.stamp, intBson]

namespace RangoEngine

section
variable [Formatting] {σ ω : Type} [FallibleStorage σ]

/-- The call failed and nothing changed, or the field holds the sum. It did not panic. -/
structure AddsOrFails (e : RangoEngine σ ω) (c : CollectionName) (id : DocumentId)
    (field : String) (sum : ℤ) (r : Except Fault Bool × RangoEngine σ ω) : Prop where
  returns : r.1 ≠ .error .panic
  outcome : ((∃ err, r.1 = .error (.error err)) ∧ stored r.2.storage = stored e.storage) ∨
    ∃ doc wide, stored r.2.storage c id.toString = some doc ∧
      doc.get field = some (intBson wide sum)

/-- The call failed and nothing changed, or the document was put. It did not panic. -/
structure PutsOrFails (before : DocMap) (c : CollectionName) (id : DocumentId) (doc : Document)
    (r : Except Fault Bool × RangoEngine σ ω) : Prop where
  returns : r.1 ≠ .error .panic
  outcome : ((∃ err, r.1 = .error (.error err)) ∧ stored r.2.storage = before) ∨
    stored r.2.storage = before.set c id.toString (some doc)

variable [Arithmetic] [Oplog ω] [BsonCodec] [MutationHasher] {e : RangoEngine σ ω}
  {c : CollectionName} {id : DocumentId} {update old new : Document} {t : WriteClock}

/-- The end of `update_one`: put the document and report the mutation. -/
def commitUpdate (e : RangoEngine σ ω) (c : CollectionName) (id : DocumentId) (rev : Revision)
    (doc : Document) (t : WriteClock) : Except Fault Bool × RangoEngine σ ω :=
  match e.storagePut c id doc with
  | (.error err, e) => (.error (.error err), e)
  | (.ok (), e) =>
    match e.report (e.localMutation .update c id (some doc) rev t) t with
    | (.error err, e) => (.error (.error err), e)
    | (.ok (), e) => (.ok true, e)

omit [Arithmetic] [BsonCodec] in
lemma commitUpdate_puts (rev : Revision) :
    Puts e c id new Fault.error true (e.commitUpdate c id rev new t) := puts_end ..

omit [Arithmetic] [BsonCodec] in
lemma commitUpdate_putsOrFails (rev : Revision) :
    PutsOrFails (stored e.storage) c id new (e.commitUpdate c id rev new t) := by
  obtain ⟨hanswer, hdocs⟩ : Puts e c id new Fault.error true (e.commitUpdate c id rev new t) :=
    commitUpdate_puts rev
  constructor
  · rcases hanswer with hok | ⟨err, hfailed⟩
    · rw [hok]
      simp
    · rw [hfailed]
      simp
  · rcases hdocs with ⟨-, hne, hkept⟩ | hset
    · exact .inl ⟨hanswer.resolve_left hne, hkept⟩
    · exact .inr hset

/-- `update_one` once it has read the document. -/
def updateFound (e : RangoEngine σ ω) (c : CollectionName) (id : DocumentId) (old : Document)
    (update : Document) (t : WriteClock) : Except Fault Bool × RangoEngine σ ω :=
  if isDeleted old then (.ok false, e)
  else
    match applyUpdate old update with
    | .error fault => (.error fault, e)
    | .ok new =>
      let doc := stamp e.nodeId (t.revision e.nodeId) t new
      match e.validateDocumentSize doc with
      | .error err => (.error (.error err), e)
      | .ok () => e.commitUpdate c id (t.revision e.nodeId) doc t

lemma updateOne_of_get {e₁ : RangoEngine σ ω} (hget : e.storageGet c id = (.ok (some old), e₁)) :
    e.updateOne c id update t = e₁.updateFound c id old update t := by
  unfold updateOne
  rw [hget]
  rfl

/-- A tombstone is left alone. -/
lemma updateFound_deleted (hdel : isDeleted old = true) :
    e.updateFound c id old update t = (.ok false, e) := if_pos hdel

/-- The fault of an operator is passed on. -/
lemma updateFound_fault {fault : Fault} (hlive : isDeleted old = false)
    (hfault : applyUpdate old update = .error fault) :
    e.updateFound c id old update t = (.error fault, e) := by
  unfold updateFound
  rw [if_neg (by simp [hlive]), hfault]

lemma updateFound_putsOrFails (hlive : isDeleted old = false)
    (hnew : applyUpdate old update = .ok new) :
    PutsOrFails (stored e.storage) c id (stamp e.nodeId (t.revision e.nodeId) t new)
      (e.updateFound c id old update t) := by
  unfold updateFound
  rw [if_neg (by simp [hlive]), hnew]
  dsimp only
  -- a document that is too large is not put
  split
  · exact ⟨by simp, .inl ⟨⟨_, rfl⟩, rfl⟩⟩
  · exact commitUpdate_putsOrFails (t.revision e.nodeId)

/-- An update fails to read, or goes on with what is stored. -/
lemma updateOne_cases (hold : stored e.storage c id.toString = some old) :
    ∃ e₁ : RangoEngine σ ω, stored e₁.storage = stored e.storage ∧
      ((∃ err, e.updateOne c id update t = (.error (.error err), e₁)) ∨
        e.updateOne c id update t = e₁.updateFound c id old update t) := by
  obtain ⟨hkeeps, hfound⟩ := storageGet_stored e c id
  refine ⟨(e.storageGet c id).2, hkeeps, ?_⟩
  rcases hcall : e.storageGet c id with ⟨r, e₁⟩
  rw [hcall] at hfound
  cases r with
  | error err =>
    refine .inl ⟨err, ?_⟩
    unfold updateOne
    rw [hcall]
  | ok found =>
    obtain rfl : found = some old := (hfound found rfl).trans hold
    exact .inr (updateOne_of_get hcall)

end

/-! ## An engine that takes every update -/

/-- A codec that never fails. -/
@[reducible] def lenientCodec : BsonCodec where
  toWriter _ := .ok []
  fromReader _ := .ok Document.empty
  serializeEntry _ := .ok Document.empty
  deserializeEntry _ := .error "unknown"

section
variable [Formatting] [Arithmetic] {old new update : Document} {t : WriteClock}

attribute [local instance] lenientCodec MutationHasher.sample

/-- An engine that stores the document. -/
def holding (doc : Document) : RangoEngine MemoryStorage NullOplog :=
  .openEngine (StorageEngine.put ⟨"c"⟩ ⟨.string "d"⟩ doc MemoryStorage.new).2 ⟨0⟩ "a"

omit [Arithmetic] in
lemma holding_stored (doc : Document) :
    stored (holding doc).storage ⟨"c"⟩ (DocumentId.toString ⟨.string "d"⟩) = some doc := by
  obtain ⟨s, hput, hdocs⟩ := storage_put_eq ⟨"c"⟩ ⟨.string "d"⟩ doc MemoryStorage.new
  show docMap (StorageEngine.put ⟨"c"⟩ ⟨.string "d"⟩ doc MemoryStorage.new).2 _ _ = _
  rw [hput, hdocs, DocMap.set_self]

omit [Arithmetic] in
lemma holding_get (doc : Document) :
    (holding doc).storageGet ⟨"c"⟩ ⟨.string "d"⟩ = (.ok (some doc), holding doc) := by
  have hget := storage_get_eq ⟨"c"⟩ ⟨.string "d"⟩ (holding doc).storage
  have hdoc : docMap (holding doc).storage ⟨"c"⟩ (DocumentId.toString ⟨.string "d"⟩) = some doc :=
    holding_stored doc
  rw [hdoc] at hget
  unfold storageGet
  rw [hget]

lemma holding_updateOne :
    (holding old).updateOne ⟨"c"⟩ ⟨.string "d"⟩ update t =
      (holding old).updateFound ⟨"c"⟩ ⟨.string "d"⟩ old update t :=
  updateOne_of_get (holding_get old)

lemma holding_deleted (hdel : isDeleted old = true) :
    (holding old).updateOne ⟨"c"⟩ ⟨.string "d"⟩ update t = (.ok false, holding old) := by
  rw [holding_updateOne, updateFound_deleted hdel]

lemma holding_fault {fault : Fault} (hlive : isDeleted old = false)
    (hfault : applyUpdate old update = .error fault) :
    (holding old).updateOne ⟨"c"⟩ ⟨.string "d"⟩ update t = (.error fault, holding old) := by
  rw [holding_updateOne, updateFound_fault hlive hfault]

/-- It stores every update that its operators take. -/
lemma holding_updated (hlive : isDeleted old = false) (hnew : applyUpdate old update = .ok new) :
    stored ((holding old).updateOne ⟨"c"⟩ ⟨.string "d"⟩ update t).2.storage ⟨"c"⟩
      (DocumentId.toString ⟨.string "d"⟩) = some (stamp "a" (t.revision "a") t new) := by
  have hput : ((holding old).storagePut ⟨"c"⟩ ⟨.string "d"⟩
      (stamp "a" (t.revision "a") t new)).1 = .ok () := rfl
  have hcall : (holding old).updateFound ⟨"c"⟩ ⟨.string "d"⟩ old update t =
      (holding old).commitUpdate ⟨"c"⟩ ⟨.string "d"⟩ (t.revision "a")
        (stamp "a" (t.revision "a") t new) t := by
    unfold updateFound
    rw [if_neg (by simp [hlive]), hnew]
    rfl
  have hset := (commitUpdate_puts (t := t) (t.revision "a")).docs.resolve_left
    fun hfailed => by rw [hput] at hfailed; cases hfailed.1
  rw [holding_updateOne, hcall, hset, DocMap.set_self]

omit [Formatting] [Arithmetic] in
/-- A reading of the clock that differs from the time the document was last updated. -/
lemma exists_other_time (doc : Document) :
    ∃ t : WriteClock, doc.get "_updated_at" ≠ some (.dateTime t.docUpdatedAt) := by
  by_cases hzero : doc.get "_updated_at" = some (.dateTime 0)
  · refine ⟨{ WriteClock.sample 0 0 with docUpdatedAt := 1 }, ?_⟩
    rw [hzero]
    simp
  · exact ⟨{ WriteClock.sample 0 0 with docUpdatedAt := 0 }, hzero⟩

end

/-! ## When an increment adds or fails -/

section
variable [Formatting] [Arithmetic]

/-- The increment adds or fails on every engine that stores the document. -/
def IncAdds (old : Document) (field : String) (operand : Bson) (sum : ℤ) : Prop :=
  ∀ (σ ω : Type) [FallibleStorage σ] [Oplog ω] [BsonCodec] [MutationHasher]
    (e : RangoEngine σ ω) (c : CollectionName) (id : DocumentId) (t : WriteClock),
    stored e.storage c id.toString = some old →
      AddsOrFails e c id field sum (e.updateOne c id (incUpdate field operand) t)

variable {old : Document} {field : String} {wide wide' : Bool} {a b : ℤ}

lemma incAdds_of_deleted (h : old.get field = some (intBson wide a)) (hdel : isDeleted old = true) :
    IncAdds old field (intBson wide' b) (a + b) ↔ b = 0 := by
  constructor
  · intro hadds
    have hcall := (@hadds MemoryStorage NullOplog _ _ lenientCodec .sample (holding old) ⟨"c"⟩
      ⟨.string "d"⟩ (.sample 0 0) (holding_stored old)).outcome
    rw [holding_deleted hdel] at hcall
    rcases hcall with ⟨⟨err, herr⟩, -⟩ | ⟨doc, wide₁, hdoc, hget⟩
    · cases herr
    · rw [holding_stored] at hdoc
      cases hdoc
      rw [h] at hget
      have hsum := intBson_inj (Option.some.inj hget)
      omega
  · intro hzero σ ω _ _ _ _ e c id t hold
    obtain ⟨e₁, hkeeps, ⟨err, hcall⟩ | hcall⟩ := updateOne_cases hold
    · rw [hcall]
      exact ⟨by simp, .inl ⟨⟨err, rfl⟩, hkeeps⟩⟩
    · rw [hcall, updateFound_deleted hdel]
      exact ⟨by simp, .inr ⟨old, wide, by rw [hkeeps, hold], by rw [h, hzero, add_zero]⟩⟩

lemma incAdds_of_live (hlive : isDeleted old = false) :
    IncAdds old field (intBson wide' b) (a + b) ↔ field ∉ stampedFields ∧
      ∃ new wide₁, applyInc old field (intBson wide' b) = .ok new ∧
        new.get field = some (intBson wide₁ (a + b)) := by
  constructor
  · intro hadds
    obtain ⟨t, ht⟩ := exists_other_time old
    obtain ⟨hreturns, houtcome⟩ := @hadds MemoryStorage NullOplog _ _ lenientCodec .sample
      (holding old) ⟨"c"⟩ ⟨.string "d"⟩ t (holding_stored old)
    cases hnew : applyInc old field (intBson wide' b) with
    | error fault =>
      have hfault := (applyUpdate_inc old field (intBson wide' b)).trans hnew
      rw [holding_fault hlive hfault, applyInc_error hnew] at hreturns
      exact absurd rfl hreturns
    | ok new =>
      have hstored := holding_updated (t := t) hlive
        ((applyUpdate_inc old field (intBson wide' b)).trans hnew)
      rcases houtcome with ⟨-, hsame⟩ | ⟨doc, wide₁, hdoc, hget⟩
      · -- the stamp of the update shows that something changed
        rw [hsame, holding_stored] at hstored
        refine absurd ?_ ht
        rw [Option.some.inj hstored]
        simp [stamp]
      · rw [hstored] at hdoc
        cases hdoc
        have hfield : field ∉ stampedFields := fun hmem => get_stamp_of_mem hmem wide₁ _ hget
        rw [get_stamp_of_not_mem hfield] at hget
        exact ⟨hfield, new, wide₁, rfl, hget⟩
  · intro ⟨hfield, new, wide₁, hnew, hget⟩ σ ω _ _ _ _ e c id t hold
    obtain ⟨e₁, hkeeps, ⟨err, hcall⟩ | hcall⟩ := updateOne_cases hold
    · rw [hcall]
      exact ⟨by simp, .inl ⟨⟨err, rfl⟩, hkeeps⟩⟩
    · have hupdate := (applyUpdate_inc old field (intBson wide' b)).trans hnew
      obtain ⟨hreturns, houtcome⟩ :=
        updateFound_putsOrFails (e := e₁) (c := c) (t := t) hlive hupdate
      rw [hcall]
      refine ⟨hreturns, ?_⟩
      rcases houtcome with ⟨herr, hsame⟩ | hset
      · exact .inl ⟨herr, hsame.trans hkeeps⟩
      · refine .inr ⟨stamp e₁.nodeId (t.revision e₁.nodeId) t new, wide₁, ?_, ?_⟩
        · rw [hset, DocMap.set_self]
        · rw [get_stamp_of_not_mem hfield, hget]

/-- **When an increment adds or fails.** -/
theorem inc_adds_iff (h : old.get field = some (intBson wide a)) :
    IncAdds old field (intBson wide' b) (a + b) ↔
      (isDeleted old = true ∧ b = 0) ∨
        (isDeleted old = false ∧ field ∉ stampedFields ∧
          ((wide = wide' ∧ Fits wide (a + b)) ∨ (wide ≠ wide' ∧ b = 0))) := by
  cases hdel : isDeleted old with
  | true =>
    rw [incAdds_of_deleted h hdel]
    simp
  | false =>
    rw [incAdds_of_live hdel, applyInc_adds_iff h]
    simp

end

/-! ## A counter -/

section
attribute [local instance] Formatting.sample MutationHasher.sample Arithmetic.sample lenientCodec

/-- A document with an `Int32`. -/
def sampleCounter : Document := ⟨[("_id", .string "d"), ("n", .int32 1)]⟩

/-- An increment of the same width. -/
theorem inc_adds_iff_counter : IncAdds sampleCounter "n" (.int32 2) 3 := by
  have hget : sampleCounter.get "n" = some (intBson false 1) := rfl
  have hiff : IncAdds sampleCounter "n" (intBson false 2) (1 + 2) ↔ _ := inc_adds_iff hget
  exact hiff.mpr (.inr ⟨rfl, by decide, .inl ⟨rfl, by decide⟩⟩)

/-- A counter at the limit of its width. -/
def sampleFull : Document := ⟨[("_id", .string "d"), ("n", .int32 2147483647)]⟩

/-- An `Int64` added to the `Int32` leaves it, and the call says that it went through. At the limit
of the width, adding one panics in a build with overflow checks. -/
theorem increment_passed_over :
    ((holding sampleCounter).updateOne ⟨"c"⟩ ⟨.string "d"⟩ (incUpdate "n" (.int64 1))
      (.sample 1 0)).1 = .ok true ∧
    ((stored ((holding sampleCounter).updateOne ⟨"c"⟩ ⟨.string "d"⟩ (incUpdate "n" (.int64 1))
      (.sample 1 0)).2.storage ⟨"c"⟩ "\"d\"").bind fun doc => doc.get "n") = some (.int32 1) ∧
    ((holding sampleFull).updateOne ⟨"c"⟩ ⟨.string "d"⟩ (incUpdate "n" (.int32 1))
      (.sample 1 0)).1 = .error .panic := by
  refine ⟨?_, ?_, ?_⟩
  · decide +kernel
  · decide +kernel
  · decide +kernel

end
end RangoEngine
end Rango
