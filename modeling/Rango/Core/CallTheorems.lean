import Rango.Core.HistoryTheorems

/-!
# Local calls one by one

What `insert_one`, `update_one` and `delete_one` answer and leave, on a backend that may fail. Each
ends with the put of a document (`RangoEngine.Puts`), unless it ends before.
-/

namespace Rango
namespace RangoEngine

section
variable {σ ω : Type} [Formatting] [FallibleStorage σ]

/-- What a call did that came to put `doc` in the engine `e`: the put failed, or the document is
stored. In either case the call may have failed, with some `fault`; else it answers `value`. -/
structure Puts {α β : Type} (e : RangoEngine σ ω) (c : CollectionName) (id : DocumentId)
    (doc : Document) (fault : RangoError → β) (value : α)
    (r : Except β α × RangoEngine σ ω) : Prop where
  answer : r.1 = .ok value ∨ ∃ err, r.1 = .error (fault err)
  docs : ((e.storagePut c id doc).1.isOk = false ∧ r.1 ≠ .ok value ∧
      stored r.2.storage = stored e.storage) ∨
    stored r.2.storage = (stored e.storage).set c id.toString (some doc)

/-- A call fails, or it answers its value and has stored the document. -/
lemma Puts.ends {α β : Type} {e : RangoEngine σ ω} {c : CollectionName} {id : DocumentId}
    {doc : Document} {fault : RangoError → β} {value : α} {r : Except β α × RangoEngine σ ω}
    (h : Puts e c id doc fault value r) :
    (∃ err e', r = (.error (fault err), e')) ∨ ∃ e', r = (.ok value, e') ∧
      stored e'.storage = (stored e.storage).set c id.toString (some doc) := by
  obtain ⟨answer, e'⟩ := r
  rcases h.answer with hok | ⟨err, hfailed⟩
  · refine Or.inr ⟨e', congrArg (·, e') hok, ?_⟩
    exact h.docs.resolve_left fun hfailed => hfailed.2.1 hok
  · exact Or.inl ⟨err, e', congrArg (·, e') hfailed⟩

variable [Oplog ω] [MutationHasher]

/-- The end of a local call. -/
lemma puts_end {α β : Type} (fault : RangoError → β) (value : α) (e : RangoEngine σ ω)
    (op : MutationOp) (c : CollectionName) (id : DocumentId) (doc : Document)
    (patch : Option Document) (rev : Revision) (t : WriteClock) :
    Puts e c id doc fault value
      (match e.storagePut c id doc with
      | (.error err, e) => (.error (fault err), e)
      | (.ok (), e) =>
        match e.report (e.localMutation op c id patch rev t) t with
        | (.error err, e) => (.error (fault err), e)
        | (.ok (), e) => (.ok value, e)) := by
  have hput := storagePut_stored e c id doc
  rcases hcall : e.storagePut c id doc with ⟨r, e₁⟩
  rw [hcall] at hput
  cases r with
  | error err =>
    refine ⟨Or.inr ⟨err, rfl⟩, Or.inl ⟨by rw [hcall]; rfl, ?_, hput⟩⟩
    intro h
    cases h
  | ok u =>
    dsimp only
    have hrest := report_rest e₁ (e₁.localMutation op c id patch rev t) t
    rcases hreport : e₁.report (e₁.localMutation op c id patch rev t) t with ⟨r, e₂⟩
    rw [hreport] at hrest
    have hstorage := congrArg RangoEngine.storage hrest
    dsimp only at hstorage
    have hdocs : stored e₂.storage = (stored e.storage).set c id.toString (some doc) := by
      rw [hstorage]
      exact hput
    cases r with
    | error err => exact ⟨Or.inr ⟨err, rfl⟩, Or.inr hdocs⟩
    | ok u => exact ⟨Or.inl rfl, Or.inr hdocs⟩

/-- A delete of a stored document comes to put the tombstone, unless it fails before. -/
lemma deleteOne_puts (e : RangoEngine σ ω) {c : CollectionName} {id : DocumentId} {old : Document}
    (t : WriteClock) (hold : stored e.storage c id.toString = some old) :
    ∃ e₁, stored e₁.storage = stored e.storage ∧
      (((e.storageGet c id).1.isOk = false ∧ ∃ err, e.deleteOne c id t = (.error err, e₁)) ∨
        Puts e₁ c id (e₁.deleteWrite c id old t).doc (fun err => err) true
          (e.deleteOne c id t)) := by
  obtain ⟨hkeeps, hfound⟩ := storageGet_stored e c id
  unfold deleteOne
  rcases hget : e.storageGet c id with ⟨r, e₁⟩
  rw [hget] at hkeeps hfound
  refine ⟨e₁, hkeeps, ?_⟩
  cases r with
  | error err => exact Or.inl ⟨rfl, err, rfl⟩
  | ok found =>
    obtain rfl : found = some old := (hfound found rfl).trans hold
    exact Or.inr (puts_end ..)

section
variable [BsonCodec]

/-- An insert is refused, or comes to put its document. -/
lemma insertOne_puts (e : RangoEngine σ ω) (c : CollectionName) (doc : Document) (t : WriteClock) :
    (∃ err, e.insertOne c doc t = (.error err, e)) ∨
      Puts e c (insertId doc t) (e.insertWrite c doc t).doc (fun err => err) (insertId doc t)
        (e.insertOne c doc t) := by
  unfold insertOne
  dsimp only
  split
  · exact Or.inl ⟨_, rfl⟩
  · split
    · exact Or.inl ⟨_, rfl⟩
    · exact Or.inr (puts_end ..)

/-- An update of a live document comes to put the new version, unless it fails before. -/
lemma updateOne_puts [Arithmetic] (e : RangoEngine σ ω) {c : CollectionName} {id : DocumentId}
    {update old new : Document} (t : WriteClock) (hold : stored e.storage c id.toString = some old)
    (hlive : isDeleted old = false) (hnew : applyUpdate old update = .ok new) :
    ∃ e₁, stored e₁.storage = stored e.storage ∧
      ((∃ err, e.updateOne c id update t = (.error (.error err), e₁)) ∨
        Puts e₁ c id (e₁.updateWrite c id new t).doc .error true (e.updateOne c id update t)) := by
  obtain ⟨hkeeps, hfound⟩ := storageGet_stored e c id
  unfold updateOne
  rcases hget : e.storageGet c id with ⟨r, e₁⟩
  rw [hget] at hkeeps hfound
  refine ⟨e₁, hkeeps, ?_⟩
  cases r with
  | error err => exact Or.inl ⟨err, rfl⟩
  | ok found =>
    obtain rfl : found = some old := (hfound found rfl).trans hold
    simp only [hlive, hnew, Bool.false_eq_true, if_false]
    split
    · exact Or.inl ⟨_, rfl⟩
    · exact Or.inr (puts_end ..)

end

/-! ## Documents that are put -/

omit [FallibleStorage σ] [Oplog ω] in
lemma isDeleted_insertWrite (e : RangoEngine σ ω) (c : CollectionName) (doc : Document)
    (t : WriteClock) : isDeleted (e.insertWrite c doc t).doc = false := by
  rw [insertWrite, isDeleted, Document.getBool, Document.get_remove_self]
  rfl

omit [FallibleStorage σ] [Oplog ω] in
lemma isDeleted_deleteWrite (e : RangoEngine σ ω) (c : CollectionName) (id : DocumentId)
    (doc : Document) (t : WriteClock) : isDeleted (e.deleteWrite c id doc t).doc = true := by
  rw [deleteWrite, isDeleted_stamp, isDeleted, Document.getBool, Document.get_insert_self]
  rfl

end

/-! ## Frames -/

section
variable {σ ω : Type} [Formatting] [Oplog ω] [BsonCodec] [MutationHasher] [Arithmetic]

/-- A local write appends one entry to the log, or tries to, or leaves it. -/
lemma step_oplog [StorageEngine σ] (e : RangoEngine σ ω) {s : EngineStep} (hs : s.clock.isSome) :
    (e.step s).oplog = e.oplog ∨
      ∃ entry, (e.step s).oplog = (Oplog.append entry e.oplog).2 := by
  rw [(attempt_eq e hs).2]
  have hlook := (look_frame e s).1
  cases hplan : e.planned s with
  | none =>
    rw [attempt_of_planned_none hplan]
    exact Or.inl hlook
  | some w =>
    rw [attempt_of_planned hplan, ← hlook]
    have hput : ((e.look s).2.storagePut w.collection w.id w.doc).2.oplog = (e.look s).2.oplog :=
      rfl
    unfold commit
    rcases hcall : (e.look s).2.storagePut w.collection w.id w.doc with ⟨r, e₁⟩
    rw [hcall] at hput
    cases r with
    | error err => exact Or.inl hput
    | ok u =>
      dsimp only
      rw [report_eq, ← show e₁.oplog = (e.look s).2.oplog from hput]
      cases w.mutation.validateMetadata with
      | error err => exact Or.inl rfl
      | ok u => exact Or.inr ⟨_, rfl⟩

/-- A local write changes its own collection alone. -/
lemma step_others [FallibleStorage σ] (e : RangoEngine σ ω) {s : EngineStep}
    (hs : s.clock.isSome) {c : CollectionName} (hc : c ≠ s.collection) :
    stored (e.step s).storage c = stored e.storage c := by
  rw [step_stored e hs]
  cases hplan : e.planned s with
  | none => rfl
  | some w =>
    obtain ⟨found, -, hprepares⟩ := prepares_of_planned hplan
    have hcollection : w.collection = s.collection := by cases hprepares <;> rfl
    dsimp only
    cases ((e.look s).2.storagePut w.collection w.id w.doc).1 with
    | error err => rfl
    | ok u =>
      funext k
      exact DocMap.set_of_collection_ne _ _ _ _ (hcollection ▸ hc)

end
end RangoEngine
end Rango
