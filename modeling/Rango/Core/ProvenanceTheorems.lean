import Rango.Core.RollbackTheorems

/-!
# What a node leaves of itself in a replay

A mutation without a patch becomes a tombstone that names the node applying it, so two nodes
that replay one batch can end with different documents. `Provenance` follows, place by
place, which documents and which entries of `_conflicts` hold such a tombstone: a
later document can replace it, and ten later losers push it out. `replay_identical_iff` says
that two nodes store the same exactly when none is left.
-/

namespace Rango

/-! ## Provenance -/

/-- What is known of a stored document without knowing the node that stored it. -/
structure Provenance where
  deleted : Bool
  rev : Revision
  /-- the node has built the document itself -/
  built : Bool
  /-- for each entry of `_conflicts`, whether the node has built something in it -/
  conflicts : Option (List Bool)

namespace Provenance

/-- Something in the document was built by the node. -/
def own (p : Provenance) : Bool := p.built || p.conflicts.any fun bs => bs.any id

/-- The winner with the loser appended to its `_conflicts`. -/
def addConflict (loser winner : Provenance) : Provenance :=
  { winner with conflicts := winner.conflicts.map fun bs => Window.push 10 bs loser.own }

/-- What a place holds after another document is applied to it. -/
def resolve (found : Option Provenance) (p : Provenance) : Provenance :=
  match found with
  | none => p
  | some l =>
    if l.deleted then p
    else
      match p.rev.cmp l.rev with
      | .gt => addConflict l p
      | .lt => addConflict p l
      | .eq => l

end Provenance

section
variable [Formatting]

/-- The document that a mutation applies. -/
def Mutation.provenance (m : Mutation) : Provenance :=
  match m.patch with
  | some doc =>
    { deleted := isDeleted doc, rev := docRevision doc, built := false
      conflicts := (conflictRecord doc).map fun arr => arr.map fun _ => false }
  | none =>
    { deleted := true, rev := ((Revision.fromStr m.rev.text).toOption).getD (Revision.initial "")
      built := true, conflicts := some [] }

/-- What a place holds once the mutations that are filed there have arrived. -/
def provenanceAt (default : CollectionName) (kept : List Mutation)
    (place : CollectionName × String) : Option Provenance :=
  (kept.filter fun m => m.filedAt default = some place).foldl
    (fun found m => some (Provenance.resolve found m.provenance)) none

/-! ## The forms a document takes on two nodes -/

/-- Two arrays side by side, and where they differ. -/
inductive Compared : Option (List Bool) → Option (List Bson) → Option (List Bson) → Prop
  | absent : Compared none none none
  | both {xs ys : List Bson} (hlength : xs.length = ys.length) :
      Compared (some (List.zipWith (fun x y => decide (x ≠ y)) xs ys)) (some xs) (some ys)

omit [Formatting] in
lemma zipWith_ne_any_iff {xs ys : List Bson} (h : xs.length = ys.length) :
    (List.zipWith (fun x y => decide (x ≠ y)) xs ys).any id = false ↔ xs = ys := by
  induction xs generalizing ys with
  | nil => simpa using h.symm
  | cons x xs ih =>
    cases ys with
    | nil => cases h
    | cons y ys =>
      rw [List.zipWith_cons_cons, List.any_cons, Bool.or_eq_false_iff,
        ih (Nat.succ.inj h), List.cons.injEq]
      simp

omit [Formatting] in
lemma Compared.eq_iff {bs : Option (List Bool)} {xs ys : Option (List Bson)}
    (h : Compared bs xs ys) : xs = ys ↔ (bs.any fun bs => bs.any id) = false := by
  cases h with
  | absent => simp
  | both hlength => rw [Option.some_inj, Option.any_some, zipWith_ne_any_iff hlength]

omit [Formatting] in
lemma Compared.absent_or_both {bs : Option (List Bool)} {xs ys : Option (List Bson)}
    (h : Compared bs xs ys) :
    (xs = none ∧ ys = none) ∨ ∃ xs' ys', xs = some xs' ∧ ys = some ys' := by
  cases h with
  | absent => exact Or.inl ⟨rfl, rfl⟩
  | both hlength => exact Or.inr ⟨_, _, rfl, rfl⟩

omit [Formatting] in
/-- Appending to both arrays and dropping the oldest entries. -/
lemma Compared.append {bs : Option (List Bool)} {xs ys : Option (List Bson)}
    (h : Compared bs xs ys) (x y : Bson) :
    Compared (bs.map fun bs => Window.push 10 bs (decide (x ≠ y)))
      (xs.map fun xs => Window.push 10 xs x) (ys.map fun ys => Window.push 10 ys y) := by
  cases h with
  | absent => exact .absent
  | @both xs ys hlength =>
    have hone : [decide (x ≠ y)] = List.zipWith (fun x y => decide (x ≠ y)) [x] [y] := rfl
    have hmax : (xs ++ [x]).length = (ys ++ [y]).length := by simp [hlength]
    have hzip : Window.push 10 (List.zipWith (fun x y => decide (x ≠ y)) xs ys) (decide (x ≠ y)) =
        List.zipWith (fun x y => decide (x ≠ y)) (Window.push 10 xs x) (Window.push 10 ys y) := by
      rw [Window.push, Window.push, Window.push, hone, ← List.zipWith_append hlength, List.rtake,
        List.rtake, List.rtake, List.length_zipWith, ← hmax, min_self, List.drop_zipWith]
    rw [Option.map_some, Option.map_some, Option.map_some, hzip]
    refine .both ?_
    rw [Window.push, Window.push, Window.length_rtake, Window.length_rtake, hmax]

/-- What two nodes store for one document, and what is known of both. -/
structure Forms (p : Provenance) (x y : Document) : Prop where
  deleted : isDeleted x = p.deleted ∧ isDeleted y = p.deleted
  rev : docRevision x = p.rev ∧ docRevision y = p.rev
  built : p.built = true → x.get "_source_node" ≠ y.get "_source_node"
  rest : p.built = false → ∀ v, x.insert "_conflicts" v = y.insert "_conflicts" v
  conflicts : Compared p.conflicts (conflictRecord x) (conflictRecord y)
  same : p.built = false → conflictRecord x = conflictRecord y → x = y

namespace Forms
variable {p l w : Provenance} {x y lx ly wx wy : Document}

/-- The two forms are equal exactly when nothing in the document was built by the node. -/
theorem eq_iff (h : Forms p x y) : x = y ↔ p.own = false := by
  unfold Provenance.own
  cases hbuilt : p.built with
  | true => exact iff_of_false (fun heq => h.built hbuilt (heq ▸ rfl)) (by simp)
  | false =>
    have hsame : x = y ↔ conflictRecord x = conflictRecord y :=
      ⟨fun heq => heq ▸ rfl, h.same hbuilt⟩
    rw [hsame, Bool.false_or, h.conflicts.eq_iff]

/-- A lost document is appended to both forms of the winner. -/
lemma addConflict (hl : Forms l lx ly) (hw : Forms w wx wy) :
    Forms (l.addConflict w) (Rango.addConflict lx wx) (Rango.addConflict ly wy) where
  deleted := by
    rw [isDeleted_addConflict, isDeleted_addConflict]
    exact hw.deleted
  rev := by
    rw [docRevision_addConflict, docRevision_addConflict]
    exact hw.rev
  built hbuilt := by
    rw [get_addConflict lx wx (by decide), get_addConflict ly wy (by decide)]
    exact hw.built hbuilt
  rest hbuilt v := by
    have hinsert : ∀ loser winner : Document,
        (Rango.addConflict loser winner).insert "_conflicts" v = winner.insert "_conflicts" v := by
      intro loser winner
      cases hrecord : conflictRecord winner with
      | none => rw [addConflict_of_none hrecord]
      | some arr => rw [addConflict_of_some hrecord, Document.insert_insert_self]
    rw [hinsert, hinsert]
    exact hw.rest hbuilt v
  conflicts := by
    have hown : l.own = decide (Bson.document lx.entries ≠ .document ly.entries) := by
      have heq : Bson.document lx.entries = .document ly.entries ↔ lx = ly := by
        cases lx
        cases ly
        simp
      cases hown : l.own with
      | false => simp [hl.eq_iff.mpr hown]
      | true =>
        have hne : lx ≠ ly := fun h => by simp [hl.eq_iff.mp h] at hown
        simp [heq, hne]
    rw [conflictRecord_addConflict, conflictRecord_addConflict, Provenance.addConflict, hown]
    exact hw.conflicts.append _ _
  same hbuilt heq := by
    rw [conflictRecord_addConflict, conflictRecord_addConflict] at heq
    rcases hw.conflicts.absent_or_both with ⟨hx, hy⟩ | ⟨xs, ys, hx, hy⟩
    · -- without an array nothing is appended
      rw [addConflict_of_none hx, addConflict_of_none hy]
      exact hw.same hbuilt (hx.trans hy.symm)
    · rw [hx, hy] at heq
      have harray : Window.push 10 xs (.document lx.entries) =
          Window.push 10 ys (.document ly.entries) := Option.some.inj heq
      rw [addConflict_of_some hx, addConflict_of_some hy, harray]
      exact hw.rest hbuilt _

/-- Both forms are settled alike against the document that is there. -/
lemma resolve (hl : Forms l lx ly) (h : Forms p x y) :
    Forms (Provenance.resolve (some l) p) (Rango.resolve (some lx) x)
      (Rango.resolve (some ly) y) := by
  simp only [Provenance.resolve, Rango.resolve, hl.deleted.1, hl.deleted.2]
  split_ifs
  · exact h
  · rw [h.rev.1, h.rev.2, hl.rev.1, hl.rev.2]
    cases p.rev.cmp l.rev with
    | gt => exact hl.addConflict h
    | lt => exact h.addConflict hl
    | eq => exact hl

end Forms

/-- The document that a mutation applies, in the forms of two nodes. -/
lemma forms_mutation {a b : String} (hab : a ≠ b) (m : Mutation) :
    Forms m.provenance (RangoEngine.mutationDocument a m) (RangoEngine.mutationDocument b m) := by
  unfold Mutation.provenance RangoEngine.mutationDocument
  cases m.patch with
  | some doc =>
    -- a patch is stored as it came
    refine ⟨⟨rfl, rfl⟩, ⟨rfl, rfl⟩, fun h => absurd h Bool.false_ne_true, fun _ _ => rfl, ?_,
      fun _ _ => rfl⟩
    dsimp only
    cases conflictRecord doc with
    | none => exact .absent
    | some arr =>
      have hsame : arr.map (fun _ => false) =
          List.zipWith (fun x y => decide (x ≠ y)) arr arr := by
        rw [List.zipWith_self]
        simp
      rw [Option.map_some, hsame]
      exact .both rfl
  | none =>
    -- of a tombstone only `_source_node` depends on the node
    have hdeleted : ∀ n, isDeleted (RangoEngine.tombstone n m) = true := by
      intro n
      simp [RangoEngine.tombstone, isDeleted, Document.getBool]
    have hrev : ∀ n, docRevision (RangoEngine.tombstone n m) =
        ((Revision.fromStr m.rev.text).toOption).getD (Revision.initial "") := by
      intro n
      simp [RangoEngine.tombstone, docRevision, Document.getStr]
    have hconflicts : ∀ n, conflictRecord (RangoEngine.tombstone n m) = some [] := by
      intro n
      refine conflictRecord_of_flat ?_
      simp [RangoEngine.tombstone, Document.empty, Document.get, Document.insert, IndexMap.insert,
        IndexMap.get]
    refine ⟨⟨hdeleted a, hdeleted b⟩, ⟨hrev a, hrev b⟩, fun _ => ?_,
      fun h => absurd h.symm Bool.false_ne_true, ?_, fun h => absurd h.symm Bool.false_ne_true⟩
    · simpa [RangoEngine.tombstone] using hab
    · rw [hconflicts, hconflicts]
      exact @Compared.both [] [] rfl

/-- What two nodes hold at a place, and what is known of both. -/
inductive PlaceForms : Option Provenance → Option Document → Option Document → Prop
  | empty : PlaceForms none none none
  | held {p : Provenance} {x y : Document} (h : Forms p x y) :
      PlaceForms (some p) (some x) (some y)

lemma PlaceForms.eq_iff {found : Option Provenance} {x y : Option Document}
    (h : PlaceForms found x y) : x = y ↔ ∀ p ∈ found, p.own = false := by
  cases h with
  | empty => simp
  | held h => simpa using h.eq_iff

lemma PlaceForms.resolve {found : Option Provenance} {fx fy : Option Document}
    (hf : PlaceForms found fx fy) {p : Provenance} {x y : Document} (h : Forms p x y) :
    Forms (Provenance.resolve found p) (Rango.resolve fx x) (Rango.resolve fy y) := by
  cases hf with
  | empty => exact h
  | held hl => exact hl.resolve h

/-- What a place holds is followed through any arrivals. -/
lemma PlaceForms.foldl {a b : String} (hab : a ≠ b) (ms : List Mutation)
    {found : Option Provenance} {x y : Option Document} (h : PlaceForms found x y) :
    PlaceForms (ms.foldl (fun found m => some (Provenance.resolve found m.provenance)) found)
      (ms.foldl (arrive a) x) (ms.foldl (arrive b) y) := by
  induction ms generalizing found x y with
  | nil => exact h
  | cons m rest ih => exact ih (.held (h.resolve (forms_mutation hab m)))

/-- The documents that two nodes have replayed are the same exactly when none of them has built
anything that is left. -/
lemma foldl_deliver_eq_iff {a b : String} (hab : a ≠ b) (default : CollectionName)
    (kept : List Mutation) :
    kept.foldl (deliver default a) DocMap.empty = kept.foldl (deliver default b) DocMap.empty ↔
      ∀ place, ∀ p ∈ provenanceAt default kept place, p.own = false := by
  have hplace : ∀ c k, kept.foldl (deliver default a) DocMap.empty c k =
      kept.foldl (deliver default b) DocMap.empty c k ↔
        ∀ p ∈ provenanceAt default kept (c, k), p.own = false := by
    intro c k
    rw [foldl_deliver_apply, foldl_deliver_apply]
    exact (PlaceForms.foldl hab _ .empty).eq_iff
  constructor
  · rintro h ⟨c, k⟩
    exact (hplace c k).mp (by rw [h])
  · intro h
    funext c k
    exact (hplace c k).mpr (h (c, k))

namespace RangoEngine

/-- **Byte-identical replay.** Two engines without documents, under different node ids, that have
recorded the same of a batch's write ids, store the same after the batch, tombstones and
`_conflicts` included, exactly when at no place anything of a tombstone is left that the engines
built themselves for a mutation without a patch. -/
theorem replay_identical_iff {σ₁ ω₁ σ₂ ω₂ : Type} [MapStorage σ₁] [MapStorage σ₂]
    {e₁ : RangoEngine σ₁ ω₁} {e₂ : RangoEngine σ₂ ω₂}
    (h₁ : docMap e₁.storage = DocMap.empty) (h₂ : docMap e₂.storage = DocMap.empty)
    (hnode : e₁.nodeId ≠ e₂.nodeId) (default : CollectionName) {ms : List Mutation}
    (hids : ∀ m ∈ ms, m.writeId ≠ "" →
      (m.writeId ∈ e₁.appliedWriteIds ↔ m.writeId ∈ e₂.appliedWriteIds)) :
    docMap (e₁.applyMutationsDeterministic default ms).2.storage =
        docMap (e₂.applyMutationsDeterministic default ms).2.storage ↔
      ∀ place, ∀ p ∈ provenanceAt default
        (plan e₁.appliedWriteIds (ms.insertionSort CanonicalLe)).kept place, p.own = false := by
  have hkept : (plan e₁.appliedWriteIds (ms.insertionSort CanonicalLe)).kept =
      (plan e₂.appliedWriteIds (ms.insertionSort CanonicalLe)).kept :=
    (plan_ids_congr fun m hm hne => hids m ((List.mem_insertionSort _).mp hm) hne).1
  rw [(applyMutationsDeterministic_eq e₁ default ms).2.docs,
    (applyMutationsDeterministic_eq e₂ default ms).2.docs, h₁, h₂, ← hkept]
  exact foldl_deliver_eq_iff hnode default _

/-- Mutations with patches are stored alike on every node. -/
theorem replay_identical_of_patches {σ₁ ω₁ σ₂ ω₂ : Type} [MapStorage σ₁] [MapStorage σ₂]
    {e₁ : RangoEngine σ₁ ω₁} {e₂ : RangoEngine σ₂ ω₂}
    (hdocs : docMap e₁.storage = docMap e₂.storage)
    (hids : e₁.appliedWriteIds = e₂.appliedWriteIds) (default : CollectionName)
    {ms : List Mutation} (hpatch : ∀ m ∈ ms, m.patch.isSome) :
    docMap (e₁.applyMutationsDeterministic default ms).2.storage =
      docMap (e₂.applyMutationsDeterministic default ms).2.storage := by
  rw [(applyMutationsDeterministic_eq e₁ default ms).2.docs,
    (applyMutationsDeterministic_eq e₂ default ms).2.docs, hdocs, hids]
  have hdeliver : ∀ m ∈ (plan e₂.appliedWriteIds (ms.insertionSort CanonicalLe)).kept, ∀ D,
      deliver default e₁.nodeId D m = deliver default e₂.nodeId D m := by
    intro m hm D
    have hin : m ∈ ms := (List.mem_insertionSort _).mp ((plan_kept_sublist _ _).subset hm)
    obtain ⟨doc, hdoc⟩ := Option.isSome_iff_exists.mp (hpatch m hin)
    simp only [deliver, mutationDocument, hdoc]
  exact List.foldl_ext _ _ _ fun D m hm => hdeliver m hm D

end RangoEngine
end

section
attribute [local instance] Formatting.sample

/-- For a document that is inserted and deleted in one batch. -/
theorem RangoEngine.replay_identical_iff_delete :
    docMap ((sampleNode "a").applyMutationsDeterministic ⟨"c"⟩
          [sampleInsert, sampleDelete]).2.storage =
        docMap ((sampleNode "b").applyMutationsDeterministic ⟨"c"⟩
          [sampleInsert, sampleDelete]).2.storage ↔
      ∀ place, ∀ p ∈ provenanceAt ⟨"c"⟩ (plan (sampleNode "a").appliedWriteIds
        ([sampleInsert, sampleDelete].insertionSort CanonicalLe)).kept place, p.own = false :=
  replay_identical_iff (sampleNode_fresh "a").docs (sampleNode_fresh "b").docs (by decide) ⟨"c"⟩
    fun _ _ _ => Iff.rfl

/-- The tombstone that two nodes store for one deletion names the node. -/
theorem tombstone_names_node :
    (∀ m ∈ [sampleInsert, sampleDelete], m.validateMetadata = .ok ()) ∧
      (docMap ((sampleNode "a").applyMutationsDeterministic ⟨"c"⟩
        [sampleInsert, sampleDelete]).2.storage ⟨"c"⟩ "\"d\"").bind (·.getStr "_source_node") =
          some "a" ∧
      (docMap ((sampleNode "b").applyMutationsDeterministic ⟨"c"⟩
        [sampleInsert, sampleDelete]).2.storage ⟨"c"⟩ "\"d\"").bind (·.getStr "_source_node") =
          some "b" :=
  ⟨by decide, by decide, by decide⟩

end
end Rango
