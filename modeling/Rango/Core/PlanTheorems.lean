import Rango.Core.Engine

/-!
# Which mutations a batch applies

A pass over a sorted batch looks at metadata, write ids and targets before it looks at any
document. `plan` makes these decisions: which mutations are applied, where the pass stops, and
which write ids it leaves recorded. `planTurn` says what it does with one mutation; the facts
about whole passes are inductions over it.
-/

namespace Rango

/-- The `_id` of the document that a mutation applies. -/
def Mutation.target (m : Mutation) : Option Bson :=
  match m.patch with
  | some doc => doc.get "_id"
  | none => some m.docId.bson

/-! ## The plan of a pass -/

/-- What a pass over a batch decides before it looks at a document: the mutations it
applies, the error that stops it, and the write ids it leaves recorded. -/
structure Plan where
  kept : List Mutation
  stopped : Option RangoError
  ids : List String

/-- The recorded write ids once `m` is taken up. -/
def record (m : Mutation) (ids : List String) : List String :=
  if m.writeId ≠ "" then m.writeId :: ids else ids

/-- The pass over a batch, from the write ids recorded before it. -/
def plan (ids : List String) : List Mutation → Plan
  | [] => ⟨[], none, ids⟩
  | m :: rest =>
    match m.validateMetadata with
    | .error err => ⟨[], some (.sync ("invalid mutation metadata: " ++ err)), ids⟩
    | .ok () =>
      if m.writeId ≠ "" ∧ m.writeId ∈ ids then plan ids rest
      else
        match m.target with
        | none => ⟨[], some (.documentNotFound "missing _id"), record m ids⟩
        | some _ => { plan (record m ids) rest with kept := m :: (plan (record m ids) rest).kept }

lemma plan_cons (ids : List String) (m : Mutation) (rest : List Mutation) :
    plan ids (m :: rest) =
      match m.validateMetadata with
      | .error err => ⟨[], some (.sync ("invalid mutation metadata: " ++ err)), ids⟩
      | .ok () =>
        if m.writeId ≠ "" ∧ m.writeId ∈ ids then plan ids rest
        else
          match m.target with
          | none => ⟨[], some (.documentNotFound "missing _id"), record m ids⟩
          | some _ =>
            { plan (record m ids) rest with kept := m :: (plan (record m ids) rest).kept } :=
  rfl

/-- The count a pass returns, or the error that stopped it. -/
def Plan.outcome (p : Plan) (applied : ℕ) : Except RangoError ℕ :=
  match p.stopped with
  | none => .ok (applied + p.kept.length)
  | some err => .error err

lemma Plan.outcome_eq_ok {p : Plan} (h : p.stopped = none) (applied : ℕ) :
    p.outcome applied = .ok (applied + p.kept.length) := by
  simp [outcome, h]

/-- A pass that goes on with the decisions of another. -/
def Plan.andThen (p q : Plan) : Plan := { q with kept := p.kept ++ q.kept }

/-- A mutation that a batch can apply: its metadata is valid and its document has an `_id`. -/
def Mutation.Applicable (m : Mutation) : Prop :=
  m.validateMetadata = .ok () ∧ m.target.isSome

/-! ## One mutation -/

lemma mem_record {m : Mutation} {ids : List String} {w : String} :
    w ∈ record m ids ↔ (w ≠ "" ∧ w = m.writeId) ∨ w ∈ ids := by
  unfold record
  split_ifs with hne
  · rw [List.mem_cons]
    constructor
    · rintro (rfl | hw)
      · exact Or.inl ⟨hne, rfl⟩
      · exact Or.inr hw
    · rintro (⟨-, rfl⟩ | hw)
      · exact Or.inl rfl
      · exact Or.inr hw
  · constructor
    · exact Or.inr
    · rintro (⟨hw, rfl⟩ | hw)
      · exact absurd hw hne
      · exact hw

lemma subset_record (m : Mutation) (ids : List String) : ids ⊆ record m ids :=
  fun _ hw => mem_record.mpr (Or.inr hw)

/-- A recorded write id is skipped. -/
lemma plan_cons_skip {ids : List String} {m : Mutation} (hval : m.validateMetadata = .ok ())
    (hdup : m.writeId ≠ "" ∧ m.writeId ∈ ids) (rest : List Mutation) :
    plan ids (m :: rest) = plan ids rest := by
  rw [plan_cons, hval]
  dsimp only
  rw [if_pos hdup]

/-- Another mutation is kept, when it says where its document goes. -/
lemma plan_cons_keep {ids : List String} {m : Mutation} (h : m.Applicable)
    (hnew : ¬ (m.writeId ≠ "" ∧ m.writeId ∈ ids)) (rest : List Mutation) :
    plan ids (m :: rest) =
      { plan (record m ids) rest with kept := m :: (plan (record m ids) rest).kept } := by
  obtain ⟨b, hb⟩ := Option.isSome_iff_exists.mp h.2
  rw [plan_cons, h.1]
  dsimp only
  rw [if_neg hnew, hb]

/-- What a pass does with its first mutation, whichever follow: it is stopped by it, skips it or
keeps it. -/
inductive PlanTurn (ids : List String) (m : Mutation) : Prop
  | stops {err : RangoError} {ids' : List String} (hnot : ¬ m.Applicable)
      (hids : ids' = ids ∨ ids' = record m ids)
      (hplan : ∀ rest, plan ids (m :: rest) = ⟨[], some err, ids'⟩)
  | skips (hval : m.validateMetadata = .ok ()) (hdup : m.writeId ≠ "" ∧ m.writeId ∈ ids)
      (hplan : ∀ rest, plan ids (m :: rest) = plan ids rest)
  | keeps (happ : m.Applicable) (hnew : ¬ (m.writeId ≠ "" ∧ m.writeId ∈ ids))
      (hplan : ∀ rest, plan ids (m :: rest) =
        { plan (record m ids) rest with kept := m :: (plan (record m ids) rest).kept })

theorem planTurn (ids : List String) (m : Mutation) : PlanTurn ids m := by
  cases hval : m.validateMetadata with
  | error err =>
    have hnot : ¬ m.Applicable := by
      intro h
      rw [h.1] at hval
      cases hval
    have hplan : ∀ rest, plan ids (m :: rest) =
        ⟨[], some (.sync ("invalid mutation metadata: " ++ err)), ids⟩ := by
      intro rest
      rw [plan_cons, hval]
    exact .stops hnot (Or.inl rfl) hplan
  | ok _ =>
    by_cases hdup : m.writeId ≠ "" ∧ m.writeId ∈ ids
    · exact .skips hval hdup (plan_cons_skip hval hdup)
    · cases htarget : m.target with
      | none =>
        have hnot : ¬ m.Applicable := by
          intro h
          have hsome := h.2
          rw [htarget] at hsome
          cases hsome
        have hplan : ∀ rest, plan ids (m :: rest) =
            ⟨[], some (.documentNotFound "missing _id"), record m ids⟩ := by
          intro rest
          rw [plan_cons, hval]
          dsimp only
          rw [if_neg hdup, htarget]
        exact .stops hnot (Or.inr rfl) hplan
      | some b =>
        have happ : m.Applicable := ⟨hval, by rw [htarget]; rfl⟩
        exact .keeps happ hdup (plan_cons_keep happ hdup)

/-! ## Whole passes -/

/-- A pass over two pieces is a pass over the first and, unless that stops, over the second
from the write ids the first leaves. -/
theorem plan_append (ids : List String) (ms ms' : List Mutation)
    (h : (plan ids ms).stopped = none) :
    plan ids (ms ++ ms') = (plan ids ms).andThen (plan (plan ids ms).ids ms') := by
  induction ms generalizing ids with
  | nil => rfl
  | cons m rest ih =>
    rw [List.cons_append]
    cases planTurn ids m with
    | stops hnot hids hplan =>
      rw [hplan] at h
      cases h
    | skips hval hdup hplan =>
      rw [hplan] at h
      rw [hplan, hplan, ih ids h]
    | keeps happ hnew hplan =>
      rw [hplan] at h
      rw [hplan, hplan, ih _ h]
      rfl

lemma subset_plan_ids (ids : List String) (ms : List Mutation) : ids ⊆ (plan ids ms).ids := by
  induction ms generalizing ids with
  | nil => exact List.Subset.refl _
  | cons m rest ih =>
    cases planTurn ids m with
    | stops hnot hids hplan =>
      rw [hplan]
      rcases hids with rfl | rfl
      · exact List.Subset.refl _
      · exact subset_record m ids
    | skips hval hdup hplan =>
      rw [hplan]
      exact ih ids
    | keeps happ hnew hplan =>
      rw [hplan]
      exact List.Subset.trans (subset_record m ids) (ih _)

/-- A pass records only write ids of its batch. -/
lemma mem_plan_ids {ids : List String} {ms : List Mutation} {w : String}
    (h : w ∈ (plan ids ms).ids) : w ∈ ids ∨ w ≠ "" ∧ ∃ m ∈ ms, m.writeId = w := by
  induction ms generalizing ids with
  | nil => exact Or.inl h
  | cons m rest ih =>
    have hrecord : w ∈ record m ids → w ∈ ids ∨ w ≠ "" ∧ ∃ x ∈ m :: rest, x.writeId = w := by
      intro hw
      rcases mem_record.mp hw with ⟨hne, heq⟩ | hw
      · exact Or.inr ⟨hne, m, List.mem_cons_self, heq.symm⟩
      · exact Or.inl hw
    have hlater : ∀ {ids' : List String}, w ∈ (plan ids' rest).ids →
        w ∈ ids' ∨ w ≠ "" ∧ ∃ x ∈ m :: rest, x.writeId = w := by
      intro ids' hw
      rcases ih hw with hw | ⟨hne, x, hx, hxw⟩
      · exact Or.inl hw
      · exact Or.inr ⟨hne, x, List.mem_cons_of_mem _ hx, hxw⟩
    cases planTurn ids m with
    | stops hnot hids hplan =>
      rw [hplan] at h
      rcases hids with rfl | rfl
      · exact Or.inl h
      · exact hrecord h
    | skips hval hdup hplan =>
      rw [hplan] at h
      exact hlater h
    | keeps happ hnew hplan =>
      rw [hplan] at h
      rcases hlater h with hw | hw
      · exact hrecord hw
      · exact Or.inr hw

/-- A pass that is not stopped records the write ids of its batch. -/
lemma mem_plan_ids_of_mem {ids : List String} {ms : List Mutation} {m : Mutation}
    (hstop : (plan ids ms).stopped = none) (hm : m ∈ ms) (hne : m.writeId ≠ "") :
    m.writeId ∈ (plan ids ms).ids := by
  induction ms generalizing ids with
  | nil => cases hm
  | cons x rest ih =>
    cases planTurn ids x with
    | stops hnot hids hplan =>
      rw [hplan] at hstop
      cases hstop
    | skips hval hdup hplan =>
      rw [hplan] at hstop ⊢
      rcases List.mem_cons.mp hm with rfl | hm
      · exact subset_plan_ids ids rest hdup.2
      · exact ih hstop hm
    | keeps happ hnew hplan =>
      rw [hplan] at hstop ⊢
      rcases List.mem_cons.mp hm with rfl | hm
      · exact subset_plan_ids _ rest (mem_record.mpr (Or.inl ⟨hne, rfl⟩))
      · exact ih hstop hm

/-- A pass applies mutations of its batch, in their order. -/
theorem plan_kept_sublist (ids : List String) (ms : List Mutation) :
    (plan ids ms).kept.Sublist ms := by
  induction ms generalizing ids with
  | nil => exact List.Sublist.refl _
  | cons m rest ih =>
    cases planTurn ids m with
    | stops hnot hids hplan =>
      rw [hplan]
      exact List.nil_sublist _
    | skips hval hdup hplan =>
      rw [hplan]
      exact (ih ids).cons m
    | keeps happ hnew hplan =>
      rw [hplan]
      exact (ih _).cons_cons m

lemma mem_of_mem_plan_kept {ids : List String} {ms : List Mutation} {x : Mutation}
    (h : x ∈ (plan ids ms).kept) : x ∈ ms := (plan_kept_sublist ids ms).subset h

/-- Nothing stops a pass over applicable mutations. -/
theorem plan_stopped {ms : List Mutation} (h : ∀ m ∈ ms, m.Applicable) (ids : List String) :
    (plan ids ms).stopped = none := by
  induction ms generalizing ids with
  | nil => rfl
  | cons m rest ih =>
    have hrest : ∀ x ∈ rest, x.Applicable := fun x hx => h x (List.mem_cons_of_mem _ hx)
    cases planTurn ids m with
    | stops hnot hids hplan => exact absurd (h m List.mem_cons_self) hnot
    | skips hval hdup hplan =>
      rw [hplan]
      exact ih hrest ids
    | keeps happ hnew hplan =>
      rw [hplan]
      exact ih hrest _

/-- Applicable mutations with new and pairwise distinct write ids are all applied. -/
theorem plan_kept_of_new {ids : List String} {ms : List Mutation}
    (h : ∀ m ∈ ms, m.Applicable) (hne : ∀ m ∈ ms, m.writeId ≠ "")
    (hnew : ∀ m ∈ ms, m.writeId ∉ ids)
    (hdist : ms.Pairwise fun a b => a.writeId ≠ b.writeId) :
    (plan ids ms).kept = ms := by
  induction ms generalizing ids with
  | nil => rfl
  | cons m rest ih =>
    have hw : m.writeId ≠ "" := hne m List.mem_cons_self
    have hm : ¬ (m.writeId ≠ "" ∧ m.writeId ∈ ids) := fun hdup =>
      hnew m List.mem_cons_self hdup.2
    rw [List.pairwise_cons] at hdist
    have hrest : (plan (record m ids) rest).kept = rest := by
      refine ih (fun x hx => h x (List.mem_cons_of_mem _ hx))
        (fun x hx => hne x (List.mem_cons_of_mem _ hx)) ?_ hdist.2
      intro x hx hin
      rcases mem_record.mp hin with ⟨-, heq⟩ | hin
      · exact hdist.1 x hx heq.symm
      · exact hnew x (List.mem_cons_of_mem _ hx) hin
    rw [plan_cons_keep (h m List.mem_cons_self) hm, hrest]

/-- A pass over valid mutations with write ids applies all of them exactly when each has an `_id`
and a write id of its own that was not recorded. -/
theorem plan_kept_eq_iff {ids : List String} {ms : List Mutation}
    (hval : ∀ m ∈ ms, m.validateMetadata = .ok ()) (hne : ∀ m ∈ ms, m.writeId ≠ "") :
    (plan ids ms).kept = ms ↔
      (∀ m ∈ ms, m.target.isSome ∧ m.writeId ∉ ids) ∧ (ms.map Mutation.writeId).Nodup := by
  constructor
  · intro hkept
    induction ms generalizing ids with
    | nil => simp
    | cons m rest ih =>
      cases planTurn ids m with
      | stops hnot hids hplan =>
        rw [hplan] at hkept
        cases hkept
      | skips hvalid hdup hplan =>
        -- the rest alone cannot make up for a mutation that is skipped
        rw [hplan] at hkept
        have hlength := (plan_kept_sublist ids rest).length_le
        rw [hkept, List.length_cons] at hlength
        omega
      | keeps happ hnew hplan =>
        rw [hplan] at hkept
        have hrest : (plan (record m ids) rest).kept = rest := (List.cons.inj hkept).2
        have hw := hne m List.mem_cons_self
        obtain ⟨hall, hnodup⟩ := ih (fun x hx => hval x (List.mem_cons_of_mem _ hx))
          (fun x hx => hne x (List.mem_cons_of_mem _ hx)) hrest
        constructor
        · intro x hx
          rcases List.mem_cons.mp hx with rfl | hx
          · exact ⟨happ.2, fun hin => hnew ⟨hw, hin⟩⟩
          · exact ⟨(hall x hx).1, fun hin => (hall x hx).2 (subset_record m ids hin)⟩
        · rw [List.map_cons, List.nodup_cons]
          refine ⟨fun hin => ?_, hnodup⟩
          obtain ⟨x, hx, heq⟩ := List.mem_map.mp hin
          have hxne := hne x (List.mem_cons_of_mem _ hx)
          exact (hall x hx).2 (mem_record.mpr (Or.inl ⟨hxne, heq⟩))
  · rintro ⟨hall, hnodup⟩
    have happ : ∀ m ∈ ms, m.Applicable := fun m hm => ⟨hval m hm, (hall m hm).1⟩
    exact plan_kept_of_new happ hne (fun m hm => (hall m hm).2) (List.pairwise_map.mp hnodup)

/-- Recorded write ids that the batch does not carry have no influence on what it applies. -/
theorem plan_ids_congr {ids ids' : List String} {ms : List Mutation}
    (h : ∀ m ∈ ms, m.writeId ≠ "" → (m.writeId ∈ ids ↔ m.writeId ∈ ids')) :
    (plan ids ms).kept = (plan ids' ms).kept ∧
      (plan ids ms).stopped = (plan ids' ms).stopped := by
  induction ms generalizing ids ids' with
  | nil => exact ⟨rfl, rfl⟩
  | cons m rest ih =>
    have hm := h m List.mem_cons_self
    have hrest : ∀ x ∈ rest, x.writeId ≠ "" → (x.writeId ∈ ids ↔ x.writeId ∈ ids') :=
      fun x hx => h x (List.mem_cons_of_mem _ hx)
    rw [plan_cons, plan_cons]
    cases hval : m.validateMetadata with
    | error err => exact ⟨rfl, rfl⟩
    | ok _ =>
      dsimp only
      by_cases hdup : m.writeId ≠ "" ∧ m.writeId ∈ ids
      · have hdup' : m.writeId ≠ "" ∧ m.writeId ∈ ids' := ⟨hdup.1, (hm hdup.1).mp hdup.2⟩
        rw [if_pos hdup, if_pos hdup']
        exact ih hrest
      · have hdup' : ¬ (m.writeId ≠ "" ∧ m.writeId ∈ ids') := fun h =>
          hdup ⟨h.1, (hm h.1).mpr h.2⟩
        rw [if_neg hdup, if_neg hdup']
        cases m.target with
        | none => exact ⟨rfl, rfl⟩
        | some b =>
          have hrecord : ∀ x ∈ rest, x.writeId ≠ "" →
              (x.writeId ∈ record m ids ↔ x.writeId ∈ record m ids') := by
            intro x hx hne
            rw [mem_record, mem_record, hrest x hx hne]
          obtain ⟨hkept, hstopped⟩ := ih hrecord
          exact ⟨congrArg (m :: ·) hkept, hstopped⟩

/-- A pass over mutations whose write ids are recorded applies those that have none. -/
lemma plan_of_recorded {ids : List String} {ms : List Mutation} (h : ∀ m ∈ ms, m.Applicable)
    (hids : ∀ m ∈ ms, m.writeId ≠ "" → m.writeId ∈ ids) :
    plan ids ms = ⟨ms.filter (·.writeId = ""), none, ids⟩ := by
  induction ms with
  | nil => rfl
  | cons m rest ih =>
    have hm := h m List.mem_cons_self
    have hrest := ih (fun x hx => h x (List.mem_cons_of_mem _ hx))
      fun x hx => hids x (List.mem_cons_of_mem _ hx)
    by_cases hne : m.writeId = ""
    · have hrecord : record m ids = ids := by rw [record, if_neg (not_not.mpr hne)]
      rw [plan_cons_keep hm fun hdup => hdup.1 hne, hrecord, hrest,
        List.filter_cons_of_pos (by simpa using hne)]
    · rw [plan_cons_skip hm.1 ⟨hne, hids m List.mem_cons_self hne⟩, hrest,
        List.filter_cons_of_neg (by simpa using hne)]

/-! ## What stops a pass -/

/-- A pass that has the write ids `ids` recorded gets over `m` behind `pre`: its metadata is
valid, and its document has an `_id` or its write id was recorded or came before. -/
def Passes (ids : List String) (pre : List Mutation) (m : Mutation) : Prop :=
  m.validateMetadata = .ok () ∧
    (m.target.isSome ∨ m.writeId ≠ "" ∧ (m.writeId ∈ ids ∨ m.writeId ∈ pre.map Mutation.writeId))

/-- The places of a list are its head and the places of its tail. -/
lemma forall_place_cons {α : Type} {Q : List α → α → Prop} {a : α} {l : List α} :
    (∀ pre x post, a :: l = pre ++ x :: post → Q pre x) ↔
      Q [] a ∧ ∀ pre x post, l = pre ++ x :: post → Q (a :: pre) x := by
  constructor
  · intro h
    refine ⟨h [] a l rfl, fun pre x post hl => h (a :: pre) x post ?_⟩
    rw [hl, List.cons_append]
  · rintro ⟨hhead, htail⟩ pre x post hl
    cases pre with
    | nil =>
      rw [← (List.cons.inj hl).1]
      exact hhead
    | cons b pre =>
      obtain ⟨rfl, hrest⟩ := List.cons.inj hl
      exact htail pre x post hrest

lemma passes_cons {ids ids' : List String} {m x : Mutation} {pre : List Mutation}
    (h : x.writeId ≠ "" → (x.writeId ∈ ids ∨ x.writeId = m.writeId ↔ x.writeId ∈ ids')) :
    Passes ids (m :: pre) x ↔ Passes ids' pre x := by
  unfold Passes
  refine and_congr_right fun _ => or_congr_right (and_congr_right fun hne => ?_)
  rw [List.map_cons, List.mem_cons, ← or_assoc, h hne]

/-- **What stops a pass.** A pass is not stopped exactly when it gets over each of its
mutations. -/
theorem plan_stopped_iff {ids : List String} {ms : List Mutation} :
    (plan ids ms).stopped = none ↔ ∀ pre m post, ms = pre ++ m :: post → Passes ids pre m := by
  induction ms generalizing ids with
  | nil => exact iff_of_true rfl fun pre m post h => by simp at h
  | cons m rest ih =>
    rw [forall_place_cons]
    cases planTurn ids m with
    | stops hnot hids hplan =>
      rw [hplan]
      refine iff_of_false (Option.some_ne_none _) fun h => ?_
      obtain ⟨hval, htarget | ⟨hne, hdup⟩⟩ := h.1
      · exact hnot ⟨hval, htarget⟩
      · -- a recorded write id would have been skipped
        have hskip := plan_cons_skip hval ⟨hne, by simpa using hdup⟩ []
        rw [hplan] at hskip
        cases congrArg Plan.stopped hskip
    | skips hval hdup hplan =>
      have hfirst : Passes ids [] m := ⟨hval, Or.inr ⟨hdup.1, Or.inl hdup.2⟩⟩
      rw [hplan, ih, and_iff_right hfirst]
      refine forall₃_congr fun pre x post => forall_congr' fun _ => (passes_cons fun _ => ?_).symm
      exact or_iff_left_of_imp fun heq => heq ▸ hdup.2
    | keeps happ hnew hplan =>
      have hfirst : Passes ids [] m := ⟨happ.1, Or.inl happ.2⟩
      rw [hplan, and_iff_right hfirst]
      refine Iff.trans ih ?_
      refine forall₃_congr fun pre x post => forall_congr' fun _ => (passes_cons fun hne => ?_).symm
      rw [mem_record, or_comm, and_iff_right hne]

end Rango
