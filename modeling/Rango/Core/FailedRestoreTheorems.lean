import Rango.Core.ArrivalTheorems
import Rango.Core.InterruptionTheorems
import Rango.Core.RestoreTheorems

/-!
# Restores that fail

A restore deletes what it finds before it puts anything back, and the replay list is checked
last of all. `Progress` is how far a restore had come when it failed; `failed_restore_keeps` says,
place by place, for which progress the collection is what it was.
-/

namespace Rango

section
variable [Formatting]

/-- What a restore had done to the collection when it failed: deleted some documents, or deleted
all, put some and applied some mutations. -/
inductive Progress where
  | wiping (deleted : List Document)
  | rebuilding (existing restored : List Document) (applied : List Mutation)

/-- The documents after that much of a restore. -/
def Progress.docs (c : CollectionName) (nodeId : String) (D : DocMap) : Progress → DocMap
  | .wiping deleted => placeAll c (fun _ => none) D deleted
  | .rebuilding existing restored applied => applied.foldl (deliver c nodeId)
      (placeAll c some (placeAll c (fun _ => none) D existing) restored)

/-- The last listed document for a place decides what is there. -/
lemma placeAll_apply (c : CollectionName) (value : Document → Option Document) (D : DocMap)
    (docs : List Document) (k : String) : placeAll c value D docs c k =
      (docs.filter fun d => d.printedId = some k).getLast?.elim (D c k) value := by
  induction docs generalizing D with
  | nil => rfl
  | cons d rest ih =>
    cases hd : d.printedId with
    | none => rw [placeAll_cons_none c value D hd, ih, List.filter_cons_of_neg (by simp [hd])]
    | some k' =>
      rw [placeAll_cons_some c value D hd, ih]
      by_cases hk : k' = k
      · rw [List.filter_cons_of_pos (by simp [hd, hk]), List.getLast?_cons, hk, DocMap.set_self]
        cases (rest.filter fun d => d.printedId = some k).getLast? <;> rfl
      · rw [List.filter_cons_of_neg (by simp [hd, hk]),
          DocMap.set_of_key_ne _ _ fun h => hk h.symm]

/-- What a place starts the replay with: the last document that the snapshot has for it, or else
what was there, unless a listed document carries its id. -/
def putBack (c : CollectionName) (D : DocMap) (existing restored : List Document) (k : String) :
    Option Document :=
  (restored.filter fun d => d.printedId = some k).getLast?.elim
    (if ∃ d ∈ existing, d.printedId = some k then none else D c k) some

lemma placeAll_eq_putBack (c : CollectionName) (D : DocMap) (existing restored : List Document)
    (k : String) : placeAll c some (placeAll c (fun _ => none) D existing) restored c k =
      putBack c D existing restored k := by
  rw [placeAll_apply, putBack]
  congr 1
  by_cases hk : ∃ d ∈ existing, d.printedId = some k
  · rw [if_pos hk]
    exact placeAll_eq (fun _ _ _ => rfl) (Or.inr hk)
  · rw [if_neg hk]
    exact placeAll_of_not_mem c _ (fun d hd hdk => hk ⟨d, hd, hdk⟩) D

/-- The mutations that are applied at a place of the collection. -/
def appliedAt (c : CollectionName) (applied : List Mutation) (k : String) : List Mutation :=
  applied.filter fun m => m.filedAt c = some (c, k)

/-- A place has lost nothing: no delete hit a document there, or what was there is what the snapshot
or else the first live mutation puts there, with the older mutations among its conflicts, and no
mutation is newer. -/
def Progress.HarmlessAt (c : CollectionName) (nodeId : String) (D : DocMap) (k : String) :
    Progress → Prop
  | .wiping deleted => (∃ d ∈ deleted, d.printedId = some k) → D c k = none
  | .rebuilding existing restored applied =>
    Leaves nodeId (putBack c D existing restored k) (appliedAt c applied k) (D c k)

/-- No mutation that is applied at a place is newer than what the place starts with. -/
def Progress.UnsurpassedAt (c : CollectionName) (nodeId : String) (D : DocMap) (k : String) :
    Progress → Prop
  | .wiping _ => True
  | .rebuilding existing restored applied =>
    Unsurpassed nodeId (putBack c D existing restored k) (appliedAt c applied k)

lemma Progress.HarmlessAt.unsurpassed {c : CollectionName} {nodeId : String} {D : DocMap}
    {k : String} {p : Progress} (h : p.HarmlessAt c nodeId D k) :
    p.UnsurpassedAt c nodeId D k := by
  cases p with
  | wiping deleted => trivial
  | rebuilding existing restored applied => exact ⟨_, h⟩

/-- Such a place is what it was exactly when it has lost nothing. -/
lemma Progress.docs_eq_iff {c : CollectionName} {nodeId : String} {D : DocMap} {k : String}
    {p : Progress} (h : p.UnsurpassedAt c nodeId D k) :
    p.docs c nodeId D c k = D c k ↔ p.HarmlessAt c nodeId D k := by
  cases p with
  | wiping deleted =>
    show placeAll c (fun _ => none) D deleted c k = D c k ↔
      ((∃ d ∈ deleted, d.printedId = some k) → D c k = none)
    by_cases hk : ∃ d ∈ deleted, d.printedId = some k
    · rw [placeAll_eq (fun _ _ _ => rfl) (Or.inr hk), forall_prop_of_true hk, eq_comm]
    · rw [placeAll_of_not_mem c _ (fun d hd hdk => hk ⟨d, hd, hdk⟩) D]
      exact iff_of_true rfl fun h => absurd h hk
  | rebuilding existing restored applied =>
    show applied.foldl (deliver c nodeId) _ c k = D c k ↔ _
    rw [foldl_deliver_apply, placeAll_eq_putBack]
    exact foldl_arrive_iff h

/-- A run over `xs` gets past `done` and fails at the next element. -/
def FirstFailure {α β γ : Type} (run : List α → Except RangoError β × γ) (xs done : List α) :
    Prop :=
  ∃ x rest err, xs = done ++ x :: rest ∧ (∃ b, (run done).1 = .ok b) ∧
    (run (done ++ [x])).1 = .error err

omit [Formatting] in
/-- A run that fails has a first failure. -/
lemma exists_firstFailure {α β γ : Type} (run : List α → Except RangoError β × γ)
    (hnil : ∃ b, (run []).1 = .ok b) {xs : List α} {err : RangoError}
    (h : (run xs).1 = .error err) : ∃ done, FirstFailure run xs done := by
  induction xs using List.reverseRecOn generalizing err with
  | nil =>
    obtain ⟨b, hb⟩ := hnil
    rw [hb] at h
    cases h
  | append_singleton xs x ih =>
    cases hxs : (run xs).1 with
    | ok b => exact ⟨xs, x, [], err, rfl, ⟨b, hxs⟩, h⟩
    | error err' =>
      obtain ⟨done, y, rest, err'', rfl, hdone⟩ := ih hxs
      exact ⟨done, y, rest ++ [x], err'', by simp, hdone⟩

namespace RangoEngine

variable {σ ω : Type} [FallibleStorage σ]

/-! ## The loops over documents -/

/-- `e'` is `e` with the documents `D` in its storage. -/
structure Holds (e e' : RangoEngine σ ω) (D : DocMap) : Prop where
  docs : stored e'.storage = D
  rest : e' = { e with storage := e'.storage }

lemma Holds.trans {e e' e'' : RangoEngine σ ω} {D D' : DocMap} (h : Holds e e' D)
    (h' : Holds e' e'' D') : Holds e e'' D' :=
  ⟨h'.docs, by rw [h'.rest, h.rest]⟩

/-- The loop of the wipe and of the refill: a call for each document with an `_id`, until one
fails. -/
def eachDocument {α : Type}
    (call : RangoEngine σ ω → DocumentId → Document → Except RangoError α × RangoEngine σ ω)
    (e : RangoEngine σ ω) : List Document → Except RangoError Unit × RangoEngine σ ω
  | [] => (.ok (), e)
  | doc :: rest =>
    match doc.get "_id" with
    | none => eachDocument call e rest
    | some idBson =>
      match call e (DocumentId.fromBson idBson) doc with
      | (.error err, e) => (.error err, e)
      | (.ok _, e) => eachDocument call e rest

omit [Formatting] [FallibleStorage σ] in
lemma eachDocument_cons_none {α : Type}
    {call : RangoEngine σ ω → DocumentId → Document → Except RangoError α × RangoEngine σ ω}
    {d : Document} (h : d.get "_id" = none) (e : RangoEngine σ ω) (rest : List Document) :
    eachDocument call e (d :: rest) = eachDocument call e rest := by
  rw [eachDocument, h]

omit [Formatting] [FallibleStorage σ] in
lemma eachDocument_cons_some {α : Type}
    {call : RangoEngine σ ω → DocumentId → Document → Except RangoError α × RangoEngine σ ω}
    {d : Document} {b : Bson} (h : d.get "_id" = some b) (e : RangoEngine σ ω)
    (rest : List Document) :
    eachDocument call e (d :: rest) =
      match call e (DocumentId.fromBson b) d with
      | (.error err, e) => (.error err, e)
      | (.ok _, e) => eachDocument call e rest := by
  rw [eachDocument, h]

lemma wipe_eq_eachDocument (c : CollectionName) (e : RangoEngine σ ω) (docs : List Document) :
    wipe c e docs = eachDocument (fun e id _ => e.storageDelete c id) e docs := by
  induction docs generalizing e with
  | nil => rfl
  | cons d rest ih =>
    unfold wipe eachDocument
    cases d.get "_id" with
    | none => exact ih e
    | some b =>
      dsimp only
      rcases e.storageDelete c (DocumentId.fromBson b) with ⟨r, e'⟩
      cases r with
      | error err => rfl
      | ok _ => exact ih e'

lemma refill_eq_eachDocument (c : CollectionName) (e : RangoEngine σ ω) (docs : List Document) :
    refill c e docs = eachDocument (fun e id d => e.storagePut c id d) e docs := by
  induction docs generalizing e with
  | nil => rfl
  | cons d rest ih =>
    unfold refill eachDocument
    cases d.get "_id" with
    | none => exact ih e
    | some b =>
      dsimp only
      rcases e.storagePut c (DocumentId.fromBson b) d with ⟨r, e'⟩
      cases r with
      | error err => rfl
      | ok _ => exact ih e'

variable {α : Type}
  {call : RangoEngine σ ω → DocumentId → Document → Except RangoError α × RangoEngine σ ω}

omit [Formatting] [FallibleStorage σ] in
/-- A loop that has succeeded on the first documents goes on with the others. -/
lemma eachDocument_append_ok {e e' : RangoEngine σ ω} {docs : List Document}
    (h : eachDocument call e docs = (.ok (), e')) (rest : List Document) :
    eachDocument call e (docs ++ rest) = eachDocument call e' rest := by
  induction docs generalizing e with
  | nil =>
    rw [show e = e' from congrArg Prod.snd h]
    rfl
  | cons d docs ih =>
    rw [List.cons_append]
    cases hd : d.get "_id" with
    | none =>
      rw [eachDocument_cons_none hd] at h ⊢
      exact ih h
    | some b =>
      rw [eachDocument_cons_some hd] at h ⊢
      rcases hres : call e (DocumentId.fromBson b) d with ⟨r, e₁⟩
      rw [hres] at h
      cases r with
      | error err => cases h
      | ok _ => exact ih h

omit [Formatting] [FallibleStorage σ] in
/-- A loop that has failed on the first documents never sees the others. -/
lemma eachDocument_append_error {e : RangoEngine σ ω} {docs : List Document} {err : RangoError}
    (h : (eachDocument call e docs).1 = .error err) (rest : List Document) :
    eachDocument call e (docs ++ rest) = eachDocument call e docs := by
  induction docs generalizing e with
  | nil => cases h
  | cons d docs ih =>
    rw [List.cons_append]
    cases hd : d.get "_id" with
    | none =>
      rw [eachDocument_cons_none hd] at h ⊢
      rw [eachDocument_cons_none hd]
      exact ih h
    | some b =>
      rw [eachDocument_cons_some hd] at h ⊢
      rw [eachDocument_cons_some hd]
      rcases hres : call e (DocumentId.fromBson b) d with ⟨r, e₁⟩
      rw [hres] at h
      cases r with
      | error err => rfl
      | ok _ => exact ih h

variable {c : CollectionName} {value : Document → Option Document}

/-- A loop of calls that place values, and that does not fail, places them all. -/
lemma eachDocument_ok
    (hcall : ∀ e id d, Holds e (call e id d).2
      (settle (call e id d).1 (stored e.storage) ((stored e.storage).set c id.toString (value d))))
    {e e' : RangoEngine σ ω} {docs : List Document}
    (h : eachDocument call e docs = (.ok (), e')) :
    Holds e e' (placeAll c value (stored e.storage) docs) := by
  induction docs generalizing e with
  | nil =>
    rw [show e = e' from congrArg Prod.snd h]
    exact ⟨rfl, rfl⟩
  | cons d rest ih =>
    cases hd : d.get "_id" with
    | none =>
      have hnone : d.printedId = none := by rw [Document.printedId, hd]; rfl
      rw [eachDocument_cons_none hd] at h
      rw [placeAll_cons_none c value _ hnone]
      exact ih h
    | some b =>
      have hsome : d.printedId = some (DocumentId.fromBson b).toString := by
        rw [Document.printedId, hd]; rfl
      have hone := hcall e (DocumentId.fromBson b) d
      rw [eachDocument_cons_some hd] at h
      rcases hres : call e (DocumentId.fromBson b) d with ⟨r, e₁⟩
      rw [hres] at h hone
      cases r with
      | error err => cases h
      | ok _ =>
        have hrest := ih h
        rw [show stored e₁.storage = _ from hone.docs] at hrest
        rw [placeAll_cons_some c value _ hsome]
        exact hone.trans hrest

/-- The same loop, when it fails, has placed the values of the documents before the failure. -/
lemma eachDocument_failed
    (hcall : ∀ e id d, Holds e (call e id d).2
      (settle (call e id d).1 (stored e.storage) ((stored e.storage).set c id.toString (value d))))
    {e : RangoEngine σ ω} {docs done : List Document}
    (h : FirstFailure (eachDocument call e) docs done) :
    (∃ err, (eachDocument call e docs).1 = .error err) ∧
      Holds e (eachDocument call e docs).2 (placeAll c value (stored e.storage) done) := by
  obtain ⟨d, rest, err, rfl, ⟨_, hdone⟩, hfail⟩ := h
  have hall : eachDocument call e (done ++ d :: rest) = eachDocument call e (done ++ [d]) := by
    rw [List.append_cons]
    exact eachDocument_append_error hfail rest
  rcases hrun : eachDocument call e done with ⟨r, e'⟩
  rw [hrun] at hdone
  obtain rfl : r = .ok () := hdone
  have hholds := eachDocument_ok hcall hrun
  have hlast : eachDocument call e (done ++ [d]) = eachDocument call e' [d] :=
    eachDocument_append_ok hrun [d]
  rw [hall]
  refine ⟨⟨err, hfail⟩, hholds.trans ?_⟩
  rw [← hholds.docs, hlast]
  rw [hlast] at hfail
  -- the call that failed placed nothing
  cases hd : d.get "_id" with
  | none =>
    rw [eachDocument_cons_none hd] at hfail
    cases hfail
  | some b =>
    have hone := hcall e' (DocumentId.fromBson b) d
    rw [eachDocument_cons_some hd] at hfail ⊢
    rcases hres : call e' (DocumentId.fromBson b) d with ⟨r, e₁⟩
    rw [hres] at hfail hone
    cases r with
    | error err' => exact hone
    | ok _ => cases hfail

lemma storageDelete_holds (c : CollectionName) (e : RangoEngine σ ω) (id : DocumentId) :
    Holds e (e.storageDelete c id).2 (settle (e.storageDelete c id).1 (stored e.storage)
      ((stored e.storage).set c id.toString none)) :=
  ⟨FallibleStorage.delete_spec c id e.storage, rfl⟩

lemma storagePut_holds (c : CollectionName) (e : RangoEngine σ ω) (id : DocumentId)
    (d : Document) : Holds e (e.storagePut c id d).2 (settle (e.storagePut c id d).1
      (stored e.storage) ((stored e.storage).set c id.toString (some d))) :=
  ⟨storagePut_stored e c id d, rfl⟩

lemma findAllRaw_holds (e : RangoEngine σ ω) (c : CollectionName) :
    Holds e (e.findAllRaw c).2 (stored e.storage) ∧
      ∀ existing, (e.findAllRaw c).1 = .ok existing →
        ∃ docs, Lists docs (stored e.storage) c ∧ existing = docs.map Prod.snd := by
  obtain ⟨hkept, hlisted⟩ := FallibleStorage.scan_spec c e.storage
  unfold findAllRaw storageScan
  rcases hscan : StorageEngine.scan c e.storage with ⟨r, s⟩
  rw [hscan] at hkept hlisted
  cases r with
  | error err =>
    refine ⟨⟨hkept, rfl⟩, fun existing h => ?_⟩
    cases h
  | ok results =>
    refine ⟨⟨hkept, rfl⟩, fun existing h => ?_⟩
    obtain ⟨docs, rfl, hnodup, hmem⟩ := hlisted results rfl
    refine ⟨docs, ⟨hnodup, hmem⟩, ?_⟩
    rw [← Except.ok.inj h]
    simp [Except.toOption, Function.comp_def, List.filterMap_map]

lemma wipe_ok {c : CollectionName} {e e' : RangoEngine σ ω} {docs : List Document}
    (h : wipe c e docs = (.ok (), e')) :
    Holds e e' (placeAll c (fun _ => none) (stored e.storage) docs) := by
  rw [wipe_eq_eachDocument] at h
  exact eachDocument_ok (fun e id _ => storageDelete_holds c e id) h

lemma wipe_failed {c : CollectionName} {e : RangoEngine σ ω} {docs done : List Document}
    (h : FirstFailure (wipe c e) docs done) :
    (∃ err, (wipe c e docs).1 = .error err) ∧
      Holds e (wipe c e docs).2 (placeAll c (fun _ => none) (stored e.storage) done) := by
  rw [show wipe c e = _ from funext (wipe_eq_eachDocument c e)] at h ⊢
  exact eachDocument_failed (fun e id _ => storageDelete_holds c e id) h

lemma refill_ok {c : CollectionName} {e e' : RangoEngine σ ω} {docs : List Document}
    (h : refill c e docs = (.ok (), e')) :
    Holds e e' (placeAll c some (stored e.storage) docs) := by
  rw [refill_eq_eachDocument] at h
  exact eachDocument_ok (storagePut_holds c) h

lemma refill_failed {c : CollectionName} {e : RangoEngine σ ω} {docs done : List Document}
    (h : FirstFailure (refill c e) docs done) :
    (∃ err, (refill c e docs).1 = .error err) ∧
      Holds e (refill c e docs).2 (placeAll c some (stored e.storage) done) := by
  rw [show refill c e = _ from funext (refill_eq_eachDocument c e)] at h ⊢
  exact eachDocument_failed (storagePut_holds c) h

/-! ## The loop over mutations -/

/-- A loop that fails leaves the documents as they were before the mutation at which it does. -/
lemma applyLoop_failed {default : CollectionName} {e : RangoEngine σ ω} {seen : List String}
    {applied : ℕ} {drift : Bool} {ms pre : List Mutation}
    (hseen : ∀ w ∈ seen, w ∈ e.appliedWriteIds)
    (h : FirstFailure (applyLoop default e seen applied drift) ms pre) :
    (∃ err, (applyLoop default e seen applied drift ms).1 = .error err) ∧
      stored (applyLoop default e seen applied drift ms).2.storage =
        stored (applyLoop default e seen applied drift pre).2.storage := by
  obtain ⟨m, post, err, rfl, ⟨b, hpre⟩, hfail⟩ := h
  induction pre generalizing e seen applied drift with
  | nil =>
    -- `m` comes first, and ends the loop
    rw [List.nil_append] at hfail ⊢
    cases applyLoop_turn default applied drift m hseen with
    | stops hplan hleft hloop =>
      rw [hloop]
      exact ⟨⟨_, rfl⟩, hleft.docs⟩
    | skips hval hdup hseen' hloop =>
      rw [hloop] at hfail
      cases hfail
    | applies happ hnew hleft hseen' hloop =>
      rw [hloop] at hfail
      cases hfail
    | fails happ hnew hleft hcall hloop =>
      rw [hloop]
      exact ⟨⟨_, rfl⟩, hleft.docs⟩
  | cons x pre ih =>
    rw [List.cons_append] at hfail ⊢
    cases applyLoop_turn default applied drift x hseen with
    | stops hplan hleft hloop =>
      rw [hloop] at hpre
      cases hpre
    | skips hval hdup hseen' hloop =>
      rw [hloop] at hpre hfail
      rw [hloop, hloop]
      exact ih hseen' hfail hpre
    | applies happ hnew hleft hseen' hloop =>
      rw [hloop] at hpre hfail
      rw [hloop, hloop]
      exact ih hseen' hfail hpre
    | fails happ hnew hleft hcall hloop =>
      rw [hloop] at hpre
      cases hpre

/-- What a batch that fails has delivered. -/
lemma applyMutationsDeterministic_failed {e : RangoEngine σ ω} {default : CollectionName}
    {ms pre : List Mutation}
    (h : FirstFailure (applyLoop default e [] 0 (receivedOutOfOrder ms))
      (ms.insertionSort CanonicalLe) pre) :
    stored (e.applyMutationsDeterministic default ms).2.storage =
      (plan e.appliedWriteIds pre).kept.foldl (deliver default e.nodeId) (stored e.storage) := by
  obtain ⟨⟨err, hfail⟩, hdocs⟩ := applyLoop_failed (by simp) h
  obtain ⟨-, -, -, -, ⟨b, hok⟩, -⟩ := h
  have hpre : stored (applyLoop default e [] 0 (receivedOutOfOrder ms) pre).2.storage =
      (plan e.appliedWriteIds pre).kept.foldl (deliver default e.nodeId) (stored e.storage) := by
    rcases applyLoop_cases default pre e [] 0 (receivedOutOfOrder ms) (by simp) with
      ⟨-, hleft⟩ | ⟨err', -, -, -, -, herr, -⟩
    · exact hleft.docs
    · rw [hok] at herr
      cases herr
  unfold applyMutationsDeterministic
  rcases hloop : applyLoop default e [] 0 (receivedOutOfOrder ms)
    (ms.insertionSort CanonicalLe) with ⟨r, e'⟩
  rw [hloop] at hfail hdocs
  obtain rfl : r = .error err := hfail
  exact hdocs.trans hpre

/-! ## Restores and rollbacks -/

/-- The calls that restore a collection from a snapshot. -/
inductive RestoreCall where
  | restore (replay : List Mutation)
  | rollback (request : RollbackUnit) (window : List Mutation) (now : DateTime)

/-- The mutations that the call replays. -/
def RestoreCall.replay : RestoreCall → List Mutation
  | .restore replay => replay
  | .rollback request window _ => window.filter fun m => m.seq ≤ request.targetSeq

/-- The snapshot is not one that the call may restore the collection from. -/
def RestoreCall.Refused (c : CollectionName) (snapshot : SnapshotUnit) : RestoreCall → Prop
  | .restore _ => snapshot.nameSpace ≠ c.name
  | .rollback request _ _ => request.snapshotId ≠ snapshot.snapshotId ∨
      request.targetSeq < snapshot.baseSeq ∨ snapshot.nameSpace ≠ c.name

/-- The call, apart from the value it returns. -/
def restoreBy (e : RangoEngine σ ω) (c : CollectionName) (snapshot : SnapshotUnit) :
    RestoreCall → Except RangoError Unit × RangoEngine σ ω
  | .restore replay =>
    ((e.restoreFromSnapshot c snapshot replay).1.map fun _ => (),
      (e.restoreFromSnapshot c snapshot replay).2)
  | .rollback request window now =>
    ((e.rollbackToSnapshot c snapshot request window now).1.map fun _ => (),
      (e.rollbackToSnapshot c snapshot request window now).2)

/-- A call that is refused does nothing. -/
lemma restoreBy_refused {e : RangoEngine σ ω} {c : CollectionName} {snapshot : SnapshotUnit}
    {call : RestoreCall} (h : call.Refused c snapshot) : (e.restoreBy c snapshot call).2 = e := by
  cases call with
  | restore replay =>
    have hns : snapshot.nameSpace ≠ c.name := h
    simp only [restoreBy, restoreFromSnapshot, if_pos hns]
  | rollback request window now =>
    simp only [restoreBy, rollbackToSnapshot]
    split_ifs with hid hseq hns
    · rfl
    · rfl
    · rfl
    · rcases h with h | h | h
      · exact absurd h hid
      · exact absurd h hseq
      · exact absurd h hns

/-- Any other call is a restore from what it replays. -/
lemma restoreBy_eq {e : RangoEngine σ ω} {c : CollectionName} {snapshot : SnapshotUnit}
    {call : RestoreCall} (h : ¬ call.Refused c snapshot) :
    snapshot.nameSpace = c.name ∧
      e.restoreBy c snapshot call =
        ((e.restoreFromSnapshot c snapshot call.replay).1.map fun _ => (),
          (e.restoreFromSnapshot c snapshot call.replay).2) := by
  cases call with
  | restore replay => exact ⟨not_not.mp h, rfl⟩
  | rollback request window now =>
    have hid : ¬ request.snapshotId ≠ snapshot.snapshotId := fun hne => h (Or.inl hne)
    have hseq : ¬ request.targetSeq < snapshot.baseSeq := fun hlt => h (Or.inr (Or.inl hlt))
    have hns : ¬ snapshot.nameSpace ≠ c.name := fun hne => h (Or.inr (Or.inr hne))
    refine ⟨not_not.mp hns, ?_⟩
    simp only [restoreBy, rollbackToSnapshot, if_neg hid, if_neg hseq, if_neg hns,
      RestoreCall.replay]
    rcases e.restoreFromSnapshot c snapshot
      (window.filter fun m => m.seq ≤ request.targetSeq) with ⟨r, e'⟩
    cases r with
    | error err => rfl
    | ok n => rfl

/-! ## Where a restore fails -/

/-- Where a restore fails, and what it has done until then: it is refused or finds no list, or one
of the deletes fails, or one of the puts, or one of the mutations. -/
inductive FailsAfter (e : RangoEngine σ ω) (c : CollectionName) (snapshot : SnapshotUnit)
    (call : RestoreCall) : Progress → Prop
  | refused : call.Refused c snapshot → FailsAfter e c snapshot call (.wiping [])
  | listing {e₁ : RangoEngine σ ω} {err : RangoError} :
      ¬ call.Refused c snapshot → e.findAllRaw c = (.error err, e₁) →
        FailsAfter e c snapshot call (.wiping [])
  | wiping {e₁ : RangoEngine σ ω} {existing deleted : List Document} :
      ¬ call.Refused c snapshot → e.findAllRaw c = (.ok existing, e₁) →
        FirstFailure (wipe c e₁) existing deleted →
          FailsAfter e c snapshot call (.wiping deleted)
  | refilling {e₁ e₂ : RangoEngine σ ω} {existing restored : List Document} :
      ¬ call.Refused c snapshot → e.findAllRaw c = (.ok existing, e₁) →
        wipe c e₁ existing = (.ok (), e₂) → FirstFailure (refill c e₂) snapshot.state restored →
          FailsAfter e c snapshot call (.rebuilding existing restored [])
  | replaying {e₁ e₂ e₃ : RangoEngine σ ω} {existing : List Document} {pre : List Mutation} :
      ¬ call.Refused c snapshot → e.findAllRaw c = (.ok existing, e₁) →
        wipe c e₁ existing = (.ok (), e₂) → refill c e₂ snapshot.state = (.ok (), e₃) →
          FirstFailure (applyLoop c e₃ [] 0 (receivedOutOfOrder call.replay))
            (call.replay.insertionSort CanonicalLe) pre →
          FailsAfter e c snapshot call
            (.rebuilding existing snapshot.state (plan e.appliedWriteIds pre).kept)

/-- A call that fails does so somewhere. -/
theorem exists_failsAfter {e : RangoEngine σ ω} {c : CollectionName} {snapshot : SnapshotUnit}
    {call : RestoreCall} {err : RangoError} (h : (e.restoreBy c snapshot call).1 = .error err) :
    ∃ p, FailsAfter e c snapshot call p := by
  by_cases href : call.Refused c snapshot
  · exact ⟨_, .refused href⟩
  obtain ⟨hns, hcall⟩ := restoreBy_eq (e := e) href
  rw [hcall, restoreFromSnapshot, if_neg (not_not.mpr hns)] at h
  rcases hfind : e.findAllRaw c with ⟨r, e₁⟩
  rw [hfind] at h
  cases r with
  | error err₁ => exact ⟨_, .listing href hfind⟩
  | ok existing =>
    dsimp only at h
    rcases hwipe : wipe c e₁ existing with ⟨r, e₂⟩
    rw [hwipe] at h
    cases r with
    | error err₂ =>
      obtain ⟨deleted, hfirst⟩ := exists_firstFailure (wipe c e₁) ⟨(), rfl⟩
        (congrArg Prod.fst hwipe)
      exact ⟨_, .wiping href hfind hfirst⟩
    | ok _ =>
      dsimp only at h
      rcases hrefill : refill c e₂ snapshot.state with ⟨r, e₃⟩
      rw [hrefill] at h
      cases r with
      | error err₃ =>
        obtain ⟨restored, hfirst⟩ := exists_firstFailure (refill c e₂) ⟨(), rfl⟩
          (congrArg Prod.fst hrefill)
        exact ⟨_, .refilling href hfind hwipe hfirst⟩
      | ok _ =>
        dsimp only [applyMutationsDeterministic] at h
        rcases hloop : applyLoop c e₃ [] 0 (receivedOutOfOrder call.replay)
          (call.replay.insertionSort CanonicalLe) with ⟨r, e₄⟩
        rw [hloop] at h
        cases r with
        | ok n => cases h
        | error err₄ =>
          obtain ⟨pre, hfirst⟩ := exists_firstFailure
            (applyLoop c e₃ [] 0 (receivedOutOfOrder call.replay)) ⟨_, rfl⟩
            (congrArg Prod.fst hloop)
          exact ⟨_, .replaying href hfind hwipe hrefill hfirst⟩

/-- What it has done until then is all that it does. -/
theorem FailsAfter.docs {e : RangoEngine σ ω} {c : CollectionName} {snapshot : SnapshotUnit}
    {call : RestoreCall} {p : Progress} (h : FailsAfter e c snapshot call p) :
    stored (e.restoreBy c snapshot call).2.storage = p.docs c e.nodeId (stored e.storage) := by
  have hrestore : ¬ call.Refused c snapshot → (e.restoreBy c snapshot call).2 =
      (e.restoreFromSnapshot c snapshot call.replay).2 := fun href =>
    congrArg Prod.snd (restoreBy_eq href).2
  have hns : ¬ call.Refused c snapshot → ¬ snapshot.nameSpace ≠ c.name := fun href =>
    not_not.mpr (restoreBy_eq (e := e) href).1
  obtain ⟨hlisted, -⟩ := findAllRaw_holds e c
  cases h with
  | refused href =>
    rw [restoreBy_refused href]
    rfl
  | listing href hfind =>
    rw [hfind] at hlisted
    rw [hrestore href, restoreFromSnapshot, if_neg (hns href), hfind]
    exact hlisted.docs
  | @wiping e₁ existing deleted href hfind hfirst =>
    rw [hfind] at hlisted
    obtain ⟨⟨err, herr⟩, hwiped⟩ := wipe_failed hfirst
    rcases hwipe : wipe c e₁ existing with ⟨r, e₂⟩
    rw [hwipe] at herr hwiped
    obtain rfl : r = .error err := herr
    simp only [hrestore href, restoreFromSnapshot, if_neg (hns href), hfind, hwipe]
    rw [hwiped.docs, hlisted.docs]
    rfl
  | @refilling e₁ e₂ existing restored href hfind hwipe hfirst =>
    rw [hfind] at hlisted
    have hwiped := wipe_ok hwipe
    obtain ⟨⟨err, herr⟩, hrefilled⟩ := refill_failed hfirst
    rcases hrefill : refill c e₂ snapshot.state with ⟨r, e₃⟩
    rw [hrefill] at herr hrefilled
    obtain rfl : r = .error err := herr
    simp only [hrestore href, restoreFromSnapshot, if_neg (hns href), hfind, hwipe, hrefill]
    rw [hrefilled.docs, hwiped.docs, hlisted.docs]
    rfl
  | @replaying e₁ e₂ e₃ existing pre href hfind hwipe hrefill hfirst =>
    rw [hfind] at hlisted
    have hall : Holds e e₃ _ := (hlisted.trans (wipe_ok hwipe)).trans (refill_ok hrefill)
    have hids : e₃.appliedWriteIds = e.appliedWriteIds := by rw [hall.rest]
    have hnode : e₃.nodeId = e.nodeId := by rw [hall.rest]
    have hdocs := applyMutationsDeterministic_failed hfirst
    simp only [hrestore href, restoreFromSnapshot, if_neg (hns href), hfind, hwipe, hrefill]
    rw [hdocs, hids, hnode, (refill_ok hrefill).docs, (wipe_ok hwipe).docs, hlisted.docs]
    rfl

/-- **A failed restore.** A restore or a rollback that fails does so at some point, and leaves the
collection as it was when what it has done until then is harmless at every place. When it leaves
it so, that is harmless at each place to which the replay brought nothing newer than what the
place started with. -/
theorem failed_restore_keeps {e : RangoEngine σ ω} {c : CollectionName}
    {snapshot : SnapshotUnit} {call : RestoreCall} {err : RangoError}
    (h : (e.restoreBy c snapshot call).1 = .error err) :
    (∃ p, FailsAfter e c snapshot call p) ∧ ∀ p, FailsAfter e c snapshot call p →
      ((∀ k, p.HarmlessAt c e.nodeId (stored e.storage) k) →
        stored (e.restoreBy c snapshot call).2.storage c = stored e.storage c) ∧
      (stored (e.restoreBy c snapshot call).2.storage c = stored e.storage c →
        ∀ k, p.UnsurpassedAt c e.nodeId (stored e.storage) k →
          p.HarmlessAt c e.nodeId (stored e.storage) k) := by
  refine ⟨exists_failsAfter h, fun p hp => ?_⟩
  rw [hp.docs]
  constructor
  · intro hharmless
    funext k
    exact (Progress.docs_eq_iff (hharmless k).unsurpassed).mpr (hharmless k)
  · intro hkept k hclear
    exact (Progress.docs_eq_iff hclear).mp (congrFun hkept k)

end RangoEngine
end

/-! ## A worked example -/

section
attribute [local instance] Formatting.sample

/-- An insert that names no tenant. -/
def sampleUnowned : Mutation :=
  { sampleInsert with metadata := { sampleInsert.metadata with tenantId := "" } }

/-- An insert of the document that the collection holds. -/
def samplePresent : Mutation :=
  .sample "c" "tenant" "x" .insert (some ⟨[("_id", .string "x")]⟩) 0 "1-0-aaaa" "w0"

/-- A restore from the empty snapshot that replays both. -/
def samplePutBack : Except RangoError Unit × RangoEngine MemoryStorage NullOplog :=
  sampleStocked.restoreBy ⟨"c"⟩ (RangoEngine.emptySnapshot ⟨"c"⟩)
    (.restore [sampleUnowned, samplePresent])

/-- The restore fails once the document was inserted again. -/
theorem RangoEngine.failed_restore_keeps_present :
    stored samplePutBack.2.storage ⟨"c"⟩ = stored sampleStocked.storage ⟨"c"⟩ := by
  have hfails : samplePutBack.1 =
      .error (.sync "invalid mutation metadata: tenant_id must be non-empty") := by
    decide +kernel
  have hp : FailsAfter sampleStocked ⟨"c"⟩ (emptySnapshot ⟨"c"⟩)
      (.restore [sampleUnowned, samplePresent])
      (.rebuilding [⟨[("_id", .string "x")]⟩] []
        (plan sampleStocked.appliedWriteIds [samplePresent]).kept) := by
    have hasked : ¬ RestoreCall.Refused ⟨"c"⟩ (emptySnapshot ⟨"c"⟩)
        (.restore [sampleUnowned, samplePresent]) := fun hns => hns rfl
    apply FailsAfter.replaying hasked
    · exact Prod.ext (by decide +kernel) rfl
    · exact Prod.ext (by decide +kernel) rfl
    · exact Prod.ext (by decide +kernel) rfl
    · exact ⟨sampleUnowned, [], .sync "invalid mutation metadata: tenant_id must be non-empty",
        by decide +kernel, ⟨(1, true), by decide +kernel⟩, by decide +kernel⟩
  apply ((failed_restore_keeps hfails).2 _ hp).1
  intro k
  show Leaves "a" (putBack ⟨"c"⟩ (stored sampleStocked.storage) [⟨[("_id", .string "x")]⟩] [] k)
    (appliedAt ⟨"c"⟩ (plan [] [samplePresent]).kept k) (stored sampleStocked.storage ⟨"c"⟩ k)
  by_cases hk : k = "\"x\""
  · -- the replay starts the place anew
    have hstart : putBack ⟨"c"⟩ (stored sampleStocked.storage) [⟨[("_id", .string "x")]⟩] [] k =
        none := by
      rw [hk]
      decide +kernel
    have happlied : appliedAt ⟨"c"⟩ (plan [] [samplePresent]).kept k = [samplePresent] := by
      rw [hk]
      decide +kernel
    have hbefore : stored sampleStocked.storage ⟨"c"⟩ k =
        some (mutationDocument "a" samplePresent) := by
      rw [hk]
      decide +kernel
    have hleaves : Leaves "a" none ([] ++ [samplePresent])
        (some (recordAll (mutationDocument "a" samplePresent) [])) :=
      .first (fun d hd => absurd hd (Option.not_mem_none d))
        (fun x hx => absurd hx List.not_mem_nil) rfl (by decide +kernel)
        fun x hx => absurd hx List.not_mem_nil
    rw [recordAll_nil] at hleaves
    rw [hstart, happlied, hbefore]
    exact hleaves
  · have hbefore : stored sampleStocked.storage ⟨"c"⟩ k = none := by
      have hdocs : docMap sampleStocked.storage = _ :=
        MemoryStorage.view_put ⟨"c"⟩ ⟨.string "x"⟩ ⟨[("_id", .string "x")]⟩ MemoryStorage.new
      exact (congrFun (congrFun hdocs ⟨"c"⟩) k).trans (DocMap.set_of_key_ne _ _ hk)
    have hstart : putBack ⟨"c"⟩ (stored sampleStocked.storage) [⟨[("_id", .string "x")]⟩] [] k =
        none := by
      rw [← hbefore]
      exact ite_eq_right_iff.mpr fun _ => hbefore.symm
    have happlied : appliedAt ⟨"c"⟩ (plan [] [samplePresent]).kept k = [] := by
      refine List.filter_eq_nil_iff.mpr fun m hm hplace => ?_
      obtain rfl : m = samplePresent := List.mem_singleton.mp (mem_of_mem_plan_kept hm)
      have hfiled : samplePresent.filedAt ⟨"c"⟩ = some (⟨"c"⟩, "\"x\"") := by decide
      have hsame := Option.some.inj (hfiled.symm.trans (of_decide_eq_true hplace))
      exact hk (Prod.mk.inj hsame).2.symm
    rw [hstart, happlied, hbefore]
    exact .deleted (fun d hd => absurd hd (Option.not_mem_none d))
      fun m hm => absurd hm List.not_mem_nil

/-- The collection holds a document. A restore from an empty snapshot fails because the mutation
that it replays is invalid, and the document is gone. -/
theorem failed_restore_loses_document :
    (sampleStocked.restoreFromSnapshot ⟨"c"⟩ (RangoEngine.emptySnapshot ⟨"c"⟩)
        [sampleUnowned]).1 =
      .error (.sync "invalid mutation metadata: tenant_id must be non-empty") ∧
    stored sampleStocked.storage ⟨"c"⟩ "\"x\"" = some ⟨[("_id", .string "x")]⟩ ∧
    stored (sampleStocked.restoreFromSnapshot ⟨"c"⟩ (RangoEngine.emptySnapshot ⟨"c"⟩)
        [sampleUnowned]).2.storage ⟨"c"⟩ "\"x\"" = none := by
  refine ⟨?_, ?_, ?_⟩
  · decide +kernel
  · decide +kernel
  · decide +kernel

end
end Rango
