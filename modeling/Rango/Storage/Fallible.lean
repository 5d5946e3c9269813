import Rango.Storage.Memory

/-!
# Backends that can fail

`FallibleStorage` is what a backend promises whose calls may fail: a failed call leaves the
documents as they were, a successful one acts on the map of documents. `DegradingStorage` is
one: it refuses writes while the disk is short of space.
-/

namespace Rango

/-- What a call leaves: `after` when it returns, `before` when it fails. -/
def settle {α β : Type} (r : Except RangoError α) (before after : β) : β :=
  match r with
  | .ok _ => after
  | .error _ => before

/-- A backend that behaves as a map whenever it does not fail. -/
class FallibleStorage (σ : Type) [Formatting] where
  engine : StorageEngine σ
  contents : σ → DocMap
  get_spec : ∀ c id s, contents (engine.get c id s).2 = contents s ∧
    ∀ found, (engine.get c id s).1 = .ok found → found = contents s c id.toString
  put_spec : ∀ c id d s, contents (engine.put c id d s).2 =
    settle (engine.put c id d s).1 (contents s) ((contents s).set c id.toString (some d))
  delete_spec : ∀ c id s, contents (engine.delete c id s).2 =
    settle (engine.delete c id s).1 (contents s) ((contents s).set c id.toString none)
  /-- A scan that does not fail lists the collection, each document once, in some order. -/
  scan_spec : ∀ c s, contents (engine.scan c s).2 = contents s ∧
    ∀ listed, (engine.scan c s).1 = .ok listed → ∃ docs : List (String × Document),
      listed = docs.map (fun e => .ok e.2) ∧ (docs.map Prod.fst).Nodup ∧
        ∀ k d, (k, d) ∈ docs ↔ contents s c k = some d

-- of low priority: the operations of a backend that is a map are found without this detour
instance (priority := low) [Formatting] {σ : Type} [FallibleStorage σ] : StorageEngine σ :=
  FallibleStorage.engine

section
variable [Formatting] {σ : Type}

/-- The documents that a backend holds. -/
def stored [FallibleStorage σ] (s : σ) : DocMap := FallibleStorage.contents s

/-- A backend that never fails is one that may. -/
instance [MapStorage σ] : FallibleStorage σ where
  engine := inferInstance
  contents := docMap
  get_spec c id s := by
    rw [storage_get_eq]
    exact ⟨rfl, fun found h => (Except.ok.inj h).symm⟩
  put_spec c id d s := by
    obtain ⟨s', hput, hdocs⟩ := storage_put_eq c id d s
    rw [hput]
    exact hdocs
  delete_spec c id s := by
    obtain ⟨s', hdel, hdocs⟩ := storage_delete_eq c id s
    rw [hdel]
    exact hdocs
  scan_spec c s := by
    obtain ⟨docs, hscan, hnodup, hmem⟩ := storage_scan_eq c s
    rw [hscan]
    exact ⟨rfl, fun listed h => ⟨docs, (Except.ok.inj h).symm, hnodup, hmem⟩⟩

@[simp] theorem stored_eq_docMap [MapStorage σ] (s : σ) : stored s = docMap s := rfl

end

/-! ## Degrading storage -/

/-- `DegradingStorage` over a backend with state `σ`. The space checker is the sequence of its
answers, and `checks` counts those it has given. -/
structure DegradingStorage (σ : Type) where
  inner : σ
  minFreeBytes : ℕ
  degraded : Bool
  lastAvailable : ℕ
  writeCounter : ℕ
  checkInterval : ℕ
  spaceChecker : ℕ → Except RangoError ℕ
  checks : ℕ

namespace DegradingStorage

variable {σ : Type}

/-- The check of the free space, when it is due. -/
def checkSpace (s : DegradingStorage σ) : DegradingStorage σ :=
  match s.spaceChecker s.checks with
  | .ok available =>
    { s with writeCounter := 0, checks := s.checks + 1, lastAvailable := available,
             degraded := available < s.minFreeBytes }
  -- without an answer the disk counts as full
  | .error _ => { s with writeCounter := 0, checks := s.checks + 1, degraded := true }

/-- `DegradingStorage::maybe_check_and_degrade`. -/
def maybeCheckAndDegrade (s : DegradingStorage σ) : Except RangoError Unit × DegradingStorage σ :=
  let s := { s with writeCounter := s.writeCounter + 1 }
  let s := if s.checkInterval ≤ s.writeCounter then s.checkSpace else s
  if s.degraded then (.error (.storage "Storage degraded: insufficient disk space"), s)
  else (.ok (), s)

/-- The check never touches the backend. -/
lemma maybeCheckAndDegrade_inner (s : DegradingStorage σ) :
    s.maybeCheckAndDegrade.2.inner = s.inner := by
  have hcheck : ∀ s : DegradingStorage σ, s.checkSpace.inner = s.inner := by
    intro s
    unfold checkSpace
    cases s.spaceChecker s.checks <;> rfl
  unfold maybeCheckAndDegrade
  dsimp only
  split_ifs
  · exact hcheck _
  · exact hcheck _
  · rfl
  · rfl

/-- A call that is passed on to the backend. -/
def pass {α : Type} (s : DegradingStorage σ) (r : α × σ) : α × DegradingStorage σ :=
  (r.1, { s with inner := r.2 })

/-- A write that is passed on unless the storage is degraded. -/
def guarded {α : Type} (s : DegradingStorage σ) (write : σ → Except RangoError α × σ) :
    Except RangoError α × DegradingStorage σ :=
  match s.maybeCheckAndDegrade with
  | (.error err, s) => (.error err, s)
  | (.ok (), s) => s.pass (write s.inner)

instance [StorageEngine σ] : StorageEngine (DegradingStorage σ) where
  get c id s := s.pass (StorageEngine.get c id s.inner)
  put c id doc s := s.guarded (StorageEngine.put c id doc)
  delete c id s := s.guarded (StorageEngine.delete c id)
  scan c s := s.pass (StorageEngine.scan c s.inner)

instance [RangeStorage σ] : RangeStorage (DegradingStorage σ) where
  range c start stop s := s.pass (RangeStorage.range c start stop s.inner)

variable [Formatting]

/-- A guarded write keeps the promise that the backend's own write keeps. -/
lemma guarded_spec [FallibleStorage σ] {α : Type} (write : σ → Except RangoError α × σ)
    (written : DocMap → DocMap)
    (hwrite : ∀ s, stored (write s).2 = settle (write s).1 (stored s) (written (stored s)))
    (s : DegradingStorage σ) :
    stored (s.guarded write).2.inner =
      settle (s.guarded write).1 (stored s.inner) (written (stored s.inner)) := by
  unfold guarded
  rcases hcheck : s.maybeCheckAndDegrade with ⟨r, s'⟩
  have hinner : s'.inner = s.inner := by
    rw [← maybeCheckAndDegrade_inner s, hcheck]
  cases r with
  | error err => exact congrArg stored hinner
  | ok _ =>
    have hback := hwrite s'.inner
    rw [hinner] at hback
    show stored (write s'.inner).2 = settle (write s'.inner).1 (stored s.inner) _
    rw [hinner]
    exact hback

instance [FallibleStorage σ] : FallibleStorage (DegradingStorage σ) where
  engine := inferInstance
  contents s := stored s.inner
  get_spec c id s := FallibleStorage.get_spec c id s.inner
  put_spec c id d s :=
    guarded_spec (StorageEngine.put c id d) (fun D => D.set c id.toString (some d))
      (FallibleStorage.put_spec c id d) s
  delete_spec c id s :=
    guarded_spec (StorageEngine.delete c id) (fun D => D.set c id.toString none)
      (FallibleStorage.delete_spec c id) s
  scan_spec c s := FallibleStorage.scan_spec c s.inner

end DegradingStorage
end Rango
