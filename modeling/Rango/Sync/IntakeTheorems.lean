import Rango.Lib.Runs
import Rango.Storage.Memory
import Rango.Sync.AckTheorems
import Rango.Sync.ClientCycle

/-!
# What a cycle takes in

A cycle stores the checkpoint of the pull that it got and counts the mutations. `recorded_iff`: as
it leaves the oplog and the storage alone, a client has recorded what its checkpoint passes exactly
when it had recorded it before the cycle.
-/

namespace Rango

/-- What a client does: work of its engine, or a sync cycle. -/
inductive ClientEvent where
  | work (step : EngineStep)
  | cycle (nodeId : String)

namespace Client

variable {σ ω κ χ ν : Type} [StorageEngine σ] [Oplog ω] [SyncQueue κ] [CheckpointStore χ]
  [SyncServer ν]

/-- The client after one event. -/
def step [Formatting] [BsonCodec] [MutationHasher] [Arithmetic] (config : SyncConfig)
    (c : Client σ ω κ χ ν) : ClientEvent → Client σ ω κ χ ν
  | .work step => { c with engine := c.engine.step step }
  | .cycle nodeId => (c.runOnce config nodeId).2

/-- The pull of a cycle returned `resp`, and the stored checkpoint was moved. -/
def Moves (config : SyncConfig) (nodeId : String) (c : Client σ ω κ χ ν) (resp : PullResponse) :
    Prop :=
  ∃ pushed c₁ since c₂ k,
    c.pushPhase config nodeId = (.ok pushed, c₁) ∧ c₁.getCheckpoint.1 = .ok since ∧
      c₁.pull nodeId since = (.ok resp, c₂) ∧
      (c.runOnce config nodeId).2.getCheckpoint.1 = .ok k ∧ k ≠ since

end Client

section
variable {σ ω : Type} [StorageEngine σ] [LogOplog ω]

/-- A mutation is in a client's oplog, or its document is stored with the mutation's
revision. -/
def Recorded (e : RangoEngine σ ω) (m : Mutation) : Prop :=
  (∃ entry ∈ toEntries e.oplog, entry.mutation = m) ∨
    ∃ doc, (StorageEngine.get ⟨m.collection⟩ m.docId e.storage).1 = .ok (some doc) ∧
      doc.getStr "_rev" = some m.rev.text

end

namespace Client

variable {σ ω κ χ ν : Type} [StorageEngine σ] [LogOplog ω] [SyncQueue κ] [CheckpointStore χ]
  [SyncServer ν] [Formatting] [BsonCodec] [MutationHasher] [Arithmetic] {config : SyncConfig}

/-- After an event, everything in a pull that moved the checkpoint is recorded. -/
def TakesIn (config : SyncConfig) (c : Client σ ω κ χ ν) (ev : ClientEvent) : Prop :=
  ∀ nodeId resp, ev = .cycle nodeId → c.Moves config nodeId resp →
    ∀ m ∈ resp.mutations, Recorded (c.step config ev).engine m

/-- Before an event, everything in a pull that will move the checkpoint is recorded. -/
def HasAlready (config : SyncConfig) (c : Client σ ω κ χ ν) (ev : ClientEvent) : Prop :=
  ∀ nodeId resp, ev = .cycle nodeId → c.Moves config nodeId resp →
    ∀ m ∈ resp.mutations, Recorded c.engine m

/-- A cycle leaves the oplog and the storage. -/
lemma step_cycle_engine (c : Client σ ω κ χ ν) (nodeId : String) :
    (c.step config (.cycle nodeId)).engine = c.engine :=
  runOnce_engine config nodeId c

lemma takesIn_iff (c : Client σ ω κ χ ν) (ev : ClientEvent) :
    c.TakesIn config ev ↔ c.HasAlready config ev := by
  constructor
  · rintro h nodeId resp rfl hmoves m hm
    have hrecorded := h nodeId resp rfl hmoves m hm
    rwa [step_cycle_engine] at hrecorded
  · rintro h nodeId resp rfl hmoves m hm
    rw [step_cycle_engine]
    exact h nodeId resp rfl hmoves m hm

/-- **What a cycle takes in.** In every run of a client, all that its checkpoint passes is
recorded when the cycle returns exactly when all of it was recorded when the cycle began. -/
theorem recorded_iff (config : SyncConfig) (c : Client σ ω κ χ ν) (events : List ClientEvent) :
    Runs.All (step config) (TakesIn config) c events ↔
      Runs.All (step config) (HasAlready config) c events :=
  ⟨Runs.All.imp fun c ev => (takesIn_iff c ev).mp, Runs.All.imp fun c ev => (takesIn_iff c ev).mpr⟩

end Client
/-! ## A new client pulls another node's write -/

section
attribute [local instance] sampleQueueCodec sampleJsonCodec Formatting.sample Surroundings.sample
  Arithmetic.sample MutationHasher.sample

/-- The server after the push of a write by node `"peer"`. -/
def sampleHolder : Remote MemLog Unit :=
  { sampleRemote with
    state := (sampleRemote.state.processPush sampleRemote.cp
      (SyncScheduler.batchRequest "peer" [sampleWrite "w1"] 0) ⟨"peer", "default"⟩).2 }

/-- A new client of that server. -/
def samplePuller : Client MemoryStorage MemLog FileSyncQueue FileCheckpointStore
    (Remote MemLog Unit) where
  engine := .openEngine MemoryStorage.new MemLog.new "node"
  sync := { queue := sampleQueue [] List.nodup_nil, checkpoint := sampleStore
            server := sampleHolder }

/-- The pull returns the write and moves the checkpoint past it, and the write is neither in the
client's oplog nor in its storage. -/
theorem pulled_write_dropped :
    samplePuller.Moves .default "node"
        ⟨[(sampleWrite "w1").mutation], 2, [⟨.allow, "retrieval_allowed"⟩]⟩ ∧
      ¬ Recorded (samplePuller.step .default (.cycle "node")).engine (sampleWrite "w1").mutation ∧
      ¬ samplePuller.TakesIn .default (.cycle "node") := by
  have hpush : (samplePuller.pushPhase .default "node").1 = .ok 0 := by decide +kernel
  have hpull : ((samplePuller.pushPhase .default "node").2.pull "node" 0).1 =
      .ok ⟨[(sampleWrite "w1").mutation], 2, [⟨.allow, "retrieval_allowed"⟩]⟩ := by
    decide +kernel
  have hmoves : samplePuller.Moves .default "node"
      ⟨[(sampleWrite "w1").mutation], 2, [⟨.allow, "retrieval_allowed"⟩]⟩ :=
    ⟨0, _, 0, _, 2, Prod.fst_eq_iff.mp hpush, by decide +kernel, Prod.fst_eq_iff.mp hpull,
      by decide +kernel, by decide⟩
  have hlost : ¬ Recorded (samplePuller.step .default (.cycle "node")).engine
      (sampleWrite "w1").mutation := by
    rw [Client.step_cycle_engine]
    rintro (⟨entry, hentry, -⟩ | ⟨doc, hdoc, -⟩)
    · cases hentry
    · cases hdoc
  refine ⟨hmoves, hlost, fun h => hlost ?_⟩
  exact h "node" _ rfl hmoves _ (List.mem_singleton.mpr rfl)

end
end Rango
