/-
# The node as a state machine

A dual-role node runs three threads over shared state: the time loop and the value loop of
`node.cpp`, which call `produce_block`, and the network thread, which calls
`handle_block` and `add_transaction`.  Only single storage calls and single uses of the
transaction pool are protected by a lock, so these are the atomic steps, and the threads
interleave between them.  What a thread carries from one step to the next is its phase
(`TimeLoop`, `ValueLoop`, `NetworkThread`).

`step` is executable; an exception that leaves a thread ends the process, so there is no
state after it.
-/
import CoinPlatform.Transition
import CoinPlatform.ValueChainConsensus

open ByteOrder StdVector

namespace CoinPlatform

namespace Node

/-! ## State and actions -/

/-- Where the time loop is in `produce_block`. -/
inductive TimeLoop where
  | idle
  | storing (block : TimeBlock)
  deriving DecidableEq

/-- Where the value loop is in `produce_block`. -/
inductive ValueLoop where
  | idle
  | eligible
  | gathered (transactions : List Transaction)
  | linked (transactions : List Transaction) (latestBlock : Option ValueBlock)
  | timed (transactions : List Transaction) (latestBlock : Option ValueBlock)
      (currentTime : UInt64)
  | storing (block : ValueBlock)
  deriving DecidableEq

/-- Where the network thread is in a `handle_block`. -/
inductive NetworkThread where
  | idle
  | storingTime (block : TimeBlock)
  | referenced (block : ValueBlock)
  | storingValue (block : ValueBlock)
  | purging (block : ValueBlock)
  deriving DecidableEq

structure State where
  timeStorage : FileStorage TimeBlock
  valueStorage : FileStorage ValueBlock
  transactionPool : List Transaction
  timeLoop : TimeLoop
  valueLoop : ValueLoop
  network : NetworkThread

/-- One step of one thread, with what it draws, reads from the clock, receives, or what the
file operations do. -/
inductive Action where
  | addTransaction (transaction : Transaction)
  | produceTime (randomNumber : UInt64) (currentTime : TimePoint)
  | storeProducedTime (io : WriteOutcome)
  | produceValue (randomNumber : UInt64)
  | gather
  | readLatestValue
  | readTime
  | readTimeHash
  | storeProducedValue (io : WriteOutcome)
  | receiveTime (block : TimeBlock)
  | storeReceivedTime (io : WriteOutcome)
  | receiveValue (block : ValueBlock)
  | checkValue
  | storeReceivedValue (io : WriteOutcome)
  | purge
  deriving DecidableEq

variable (H : Host) (G : GenesisBlocks) (keys : NodeKeys H)

/-! ## Starting -/

/-- `initialize_time_chain`: the storage and the consensus are initialized. -/
def initializeTimeChain (storage : FileStorage TimeBlock) (created : Bool) (io : WriteOutcome) :
    Except Fault (Bool × FileStorage TimeBlock) := do
  let directory :=
    ['d', 'a', 't', 'a', '/', 't', 'i', 'm', 'e', '_', 'c', 'h', 'a', 'i', 'n']
  let (ok, storage) := storage.initializeDirectory directory created
  if !ok then return (false, storage)
  TimeChainConsensus.initializeChain H G storage io

/-- `initialize_value_chain`. -/
def initializeValueChain (storage : FileStorage ValueBlock) (created : Bool)
    (io : WriteOutcome) : Except Fault (Bool × FileStorage ValueBlock) := do
  let directory :=
    ['d', 'a', 't', 'a', '/', 'v', 'a', 'l', 'u', 'e', '_', 'c', 'h', 'a', 'i', 'n']
  let (ok, storage) := storage.initializeDirectory directory created
  if !ok then return (false, storage)
  ValueChainConsensus.initializeChain H G storage io

/-- The state after a start from empty directories, if both chains initialize. -/
def start : Option State :=
  match initializeTimeChain H G FileStorage.empty true .ok,
    initializeValueChain H G FileStorage.empty true .ok with
  | .ok (true, timeStorage), .ok (true, valueStorage) =>
    some ⟨timeStorage, valueStorage, [], .idle, .idle, .idle⟩
  | _, _ => none

/-! ## Steps -/

/-- One step; `none` when the thread is not there, or when an exception leaves it. -/
def step (a : Action) (s : State) : Option State :=
  match a with
  | .addTransaction transaction =>
    some { s with
      transactionPool := ValueChainConsensus.addTransaction s.transactionPool transaction }
  | .produceTime randomNumber currentTime =>
    match s.timeLoop with
    | .idle =>
      -- the storage is locked for the read only, and again for the store
      if TimeChainConsensus.isEligibleToProduceBlock randomNumber then do
        let latestBlock ← (s.timeStorage.getLatestBlock H.endian).toOption
        let block ← (TimeChainConsensus.createBlock H keys latestBlock currentTime).toOption
        return { s with timeLoop := .storing block }
      else some s
    | _ => none
  | .storeProducedTime io =>
    match s.timeLoop with
    | .storing block => do
      let (_, storage) ← (s.timeStorage.storeBlock H.endian block io).toOption
      return { s with timeStorage := storage, timeLoop := .idle }
    | _ => none
  | .produceValue randomNumber =>
    match s.valueLoop with
    | .idle => do
      let currentTime ← (ValueChainConsensus.getCurrentTime H s.timeStorage).toOption
      if ValueChainConsensus.isEligibleToProduceBlock currentTime randomNumber then
        return { s with valueLoop := .eligible }
      else return s
    | _ => none
  | .gather =>
    match s.valueLoop with
    | .eligible => do
      -- from here on the transactions are in the hands of `produce_block` alone
      let (transactions, pool) ←
        (ValueChainConsensus.gatherTransactions H keys s.transactionPool).toOption
      if transactions.isEmpty then
        return { s with transactionPool := pool, valueLoop := .idle }
      else return { s with transactionPool := pool, valueLoop := .gathered transactions }
    | _ => none
  | .readLatestValue =>
    match s.valueLoop with
    | .gathered transactions => do
      let latestBlock ← (s.valueStorage.getLatestBlock H.endian).toOption
      return { s with valueLoop := .linked transactions latestBlock }
    | _ => none
  | .readTime =>
    match s.valueLoop with
    | .linked transactions latestBlock => do
      -- the time and the hash come from two reads, with a step of another thread between them
      let currentTime ← (ValueChainConsensus.getCurrentTime H s.timeStorage).toOption
      return { s with valueLoop := .timed transactions latestBlock currentTime }
    | _ => none
  | .readTimeHash =>
    match s.valueLoop with
    | .timed transactions latestBlock currentTime => do
      let timeBlockHash ← (TimeChain.getLatestBlockHash H.endian s.timeStorage).toOption
      let block ← (ValueChainConsensus.createBlock H keys latestBlock timeBlockHash
        currentTime transactions).toOption
      return { s with valueLoop := .storing block }
    | _ => none
  | .storeProducedValue io =>
    match s.valueLoop with
    | .storing block => do
      let (_, storage) ← (s.valueStorage.storeBlock H.endian block io).toOption
      return { s with valueStorage := storage, valueLoop := .idle }
    | _ => none
  | .receiveTime block =>
    match s.network with
    | .idle => do
      -- the block is validated against the storage as it is now, not as it is when it is stored
      let valid ← (TimeChainConsensus.validateBlock H s.timeStorage block).toOption
      if valid then return { s with network := .storingTime block } else return s
    | _ => none
  | .storeReceivedTime io =>
    match s.network with
    | .storingTime block => do
      let (_, storage) ← (s.timeStorage.storeBlock H.endian block io).toOption
      return { s with timeStorage := storage, network := .idle }
    | _ => none
  | .receiveValue block =>
    match s.network with
    | .idle =>
      -- the first of the two reads of `verify_time_reference`
      if TimeChain.blockExists s.timeStorage block.timeBlockHash then
        some { s with network := .referenced block }
      else some s
    | _ => none
  | .checkValue =>
    match s.network with
    | .referenced block => do
      let currentTime ← (ValueChainConsensus.getCurrentTime H s.timeStorage).toOption
      if currentTime < block.time then return { s with network := .idle }
      if !ValueChainConsensus.verifyTransactions H block then
        return { s with network := .idle }
      if !ValueChainConsensus.verifySignature H block then return { s with network := .idle }
      return { s with network := .storingValue block }
    | _ => none
  | .storeReceivedValue io =>
    match s.network with
    | .storingValue block => do
      -- a block that was not stored leaves the pool alone
      let (ok, storage) ← (s.valueStorage.storeBlock H.endian block io).toOption
      if ok then return { s with valueStorage := storage, network := .purging block }
      else return { s with valueStorage := storage, network := .idle }
    | _ => none
  | .purge =>
    match s.network with
    | .purging block =>
      some { s with
        transactionPool :=
          ValueChainConsensus.removeTransactions s.transactionPool block.transactions
        network := .idle }
    | _ => none

/-- A run of the node. -/
abbrev run := Transition.run (step H keys)

/-- A run whose steps all meet a condition on the state before the step and the action. -/
abbrev Along := Transition.Along (step H keys)

/-! ## Concrete runs -/

variable {H G keys}

/-! What is required of the block a thread is about to store can be computed. -/

-- a hash is one of finitely many values, and these are not to be tried one after the other
instance (priority := 2000) decidableForallOption {α : Type} (o : Option α) (p : α → Prop)
    [DecidablePred p] : Decidable (∀ x ∈ o, p x) :=
  Option.decidableForallMem o

instance (l : TimeLoop) (p : TimeBlock → Prop) [DecidablePred p] :
    Decidable (∀ block, l = .storing block → p block) :=
  match l with
  | .storing block => decidable_of_iff (p block) (by simp)
  | .idle => isTrue (by simp)

instance (l : ValueLoop) (p : ValueBlock → Prop) [DecidablePred p] :
    Decidable (∀ block, l = .storing block → p block) :=
  match l with
  | .storing block => decidable_of_iff (p block) (by simp)
  | .idle => isTrue (by simp)
  | .eligible => isTrue (by simp)
  | .gathered _ => isTrue (by simp)
  | .linked _ _ => isTrue (by simp)
  | .timed _ _ _ => isTrue (by simp)

instance (n : NetworkThread) (p : TimeBlock → Prop) [DecidablePred p] :
    Decidable (∀ block, n = .storingTime block → p block) :=
  match n with
  | .storingTime block => decidable_of_iff (p block) (by simp)
  | .idle => isTrue (by simp)
  | .referenced _ => isTrue (by simp)
  | .storingValue _ => isTrue (by simp)
  | .purging _ => isTrue (by simp)

instance (n : NetworkThread) (p : ValueBlock → Prop) [DecidablePred p] :
    Decidable (∀ block, n = .storingValue block → p block) :=
  match n with
  | .storingValue block => decidable_of_iff (p block) (by simp)
  | .idle => isTrue (by simp)
  | .storingTime _ => isTrue (by simp)
  | .referenced _ => isTrue (by simp)
  | .purging _ => isTrue (by simp)

/-- The node starts, the run is possible, its steps meet the condition, and the state it ends
in passes the test. -/
def Conforms (H : Host) (G : GenesisBlocks) (keys : NodeKeys H) (C : State → Action → Prop)
    [∀ s a, Decidable (C s a)] (as : List Action) (p : State → Bool) : Bool :=
  match start H G with
  | none => false
  | some s₀ => (run H keys as s₀).any p && decide (Along H keys C as s₀)

theorem exists_run_of_conforms {C : State → Action → Prop} [∀ s a, Decidable (C s a)]
    {as : List Action} {p : State → Bool} (h : Conforms H G keys C as p = true) :
    ∃ s₀ s, start H G = some s₀ ∧ run H keys as s₀ = some s ∧ p s = true ∧
      Along H keys C as s₀ := by
  unfold Conforms at h
  split at h
  · cases h
  · rename_i s₀ hstart
    rw [Bool.and_eq_true] at h
    obtain ⟨s, hs, hp⟩ := (Option.any_eq_true p _).mp h.1
    exact ⟨s₀, s, hstart, hs, hp, of_decide_eq_true h.2⟩

/-- The node starts, the run is possible, and the state it ends in passes the test. -/
def Reaches (H : Host) (G : GenesisBlocks) (keys : NodeKeys H) (as : List Action)
    (p : State → Bool) : Bool :=
  ((start H G).bind (run H keys as)).any p

theorem exists_run_of_reaches {as : List Action} {p : State → Bool}
    (h : Reaches H G keys as p = true) :
    ∃ s₀ s, start H G = some s₀ ∧ run H keys as s₀ = some s ∧ p s = true := by
  obtain ⟨s, hs, hp⟩ := (Option.any_eq_true p _).mp h
  obtain ⟨s₀, hstart, hrun⟩ := Option.bind_eq_some_iff.mp hs
  exact ⟨s₀, s, hstart, hrun, hp⟩

/-- The steps of one `produce_block` of the value loop. -/
def produceValueSteps (io : WriteOutcome) : List Action :=
  [.produceValue 0, .gather, .readLatestValue, .readTime, .readTimeHash, .storeProducedValue io]

/-- A payment of ten coins on the sample host, with the given signature. -/
def payment (signature : Signature) : Transaction :=
  (Transaction.new tagHost tagKeys.publicKey (List.Vector.replicate 32 2) 10 []).setSignature
    tagHost signature

/-- The signature of the payment by its sender. -/
def paymentSignature : Signature :=
  tagSignature (tagHost.sha256 ((payment (zeros 64)).getDataToSign .little)) tagKeys.publicKey

/-- A time block from another node: later than genesis, validly signed, and with its own
hash. -/
def receivedTimeBlock (previousHash : Hash) : TimeBlock :=
  signedTimeBlock previousHash 2000000000000000000

theorem previousHash_receivedTimeBlock (previousHash : Hash) :
    (receivedTimeBlock previousHash).previousHash = previousHash := rfl

/-- The same on genesis, with any time. -/
def receivedTimeBlockAt (time : TimePoint) : TimeBlock :=
  signedTimeBlock timeChainGenesisHash time

theorem verifySignature_setSignature_tagHost {b : TimeBlock}
    (hkey : b.publicKey = tagKeys.publicKey) :
    TimeChainConsensus.verifySignature tagHost (b.setSignature tagHost
      (tagSignature (tagHost.sha256 (b.getDataToSign .little)) tagKeys.publicKey)) = true := by
  show CoinPlatform.verifySignature tagHost (b.getDataToSign .little) _ b.publicKey = true
  rw [hkey]
  exact verifySignature_signMessage tagHost tagSecp256k1_correct tagKeys.derived
    (signMessage_tagHost _)

theorem verifySignature_receivedTimeBlockAt (time : TimePoint) :
    TimeChainConsensus.verifySignature tagHost (receivedTimeBlockAt time) = true :=
  verifySignature_setSignature_tagHost rfl

/-- A value block from another node: without transactions, validly signed, and with its own
hash. -/
def receivedValueBlock (previousHash timeBlockHash : Hash) (time : TimePoint) : ValueBlock :=
  signedBlock previousHash timeBlockHash time []

/-- A value block from another node, on the genesis blocks, with transactions. -/
def receivedPayments (transactions : List Transaction) : ValueBlock :=
  signedBlock valueChainGenesisHash timeChainGenesisHash 1 transactions

/-- The steps of one `handle_block` of the value chain. -/
def handleValueSteps (block : ValueBlock) : List Action :=
  [.receiveValue block, .checkValue, .storeReceivedValue .ok, .purge]

end Node

end CoinPlatform
