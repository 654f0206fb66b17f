/-
# The roles of a node

A node is started as `time`, `value` or `dual`.  Its role decides which components
`initialize_components` builds, and the pointers to the others stay null.  A step of the node is
described with its pointers here, so that a call through a null pointer can be told from a fault.

* `built_of_start`: what each role has built;
* `Built.act`: every step leaves it;
* `initializeComponents_of_start`: a dual node starts as the state machine of `NodeMachine` does;
* `exists_run_of_dual`: what a dual node does is a run of the state machine.
-/
import CoinPlatform.Messages
import CoinPlatform.NodeCalls

open ByteOrder StdVector

namespace CoinPlatform

namespace Roles

open Node

/-! ## Pointers -/

/-- How a call ends when it does not return: at a null pointer, or with a fault. -/
inductive Failure where
  | nullPointer
  | fault (fault : Fault)
  deriving DecidableEq

/-- The object that a pointer points to. -/
def deref {α : Type} (pointer : Option α) : Except Failure α :=
  match pointer with
  | none => .error .nullPointer
  | some object => .ok object

/-- A call that uses no pointer of the node. -/
def lift {α : Type} (x : Except Fault α) : Except Failure α :=
  match x with
  | .error fault => .error (.fault fault)
  | .ok a => .ok a

section Pointers

variable {α β : Type} {x : Except Failure α} {f : α → Except Failure β}

/-- A call meets a null pointer in its first part, or in the second one after it. -/
theorem bind_eq_nullPointer : x >>= f = .error .nullPointer ↔
    x = .error .nullPointer ∨ ∃ a, x = .ok a ∧ f a = .error .nullPointer := by
  cases x <;> simp [bind, Except.bind]

theorem lift_ne_nullPointer (x : Except Fault α) : lift x ≠ .error .nullPointer := by
  cases x <;> simp [lift]

/-- After the calls through the pointers no pointer is null. -/
theorem lift_bind_ne_nullPointer (x : Except Fault α) (hf : ∀ a, f a ≠ .error .nullPointer) :
    lift x >>= f ≠ .error .nullPointer := by
  rw [Ne, bind_eq_nullPointer, or_iff_right (lift_ne_nullPointer x)]
  rintro ⟨a, -, h⟩
  exact hf a h

theorem lift_eq_ok {x : Except Fault α} {a : α} : lift x = .ok a ↔ x = .ok a := by
  cases x <;> simp [lift]

theorem deref_eq_ok {pointer : Option α} {object : α} :
    deref pointer = .ok object ↔ pointer = some object := by
  cases pointer <;> simp [deref]

end Pointers

/-! ## The node -/

/-- `node_role_`. -/
inductive Role where
  | time
  | value
  | dual
  deriving DecidableEq

/-- `node_role_ == "time" || node_role_ == "dual"`. -/
def Role.hasTimeChain : Role → Bool
  | .time => true
  | .value => false
  | .dual => true

/-- `node_role_ == "value" || node_role_ == "dual"`. -/
def Role.hasValueChain : Role → Bool
  | .time => false
  | .value => true
  | .dual => true

/-- `ValueChainConsensus`: the `time_chain_` that it was constructed with, and its pool. -/
structure ValueConsensus where
  timeChain : Option Unit
  transactionPool : List Transaction

/-- `Node` with its pointers; an object without a state of its own is a unit.  The time chain and
the two consensus objects share the storages of the node. -/
structure State where
  role : Role
  timeChainStorage : Option (FileStorage TimeBlock)
  valueChainStorage : Option (FileStorage ValueBlock)
  timeChain : Option Unit
  timeChainConsensus : Option Unit
  valueChainConsensus : Option ValueConsensus
  incomingBuffers : IPAddress → Bytes

/-- The constructor, over what is on the disk: the storages of the role. -/
def construct (role : Role) (timeFiles : FileStorage TimeBlock)
    (valueFiles : FileStorage ValueBlock) : State where
  role := role
  timeChainStorage := if role.hasTimeChain then some timeFiles else none
  valueChainStorage := if role.hasValueChain then some valueFiles else none
  timeChain := none
  timeChainConsensus := none
  valueChainConsensus := none
  incomingBuffers := fun _ => []

variable (H : Host) (G : GenesisBlocks) (keys : NodeKeys H)

/-- `initialize_time_chain`: the objects are built once the storage has its directory. -/
def initializeTimeChain (s : State) (created : Bool) (io : WriteOutcome) :
    Except Failure (Bool × State) := do
  let storage ← deref s.timeChainStorage
  let (ok, storage) ← lift (Node.initializeTimeChain H G storage created io)
  let pointer := if created then some () else none
  return (ok, { s with
    timeChainStorage := some storage, timeChain := pointer, timeChainConsensus := pointer })

/-- `initialize_value_chain`: the consensus is given `time_chain_` as it is. -/
def initializeValueChain (s : State) (created : Bool) (io : WriteOutcome) :
    Except Failure (Bool × State) := do
  let storage ← deref s.valueChainStorage
  let (ok, storage) ← lift (Node.initializeValueChain H G storage created io)
  let pointer := if created then some ⟨s.timeChain, []⟩ else none
  return (ok, { s with valueChainStorage := some storage, valueChainConsensus := pointer })

/-- `initialize_components`; for each chain, whether its directory is created and how the store
of the genesis block goes. -/
def initializeComponents (s : State) (time value : Bool × WriteOutcome) :
    Except Failure (Bool × State) := do
  let (ok, s) ← if s.role.hasTimeChain then initializeTimeChain H G s time.1 time.2
    else pure (true, s)
  if !ok then return (false, s)
  if s.role.hasValueChain then initializeValueChain H G s value.1 value.2
  else return (true, s)

/-! ## Steps -/

/-- The call that a message handler makes. -/
def handleItem (s : State) (item : Item) (io : WriteOutcome) : Except Failure State :=
  match item with
  | .timeBlock block => do
    let () ← deref s.timeChainConsensus
    let storage ← deref s.timeChainStorage
    let storage ← lift (TimeChainConsensus.handleBlock H storage block io)
    return { s with timeChainStorage := some storage }
  | .valueBlock block => do
    let consensus ← deref s.valueChainConsensus
    -- the first thing `handle_block` does is to ask the time chain for the time block
    let () ← deref consensus.timeChain
    let timeStorage ← deref s.timeChainStorage
    let storage ← deref s.valueChainStorage
    let (storage, pool) ← lift (ValueChainConsensus.handleBlock H timeStorage storage
      consensus.transactionPool block io)
    return { s with
      valueChainStorage := some storage
      valueChainConsensus := some { consensus with transactionPool := pool } }
  | .transaction tx => do
    let consensus ← deref s.valueChainConsensus
    let pool := ValueChainConsensus.addTransaction consensus.transactionPool tx
    return { s with valueChainConsensus := some { consensus with transactionPool := pool } }

/-- `process_complete_message`. -/
def handleMessage (s : State) (message : Bytes) (io : WriteOutcome) : Except Failure State := do
  match ← lift (processCompleteMessage H.endian message) with
  | none => return s
  | some item => handleItem H s item io

/-- An iteration of `run_time_chain_loop`. -/
def runTimeChainLoop (s : State) (randomNumber : UInt64) (currentTime : TimePoint)
    (io : WriteOutcome) : Except Failure State := do
  let () ← deref s.timeChainConsensus
  let storage ← deref s.timeChainStorage
  let (_, storage) ←
    lift (TimeChainConsensus.produceBlock H keys storage randomNumber currentTime io)
  return { s with timeChainStorage := some storage }

/-- An iteration of `run_value_chain_loop`. -/
def runValueChainLoop (s : State) (recipientPrivateKey : PrivateKey) (randomNumber : UInt64)
    (io : WriteOutcome) : Except Failure State := do
  let tx ← lift (generateTransaction H keys recipientPrivateKey)
  let consensus ← deref s.valueChainConsensus
  let pool := ValueChainConsensus.addTransaction consensus.transactionPool tx
  -- the first thing `produce_block` does is to ask the time chain for the time
  let () ← deref consensus.timeChain
  let timeStorage ← deref s.timeChainStorage
  let storage ← deref s.valueChainStorage
  let (_, storage, pool) ← lift (ValueChainConsensus.produceBlock H keys timeStorage storage pool
    randomNumber io)
  return { s with
    valueChainStorage := some storage
    valueChainConsensus := some { consensus with transactionPool := pool } }

/-- What happens to a node: a chunk arrives, the loop of `handle_incoming_data` takes a turn, or
one of the two producer loops does. -/
inductive Action where
  | receiveData (sender : IPAddress) (data : Bytes)
  | nextMessage (sender : IPAddress) (io : WriteOutcome)
  | timeChainLoop (randomNumber : UInt64) (currentTime : TimePoint) (io : WriteOutcome)
  | valueChainLoop (recipientPrivateKey : PrivateKey) (randomNumber : UInt64)
      (io : WriteOutcome)

/-- One step, with the way it ends when it does not return. -/
def act (a : Action) (s : State) : Except Failure State :=
  match a with
  | .receiveData sender data => .ok { s with
      incomingBuffers :=
        Function.update s.incomingBuffers sender (s.incomingBuffers sender ++ data) }
  | .nextMessage sender io =>
    match Node.nextMessage H.endian (s.incomingBuffers sender) with
    | .wait => .ok s
    | .fault fault => .error (.fault fault)
    | .message completeMessage rest =>
      handleMessage H
        { s with incomingBuffers := Function.update s.incomingBuffers sender rest }
        completeMessage io
  -- `start` has started the threads of the role only
  | .timeChainLoop randomNumber currentTime io =>
    if s.role.hasTimeChain then runTimeChainLoop H keys s randomNumber currentTime io else .ok s
  | .valueChainLoop recipientPrivateKey randomNumber io =>
    if s.role.hasValueChain then runValueChainLoop H keys s recipientPrivateKey randomNumber io
    else .ok s

/-- One step; a failure ends the process. -/
def step (a : Action) (s : State) : Option State := (act H keys a s).toOption

/-- A run whose steps all meet a condition. -/
abbrev Along := Transition.Along (step H keys)

variable {H G keys}

/-! ## What is built -/

/-- Exactly the components of the role are there, and the consensus of the value chain has the
time chain of the node. -/
structure Built (s : State) : Prop where
  timeChainStorage : s.timeChainStorage.isSome = s.role.hasTimeChain
  valueChainStorage : s.valueChainStorage.isSome = s.role.hasValueChain
  timeChain : s.timeChain.isSome = s.role.hasTimeChain
  timeChainConsensus : s.timeChainConsensus.isSome = s.role.hasTimeChain
  valueChainConsensus : s.valueChainConsensus.isSome = s.role.hasValueChain
  sharesTimeChain : ∀ consensus, s.valueChainConsensus = some consensus →
    consensus.timeChain = s.timeChain

section Start

variable {s t : State} {created : Bool} {io : WriteOutcome}

/-- A time chain that is initialized has its storage, and both objects. -/
theorem initializeTimeChain_eq_ok
    (h : initializeTimeChain H G s created io = .ok (true, t)) :
    ∃ storage, t = { s with
      timeChainStorage := some storage, timeChain := some (), timeChainConsensus := some () } := by
  obtain ⟨storage, -, h⟩ := bind_eq_ok.mp h
  obtain ⟨⟨ok, storage'⟩, hinit, h⟩ := bind_eq_ok.mp h
  have hinit := lift_eq_ok.mp hinit
  cases h
  cases created with
  | false => cases hinit
  | true => exact ⟨storage', rfl⟩

theorem initializeTimeChain_ne_nullPointer {storage : FileStorage TimeBlock}
    (h : s.timeChainStorage = some storage) :
    initializeTimeChain H G s created io ≠ .error .nullPointer := by
  rw [initializeTimeChain, h]
  refine lift_bind_ne_nullPointer _ (fun r h => ?_)
  cases h

theorem initializeValueChain_ne_nullPointer {storage : FileStorage ValueBlock}
    (h : s.valueChainStorage = some storage) :
    initializeValueChain H G s created io ≠ .error .nullPointer := by
  rw [initializeValueChain, h]
  refine lift_bind_ne_nullPointer _ (fun r h => ?_)
  cases h

/-- No pointer is null while the components are initialized. -/
theorem initializeComponents_ne_nullPointer (role : Role) (timeFiles : FileStorage TimeBlock)
    (valueFiles : FileStorage ValueBlock) (time value : Bool × WriteOutcome) :
    initializeComponents H G (construct role timeFiles valueFiles) time value
      ≠ .error .nullPointer := by
  intro h
  cases role with
  | time =>
      rcases bind_eq_nullPointer.mp h with h | ⟨⟨ok, s⟩, htime, h⟩
      · exact initializeTimeChain_ne_nullPointer rfl h
      · cases ok with
        | false => cases h
        | true =>
            obtain ⟨storage, rfl⟩ := initializeTimeChain_eq_ok htime
            cases h
  | value =>
      change initializeValueChain H G (construct .value timeFiles valueFiles) value.1 value.2
        = .error .nullPointer at h
      exact initializeValueChain_ne_nullPointer rfl h
  | dual =>
      rcases bind_eq_nullPointer.mp h with h | ⟨⟨ok, s⟩, htime, h⟩
      · exact initializeTimeChain_ne_nullPointer rfl h
      · cases ok with
        | false => cases h
        | true =>
            obtain ⟨storage, rfl⟩ := initializeTimeChain_eq_ok htime
            exact initializeValueChain_ne_nullPointer rfl h

end Start

section Components

variable {s : State}

theorem Built.time_present (hs : Built s) (h : s.role.hasTimeChain = true) :
    s.timeChainConsensus = some () ∧ s.timeChain = some () ∧
      ∃ storage, s.timeChainStorage = some storage := by
  obtain ⟨u, hconsensus⟩ := Option.isSome_iff_exists.mp (hs.timeChainConsensus.trans h)
  obtain ⟨v, hchain⟩ := Option.isSome_iff_exists.mp (hs.timeChain.trans h)
  exact ⟨hconsensus, hchain, Option.isSome_iff_exists.mp (hs.timeChainStorage.trans h)⟩

theorem Built.value_present (hs : Built s) (h : s.role.hasValueChain = true) :
    ∃ storage pool, s.valueChainStorage = some storage ∧
      s.valueChainConsensus = some ⟨s.timeChain, pool⟩ := by
  obtain ⟨storage, hstorage⟩ := Option.isSome_iff_exists.mp (hs.valueChainStorage.trans h)
  obtain ⟨⟨timeChain, pool⟩, hconsensus⟩ :=
    Option.isSome_iff_exists.mp (hs.valueChainConsensus.trans h)
  obtain rfl := hs.sharesTimeChain _ hconsensus
  exact ⟨storage, pool, hstorage, hconsensus⟩

end Components

/-! ## What stays -/

section Frame

variable {s t : State} {item : Item} {io : WriteOutcome} {a : Action}

theorem Built.setIncomingBuffers (hs : Built s) (incomingBuffers : IPAddress → Bytes) :
    Built { s with incomingBuffers := incomingBuffers } :=
  { hs with }

theorem Built.setTimeChainStorage (hs : Built s) {storage : FileStorage TimeBlock}
    (h : s.timeChainStorage = some storage) (storage' : FileStorage TimeBlock) :
    Built { s with timeChainStorage := some storage' } := by
  have hrole := hs.timeChainStorage
  rw [h] at hrole
  exact { hs with timeChainStorage := hrole }

theorem Built.setValueChainStorage (hs : Built s) {storage : FileStorage ValueBlock}
    (h : s.valueChainStorage = some storage) (storage' : FileStorage ValueBlock) :
    Built { s with valueChainStorage := some storage' } := by
  have hrole := hs.valueChainStorage
  rw [h] at hrole
  exact { hs with valueChainStorage := hrole }

theorem Built.setTransactionPool (hs : Built s) {consensus : ValueConsensus}
    (h : s.valueChainConsensus = some consensus) (pool : List Transaction) :
    Built { s with
      valueChainConsensus := some { consensus with transactionPool := pool } } := by
  have hrole := hs.valueChainConsensus
  have hshares := hs.sharesTimeChain consensus h
  rw [h] at hrole
  refine { hs with valueChainConsensus := hrole, sharesTimeChain := ?_ }
  intro c hc
  cases hc
  exact hshares

/-- A call that returns leaves the components of the role. -/
theorem Built.handleItem (hs : Built s) (h : handleItem H s item io = .ok t) :
    Built t ∧ t.role = s.role := by
  cases item with
  | timeBlock block =>
      obtain ⟨_, -, h⟩ := bind_eq_ok.mp h
      obtain ⟨storage, hstorage, h⟩ := bind_eq_ok.mp h
      obtain ⟨storage', -, h⟩ := bind_eq_ok.mp h
      cases h
      exact ⟨hs.setTimeChainStorage (deref_eq_ok.mp hstorage) storage', rfl⟩
  | valueBlock block =>
      obtain ⟨consensus, hconsensus, h⟩ := bind_eq_ok.mp h
      obtain ⟨_, -, h⟩ := bind_eq_ok.mp h
      obtain ⟨timeStorage, -, h⟩ := bind_eq_ok.mp h
      obtain ⟨storage, hstorage, h⟩ := bind_eq_ok.mp h
      obtain ⟨⟨storage', pool⟩, -, h⟩ := bind_eq_ok.mp h
      cases h
      exact ⟨(hs.setValueChainStorage (deref_eq_ok.mp hstorage) storage').setTransactionPool
        (deref_eq_ok.mp hconsensus) pool, rfl⟩
  | transaction tx =>
      obtain ⟨consensus, hconsensus, h⟩ := bind_eq_ok.mp h
      cases h
      exact ⟨hs.setTransactionPool (deref_eq_ok.mp hconsensus) _, rfl⟩

theorem Built.handleMessage {message : Bytes} (hs : Built s)
    (h : handleMessage H s message io = .ok t) : Built t ∧ t.role = s.role := by
  obtain ⟨o, -, h⟩ := bind_eq_ok.mp h
  cases o with
  | none =>
      cases h
      exact ⟨hs, rfl⟩
  | some item => exact hs.handleItem h

theorem Built.runTimeChainLoop {randomNumber : UInt64} {currentTime : TimePoint} (hs : Built s)
    (h : runTimeChainLoop H keys s randomNumber currentTime io = .ok t) :
    Built t ∧ t.role = s.role := by
  obtain ⟨_, -, h⟩ := bind_eq_ok.mp h
  obtain ⟨storage, hstorage, h⟩ := bind_eq_ok.mp h
  obtain ⟨⟨_, storage'⟩, -, h⟩ := bind_eq_ok.mp h
  cases h
  exact ⟨hs.setTimeChainStorage (deref_eq_ok.mp hstorage) storage', rfl⟩

theorem Built.runValueChainLoop {recipientPrivateKey : PrivateKey} {randomNumber : UInt64}
    (hs : Built s)
    (h : runValueChainLoop H keys s recipientPrivateKey randomNumber io = .ok t) :
    Built t ∧ t.role = s.role := by
  obtain ⟨tx, -, h⟩ := bind_eq_ok.mp h
  obtain ⟨consensus, hconsensus, h⟩ := bind_eq_ok.mp h
  obtain ⟨_, -, h⟩ := bind_eq_ok.mp h
  obtain ⟨timeStorage, -, h⟩ := bind_eq_ok.mp h
  obtain ⟨storage, hstorage, h⟩ := bind_eq_ok.mp h
  obtain ⟨⟨_, storage', pool⟩, -, h⟩ := bind_eq_ok.mp h
  cases h
  exact ⟨(hs.setValueChainStorage (deref_eq_ok.mp hstorage) storage').setTransactionPool
    (deref_eq_ok.mp hconsensus) pool, rfl⟩

/-- **A step leaves the components of the role.** -/
theorem Built.act (hs : Built s) (h : act H keys a s = .ok t) : Built t ∧ t.role = s.role := by
  cases a with
  | receiveData sender data =>
      cases h
      exact ⟨hs.setIncomingBuffers _, rfl⟩
  | nextMessage sender io =>
      dsimp only [Roles.act] at h
      split at h
      · cases h
        exact ⟨hs, rfl⟩
      · cases h
      · obtain ⟨ht, hrole⟩ := (hs.setIncomingBuffers _).handleMessage h
        exact ⟨ht, hrole⟩
  | timeChainLoop randomNumber currentTime io =>
      dsimp only [Roles.act] at h
      split at h
      · exact hs.runTimeChainLoop h
      · cases h
        exact ⟨hs, rfl⟩
  | valueChainLoop recipientPrivateKey randomNumber io =>
      dsimp only [Roles.act] at h
      split at h
      · exact hs.runValueChainLoop h
      · cases h
        exact ⟨hs, rfl⟩

end Frame

/-! ## The calls of a dual node -/

/-- The call of the state machine that an item leads to. -/
def callOfItem (io : WriteOutcome) : Item → Call
  | .timeBlock block => .handleTimeBlock block io
  | .valueBlock block => .handleValueBlock block io
  | .transaction tx => .addTransaction tx

/-- A dual node over the state of the state machine. -/
def ofNode (incomingBuffers : IPAddress → Bytes) (m : Node.State) : State where
  role := .dual
  timeChainStorage := some m.timeStorage
  valueChainStorage := some m.valueStorage
  timeChain := some ()
  timeChainConsensus := some ()
  valueChainConsensus := some ⟨some (), m.transactionPool⟩
  incomingBuffers := incomingBuffers

section Dual

variable {s : State} {m : Node.State} {incomingBuffers : IPAddress → Bytes}

/-- A dual node that has started is one. -/
theorem Built.exists_eq_ofNode (hs : Built s) (hrole : s.role = .dual) :
    ∃ m : Node.State, m.Idle ∧ s = ofNode s.incomingBuffers m := by
  obtain ⟨hconsensus, hchain, timeStorage, htimeStorage⟩ :=
    hs.time_present (by rw [hrole]; rfl)
  obtain ⟨storage, pool, hstorage, hpool⟩ := hs.value_present (by rw [hrole]; rfl)
  refine ⟨⟨timeStorage, storage, pool, .idle, .idle, .idle⟩, ⟨rfl, rfl, rfl⟩, ?_⟩
  obtain ⟨role, timeChainStorage, valueChainStorage, timeChain, timeChainConsensus,
    valueChainConsensus, buffers⟩ := s
  dsimp only at hrole hconsensus hchain htimeStorage hstorage hpool
  subst hrole hconsensus hchain htimeStorage hstorage hpool
  rfl

/-- **A dual node starts as the state machine does.** -/
theorem initializeComponents_of_start (h : start H G = some m) :
    initializeComponents H G (construct .dual FileStorage.empty FileStorage.empty) (true, .ok)
      (true, .ok) = .ok (true, ofNode (fun _ => []) m) := by
  unfold start at h
  split at h
  · rename_i timeStorage valueStorage htime hvalue
    cases h
    have htimeChain : initializeTimeChain H G
        (construct .dual FileStorage.empty FileStorage.empty) true .ok = .ok (true,
          { construct .dual FileStorage.empty FileStorage.empty with
            timeChainStorage := some timeStorage
            timeChain := some ()
            timeChainConsensus := some () }) := by
      rw [initializeTimeChain]
      show lift (Node.initializeTimeChain H G FileStorage.empty true .ok) >>= _ = _
      rw [htime]
      rfl
    refine bind_eq_ok.mpr ⟨_, htimeChain, ?_⟩
    show initializeValueChain H G _ true .ok = _
    rw [initializeValueChain]
    show lift (Node.initializeValueChain H G FileStorage.empty true .ok) >>= _ = _
    rw [hvalue]
    rfl
  · cases h

/-- **On a dual node a message leads to the call of the state machine.** -/
theorem handleItem_ofNode (item : Item) (io : WriteOutcome) :
    (handleItem H (ofNode incomingBuffers m) item io).toOption
      = (call H keys (callOfItem io item) m).map (ofNode incomingBuffers) := by
  cases item with
  | timeBlock block =>
      dsimp only [callOfItem, call]
      show (lift (TimeChainConsensus.handleBlock H m.timeStorage block io) >>= _).toOption = _
      cases TimeChainConsensus.handleBlock H m.timeStorage block io with
      | error fault => rfl
      | ok storage => rfl
  | valueBlock block =>
      dsimp only [callOfItem, call]
      show (lift (ValueChainConsensus.handleBlock H m.timeStorage m.valueStorage
        m.transactionPool block io) >>= _).toOption = _
      cases ValueChainConsensus.handleBlock H m.timeStorage m.valueStorage m.transactionPool block
        io with
      | error fault => rfl
      | ok r => rfl
  | transaction tx => rfl

theorem runTimeChainLoop_ofNode (randomNumber : UInt64) (currentTime : TimePoint)
    (io : WriteOutcome) :
    (runTimeChainLoop H keys (ofNode incomingBuffers m) randomNumber currentTime io).toOption
      = (call H keys (.produceTimeBlock randomNumber currentTime io) m).map
        (ofNode incomingBuffers) := by
  dsimp only [call]
  show (lift (TimeChainConsensus.produceBlock H keys m.timeStorage randomNumber currentTime io)
    >>= _).toOption = _
  cases TimeChainConsensus.produceBlock H keys m.timeStorage randomNumber currentTime io with
  | error fault => rfl
  | ok r => rfl

/-- An iteration of the value loop is two calls. -/
theorem runValueChainLoop_ofNode {recipientPrivateKey : PrivateKey} {tx : Transaction}
    (htx : generateTransaction H keys recipientPrivateKey = .ok tx) (randomNumber : UInt64)
    (io : WriteOutcome) :
    (runValueChainLoop H keys (ofNode incomingBuffers m) recipientPrivateKey randomNumber
        io).toOption
      = (Transition.run (call H keys) [.addTransaction tx, .produceValueBlock randomNumber io]
        m).map (ofNode incomingBuffers) := by
  rw [runValueChainLoop, htx, Transition.run_cons]
  dsimp only [call]
  rw [Option.bind_some, Transition.run_cons]
  dsimp only [call]
  show (lift (ValueChainConsensus.produceBlock H keys m.timeStorage m.valueStorage
    (ValueChainConsensus.addTransaction m.transactionPool tx) randomNumber io) >>= _).toOption = _
  cases ValueChainConsensus.produceBlock H keys m.timeStorage m.valueStorage
    (ValueChainConsensus.addTransaction m.transactionPool tx) randomNumber io with
  | error fault => rfl
  | ok r => rfl

theorem exists_of_toOption_eq {x : Except Failure State} {o : Option Node.State} {t : State}
    (hx : x.toOption = o.map (ofNode incomingBuffers)) (h : x = .ok t) :
    ∃ m', o = some m' ∧ t = ofNode incomingBuffers m' := by
  rw [h] at hx
  obtain ⟨m', ho, hm'⟩ := Option.map_eq_some_iff.mp hx.symm
  exact ⟨m', ho, hm'.symm⟩

/-- A step of a dual node is a sequence of calls. -/
theorem exists_calls_of_act {a : Action} {t : State}
    (h : act H keys a (ofNode incomingBuffers m) = .ok t) :
    ∃ cs m' buffers, Transition.run (call H keys) cs m = some m' ∧ t = ofNode buffers m' := by
  cases a with
  | receiveData sender data =>
      cases h
      exact ⟨[], m, _, rfl, rfl⟩
  | nextMessage sender io =>
      dsimp only [act] at h
      split at h
      · cases h
        exact ⟨[], m, _, rfl, rfl⟩
      · cases h
      · rename_i completeMessage rest hnext
        obtain ⟨o, -, hitem⟩ := bind_eq_ok.mp h
        cases o with
        | none =>
            cases hitem
            exact ⟨[], m, _, rfl, rfl⟩
        | some item =>
            obtain ⟨m', hcall, ht⟩ := exists_of_toOption_eq (handleItem_ofNode item io) hitem
            refine ⟨[callOfItem io item], m', _, ?_, ht⟩
            rw [Transition.run_cons, hcall]
            rfl
  | timeChainLoop randomNumber currentTime io =>
      obtain ⟨m', hcall, ht⟩ :=
        exists_of_toOption_eq (runTimeChainLoop_ofNode randomNumber currentTime io) h
      refine ⟨[.produceTimeBlock randomNumber currentTime io], m', _, ?_, ht⟩
      rw [Transition.run_cons, hcall]
      rfl
  | valueChainLoop recipientPrivateKey randomNumber io =>
      obtain ⟨tx, htx, -⟩ := bind_eq_ok.mp h
      obtain ⟨m', hcalls, ht⟩ :=
        exists_of_toOption_eq (runValueChainLoop_ofNode (lift_eq_ok.mp htx) randomNumber io) h
      exact ⟨[.addTransaction tx, .produceValueBlock randomNumber io], m', _, hcalls, ht⟩

/-- **A dual node is the state machine**: what holds in every run of the machine holds of what a
dual node has stored, whatever it receives. -/
theorem exists_run_of_dual {as : List Action} {t : State} (hidle : m.Idle)
    (h : Transition.run (step H keys) as (ofNode incomingBuffers m) = some t) :
    ∃ bs m' buffers, Node.run H keys bs m = some m' ∧ t = ofNode buffers m' := by
  induction as generalizing m incomingBuffers with
  | nil =>
      cases h
      exact ⟨[], m, _, rfl, rfl⟩
  | cons a as ih =>
      obtain ⟨s, hs, h⟩ := Option.bind_eq_some_iff.mp h
      obtain ⟨cs, m', buffers, hcalls, rfl⟩ := exists_calls_of_act (toOption_eq_some hs)
      obtain ⟨hidle', bs, hfirst⟩ := exists_run_of_calls hidle hcalls
      obtain ⟨bs', m'', buffers', hrest, ht⟩ := ih hidle' h
      refine ⟨bs ++ bs', m'', buffers', ?_, ht⟩
      rw [Node.run, Transition.run_append, ← Node.run, hfirst]
      exact hrest

end Dual

end Roles

end CoinPlatform
