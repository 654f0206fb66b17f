/-
# A network of nodes

Several nodes run their loops at the same time and send each other messages.  `run_time_chain_loop`
broadcasts each block that its `produce_block` returns; `run_value_chain_loop` generates a
transaction, adds it to its own pool and broadcasts it, then calls `produce_block` and broadcasts
the block it returns.  A broadcast puts the message on every link of the node, and a link delivers
its messages in order, each when the network thread of the receiver is free.

The steps of all threads of all nodes interleave.  A node that has stopped is one that takes no
more steps.

* `Party.act`, `Party.generate`, `Party.handle`: the steps of one node, with its loops.
* `step`: the steps of the network.
* `project`: what a step of the network is for one of its nodes.
-/
import CoinPlatform.Messages
import CoinPlatform.NodeStep

open ByteOrder StdVector

namespace CoinPlatform

open Node

namespace MessageNetwork

/-! ## One node -/

/-- Where the value thread is in `run_value_chain_loop`. -/
inductive ValueThread where
  | generating
  | generated (tx : Transaction)
  | producing
  | produced (block : ValueBlock)
  deriving DecidableEq

/-- A node with its loops: what is between them and the network is the block that the time loop
has produced and not broadcast yet, and the place of the value thread. -/
structure Party where
  node : Node.State
  timeBlock : Option TimeBlock
  valueThread : ValueThread

/-- The thread that takes a step.  What starts a call of a handler, or adds a transaction, is not
a step of its own here. -/
inductive Thread where
  | time
  | value
  | network
  | call
  deriving DecidableEq

def threadOf : Node.Action → Thread
  | .produceTime _ _ => .time
  | .storeProducedTime _ => .time
  | .produceValue _ => .value
  | .gather => .value
  | .readLatestValue => .value
  | .readTime => .value
  | .readTimeHash => .value
  | .storeProducedValue _ => .value
  | .storeReceivedTime _ => .network
  | .checkValue => .network
  | .storeReceivedValue _ => .network
  | .purge => .network
  | .addTransaction _ => .call
  | .receiveTime _ => .call
  | .receiveValue _ => .call

/-- The block that `produce_block` of the time chain returns with this step. -/
def producedTime (a : Node.Action) (s : Node.State) : Option TimeBlock :=
  match a, s.timeLoop with
  | .storeProducedTime .ok, .storing block => some block
  | _, _ => none

/-- The block that `produce_block` of the value chain returns with this step. -/
def producedValue (a : Node.Action) (s : Node.State) : Option ValueBlock :=
  match a, s.valueLoop with
  | .storeProducedValue .ok, .storing block => some block
  | _, _ => none

/-- The value thread after a step of its `produce_block`, which has returned when the loop is
idle again. -/
def nextValueThread (a : Node.Action) (s t : Node.State) : ValueThread :=
  match t.valueLoop, producedValue a s with
  | .idle, some block => .produced block
  | .idle, none => .generating
  | _, _ => .producing

/-- The call that a message leads to. -/
def handler : Item → Node.Action
  | .timeBlock block => .receiveTime block
  | .valueBlock block => .receiveValue block
  | .transaction tx => .addTransaction tx

variable (H : Host) (keys : NodeKeys H)

/-- A step of a thread that is in a call. -/
def Party.act (a : Node.Action) (p : Party) : Option Party :=
  match threadOf a with
  | .time =>
    match p.timeBlock with
    | none => do
      let node ← Node.step H keys a p.node
      return { p with node := node, timeBlock := producedTime a p.node }
    | some _ => none
  | .value =>
    match p.valueThread with
    | .producing => do
      let node ← Node.step H keys a p.node
      return { p with node := node, valueThread := nextValueThread a p.node node }
    | _ => none
  | .network => do
    let node ← Node.step H keys a p.node
    return { p with node := node }
  | .call => none

/-- `generate_and_broadcast_transaction`, up to the broadcast. -/
def Party.generate (recipientPrivateKey : PrivateKey) (p : Party) : Option Party :=
  match p.valueThread with
  | .generating => do
    let tx ← (generateTransaction H keys recipientPrivateKey).toOption
    let node ← Node.step H keys (.addTransaction tx) p.node
    return { p with node := node, valueThread := .generated tx }
  | _ => none

/-- What the time loop broadcasts next, and the node after it. -/
def Party.broadcastTime (p : Party) : Option (Item × Party) :=
  match p.timeBlock with
  | some block => some (.timeBlock block, { p with timeBlock := none })
  | none => none

/-- What the value loop broadcasts next, and the node after it. -/
def Party.broadcastValue (p : Party) : Option (Item × Party) :=
  match p.valueThread with
  | .generated tx => some (.transaction tx, { p with valueThread := .producing })
  | .produced block => some (.valueBlock block, { p with valueThread := .generating })
  | _ => none

/-- `process_complete_message`, when the network thread is in no call: the handler takes its
first step. -/
def Party.handle (message : Bytes) (p : Party) : Option Party :=
  match p.node.network with
  | .idle => do
    let call ← (processCompleteMessage H.endian message).toOption
    match call with
    | none => return p
    | some item => do
      let node ← Node.step H keys (handler item) p.node
      return { p with node := node }
  | _ => none

/-- The node after `start`. -/
def Party.start (G : GenesisBlocks) : Option Party := do
  let node ← Node.start H G
  return ⟨node, none, .generating⟩

/-! ## The network -/

/-- The nodes, and the messages on the link from one to another, if there is one. -/
structure State (ι : Type) where
  parties : ι → Party
  links : ι → ι → Option (List Item)

/-- A session is put into the table of `i`; a thread of `i` takes a step, generates a transaction
or broadcasts; the network thread of `j` handles the next message from `i`. -/
inductive Action (ι : Type) where
  | connect (i j : ι)
  | act (i : ι) (a : Node.Action)
  | generate (i : ι) (recipientPrivateKey : PrivateKey)
  | broadcastTime (i : ι)
  | broadcastValue (i : ι)
  | deliver (i j : ι) (item : Item)
  deriving DecidableEq

variable {ι : Type} [DecidableEq ι] (keyOf : ι → NodeKeys H)

/-- The network with another state of one node. -/
def State.setParty (s : State ι) (i : ι) (p : Party) : State ι :=
  { s with parties := Function.update s.parties i p }

/-- The network with other messages on one link. -/
def State.setLink (s : State ι) (i j : ι) (items : List Item) : State ι :=
  { s with
    links := Function.update s.links i (Function.update (s.links i) j (some items)) }

/-- `broadcast_data`: the message comes to the end of every link of the node. -/
def State.broadcast (s : State ι) (i : ι) (item : Item) : State ι :=
  { s with
    links := Function.update s.links i fun j => (s.links i j).map fun items => items ++ [item] }

/-- One step; `none` when it is not possible, or when an exception ends the process. -/
def step (a : Action ι) (s : State ι) : Option (State ι) :=
  match a with
  | .connect i j =>
    if i = j then none
    else
      match s.links i j with
      | none => some (s.setLink i j [])
      | some _ => none
  | .act i a => do
    let p ← (s.parties i).act H (keyOf i) a
    return s.setParty i p
  | .generate i recipientPrivateKey => do
    let p ← (s.parties i).generate H (keyOf i) recipientPrivateKey
    return s.setParty i p
  | .broadcastTime i => do
    let (item, p) ← (s.parties i).broadcastTime
    return (s.setParty i p).broadcast i item
  | .broadcastValue i => do
    let (item, p) ← (s.parties i).broadcastValue
    return (s.setParty i p).broadcast i item
  | .deliver i j item =>
    match s.links i j with
    | some (front :: rest) =>
      if front = item then do
        let p ← (s.parties j).handle H (keyOf j) (item.body H.endian (keyOf i).publicKey)
        return (s.setParty j p).setLink i j rest
      else none
    | _ => none

/-- A run of the network. -/
abbrev run := Transition.run (step H keyOf)

/-- A run whose steps all meet a condition. -/
abbrev Along := Transition.Along (step H keyOf)

/-- All nodes have been started, and none is connected. -/
def start (G : GenesisBlocks) (ι : Type) : Option (State ι) := do
  let p ← Party.start H G
  return ⟨fun _ => p, fun _ _ => none⟩

/-! ## One node of the network -/

/-- The transaction that a step generates on the node. -/
def generated (i : ι) (a : Action ι) : List Transaction :=
  match a with
  | .generate i' recipientPrivateKey =>
    if i' = i then (generateTransaction H (keyOf i) recipientPrivateKey).toOption.toList else []
  | _ => []

/-- The transaction that a step takes from `i` to `j`. -/
def delivered (i j : ι) (a : Action ι) : List Transaction :=
  match a with
  | .deliver i' j' (.transaction tx) => if i' = i ∧ j' = j then [tx] else []
  | _ => []

/-- What a step of the network is for one of its nodes, when no block is accepted. -/
def project (j : ι) (a : Action ι) : List Node.Action :=
  match a with
  | .act i a => if i = j then [a] else []
  | .generate _ _ => (generated H keyOf j a).map .addTransaction
  | .deliver i _ _ => (delivered i j a).map .addTransaction
  | _ => []

/-! ## The ways a step can go -/

/-- The ways a step can go. -/
inductive Step (s : State ι) : Action ι → State ι → Prop
  | connect {i j} (hne : i ≠ j) (hlink : s.links i j = none) :
      Step s (.connect i j) (s.setLink i j [])
  | act {i a p} (h : (s.parties i).act H (keyOf i) a = some p) :
      Step s (.act i a) (s.setParty i p)
  | generate {i recipientPrivateKey p}
      (h : (s.parties i).generate H (keyOf i) recipientPrivateKey = some p) :
      Step s (.generate i recipientPrivateKey) (s.setParty i p)
  | broadcastTime {i item p} (h : (s.parties i).broadcastTime = some (item, p)) :
      Step s (.broadcastTime i) ((s.setParty i p).broadcast i item)
  | broadcastValue {i item p} (h : (s.parties i).broadcastValue = some (item, p)) :
      Step s (.broadcastValue i) ((s.setParty i p).broadcast i item)
  | deliver {i j item rest p} (hlink : s.links i j = some (item :: rest))
      (h : (s.parties j).handle H (keyOf j) (item.body H.endian (keyOf i).publicKey) = some p) :
      Step s (.deliver i j item) ((s.setParty j p).setLink i j rest)

section Cases

variable {H keys keyOf} {p q : Party} {item : Item} {i j : ι} {s t : State ι} {a : Action ι}

theorem links_setLink (s : State ι) (i j : ι) (items : List Item) (i' j' : ι) :
    (s.setLink i j items).links i' j'
      = if i' = i ∧ j' = j then some items else s.links i' j' := by
  unfold State.setLink
  by_cases hi : i' = i
  · subst hi
    by_cases hj : j' = j
    · subst hj
      simp
    · simp [hj]
  · simp [hi]

theorem links_broadcast (s : State ι) (i : ι) (item : Item) (i' j' : ι) :
    (s.broadcast i item).links i' j'
      = if i' = i then (s.links i' j').map (fun items => items ++ [item]) else s.links i' j' := by
  unfold State.broadcast
  by_cases hi : i' = i
  · subst hi
    simp
  · simp [hi]

/-- A step of a thread is one of the node, and starts no call. -/
theorem act_cases {a : Node.Action} (h : p.act H keys a = some q) :
    Node.step H keys a p.node = some q.node ∧ threadOf a ≠ .call ∧
      ((q.valueThread = p.valueThread) ∨
        (p.valueThread = .producing ∧ q.valueThread = nextValueThread a p.node q.node)) := by
  unfold Party.act at h
  split at h
  · rename_i hthread
    split at h
    · obtain ⟨node, hnode, h⟩ := Option.bind_eq_some_iff.mp h
      cases h
      exact ⟨hnode, by rw [hthread]; simp, .inl rfl⟩
    · cases h
  · rename_i hthread
    split at h
    · rename_i hproducing
      obtain ⟨node, hnode, h⟩ := Option.bind_eq_some_iff.mp h
      cases h
      exact ⟨hnode, by rw [hthread]; simp, .inr ⟨hproducing, rfl⟩⟩
    · cases h
  · rename_i hthread
    obtain ⟨node, hnode, h⟩ := Option.bind_eq_some_iff.mp h
    cases h
    exact ⟨hnode, by rw [hthread]; simp, .inl rfl⟩
  · cases h

/-- A transaction is generated at the top of the loop, and comes into the pool. -/
theorem generate_cases {recipientPrivateKey : PrivateKey}
    (h : p.generate H keys recipientPrivateKey = some q) :
    ∃ tx, p.valueThread = .generating ∧
      generateTransaction H keys recipientPrivateKey = .ok tx ∧
      Node.step H keys (.addTransaction tx) p.node = some q.node ∧
      q.valueThread = .generated tx := by
  unfold Party.generate at h
  split at h
  · rename_i hthread
    obtain ⟨tx, htx, h⟩ := Option.bind_eq_some_iff.mp h
    obtain ⟨node, hnode, h⟩ := Option.bind_eq_some_iff.mp h
    cases h
    exact ⟨tx, hthread, toOption_eq_some htx, hnode, rfl⟩
  · cases h

/-- The value loop broadcasts the transaction it has generated, or the block it has produced. -/
theorem broadcastValue_cases (h : p.broadcastValue = some (item, q)) :
    (∃ tx, p.valueThread = .generated tx ∧ item = .transaction tx ∧
        q = { p with valueThread := .producing }) ∨
      ∃ block, p.valueThread = .produced block ∧ item = .valueBlock block ∧
        q = { p with valueThread := .generating } := by
  unfold Party.broadcastValue at h
  split at h
  · rename_i tx hthread
    cases h
    exact .inl ⟨tx, hthread, rfl, rfl⟩
  · rename_i block hthread
    cases h
    exact .inr ⟨block, hthread, rfl, rfl⟩
  · cases h

theorem broadcastTime_cases (h : p.broadcastTime = some (item, q)) :
    ∃ block, p.timeBlock = some block ∧ item = .timeBlock block ∧
      q = { p with timeBlock := none } := by
  unfold Party.broadcastTime at h
  split at h
  · rename_i block hblock
    cases h
    exact ⟨block, hblock, rfl, rfl⟩
  · cases h

/-- A message is dropped, or its handler takes its first step. -/
theorem handle_cases {message : Bytes} (h : p.handle H keys message = some q) :
    p.node.network = .idle ∧ q.timeBlock = p.timeBlock ∧ q.valueThread = p.valueThread ∧
      ((processCompleteMessage H.endian message = .ok none ∧ q = p) ∨
        ∃ item, processCompleteMessage H.endian message = .ok (some item) ∧
          Node.step H keys (handler item) p.node = some q.node) := by
  unfold Party.handle at h
  split at h
  · rename_i hidle
    obtain ⟨call, hcall, h⟩ := Option.bind_eq_some_iff.mp h
    cases call with
    | none =>
        cases h
        exact ⟨hidle, rfl, rfl, .inl ⟨toOption_eq_some hcall, rfl⟩⟩
    | some item =>
        obtain ⟨node, hnode, h⟩ := Option.bind_eq_some_iff.mp h
        cases h
        exact ⟨hidle, rfl, rfl, .inr ⟨item, toOption_eq_some hcall, hnode⟩⟩
  · cases h

/-- **Every step is one of the listed ones.** -/
theorem step_cases (h : step H keyOf a s = some t) : Step H keyOf s a t := by
  cases a with
  | connect i j =>
      simp only [step] at h
      split at h
      · cases h
      · rename_i hne
        split at h
        · rename_i hlink
          cases h
          exact .connect hne hlink
        · cases h
  | act i a =>
      obtain ⟨p, hp, h⟩ := Option.bind_eq_some_iff.mp h
      cases h
      exact .act hp
  | generate i recipientPrivateKey =>
      obtain ⟨p, hp, h⟩ := Option.bind_eq_some_iff.mp h
      cases h
      exact .generate hp
  | broadcastTime i =>
      obtain ⟨⟨item, p⟩, hp, h⟩ := Option.bind_eq_some_iff.mp h
      cases h
      exact .broadcastTime hp
  | broadcastValue i =>
      obtain ⟨⟨item, p⟩, hp, h⟩ := Option.bind_eq_some_iff.mp h
      cases h
      exact .broadcastValue hp
  | deliver i j item =>
      simp only [step] at h
      split at h
      · rename_i front rest hlink
        split at h
        · rename_i hfront
          subst hfront
          obtain ⟨p, hp, h⟩ := Option.bind_eq_some_iff.mp h
          cases h
          exact .deliver hlink hp
        · cases h
      · cases h

/-- The listed steps are steps. -/
theorem step_of_cases (h : Step H keyOf s a t) : step H keyOf a s = some t := by
  cases h with
  | connect hne hlink => rw [step, if_neg hne, hlink]
  | act hact => rw [step, hact]; rfl
  | generate hgenerate => rw [step, hgenerate]; rfl
  | broadcastTime hbroadcast => rw [step, hbroadcast]; rfl
  | broadcastValue hbroadcast => rw [step, hbroadcast]; rfl
  | deliver hlink hhandle =>
      rw [step, hlink]
      simp only [if_true]
      rw [hhandle]
      rfl

end Cases

end MessageNetwork

end CoinPlatform
