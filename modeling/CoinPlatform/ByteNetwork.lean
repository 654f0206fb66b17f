/-
# The network, byte by byte

What the sessions carry are bytes.  A broadcast writes the frame of a message to every session of
the node.  The network thread of the receiver reads what has arrived, at most 1024 bytes at a time
and cut anywhere, appends it to the buffer of the sender, and goes through the loop of
`handle_incoming_data`, one message in each turn, until no complete message is left.  Each node has
an address of its own, and one session leads from a node to another.

* `step`: the steps of this network.
* `Carries`: the bytes on their way from one node to another, in the buffer and on the session,
  are the frames of the messages on the link.
* `carries_step`: each step is one of the message network, or none, while every frame has a
  length that survives the way.
* `carries_run`: so every run is matched by one of the message network.
-/
import CoinPlatform.AcceptableBlocks
import CoinPlatform.Chunking
import CoinPlatform.GenesisGenerator

open ByteOrder StdVector Simulation

namespace CoinPlatform

open Node MessageNetwork

namespace ByteNetwork

/-! ## The network -/

/-- The nodes; the bytes written to the session from one node to another and not read yet; the
buffer that a node keeps for a sender; and the sender whose data the network thread of a node is
going through. -/
structure State (ι : Type) where
  parties : ι → Party
  streams : ι → ι → Option Bytes
  incomingBuffers : ι → ι → Bytes
  reading : ι → Option ι

/-- The steps of a node are those of `MessageNetwork`; `j` reads `n` bytes from `i`, or goes
through its loop once. -/
inductive Action (ι : Type) where
  | connect (i j : ι)
  | act (i : ι) (a : Node.Action)
  | generate (i : ι) (recipientPrivateKey : PrivateKey)
  | broadcastTime (i : ι)
  | broadcastValue (i : ι)
  | read (i j : ι) (n : ℕ)
  | turn (j : ι)
  deriving DecidableEq

variable (H : Host) {ι : Type} [DecidableEq ι] (keyOf : ι → NodeKeys H)

def State.setParty (s : State ι) (i : ι) (p : Party) : State ι :=
  { s with parties := Function.update s.parties i p }

def State.setStream (s : State ι) (i j : ι) (bytes : Bytes) : State ι :=
  { s with
    streams := Function.update s.streams i (Function.update (s.streams i) j (some bytes)) }

/-- The buffer that `j` keeps for `i`. -/
def State.setBuffer (s : State ι) (i j : ι) (buffer : Bytes) : State ι :=
  { s with
    incomingBuffers := Function.update s.incomingBuffers j
      (Function.update (s.incomingBuffers j) i buffer) }

def State.setReading (s : State ι) (j : ι) (sender : Option ι) : State ι :=
  { s with reading := Function.update s.reading j sender }

/-- `broadcast_data`: the frame is written to every session of the node. -/
def State.broadcast (s : State ι) (i : ι) (frame : Bytes) : State ι :=
  { s with
    streams := Function.update s.streams i fun j =>
      (s.streams i j).map fun bytes => bytes ++ frame }

/-- The size of the buffer of one read. -/
def readSize : ℕ := 1024

/-- One step; `none` when it is not possible, or when an exception ends the process. -/
def step (a : Action ι) (s : State ι) : Option (State ι) :=
  match a with
  | .connect i j =>
    if i = j then none
    else
      match s.streams i j with
      | none => some (s.setStream i j [])
      | some _ => none
  | .act i a => do
    let p ← (s.parties i).act H (keyOf i) a
    return s.setParty i p
  | .generate i recipientPrivateKey => do
    let p ← (s.parties i).generate H (keyOf i) recipientPrivateKey
    return s.setParty i p
  | .broadcastTime i => do
    let (item, p) ← (s.parties i).broadcastTime
    return (s.setParty i p).broadcast i (item.frame H.endian (keyOf i).publicKey)
  | .broadcastValue i => do
    let (item, p) ← (s.parties i).broadcastValue
    return (s.setParty i p).broadcast i (item.frame H.endian (keyOf i).publicKey)
  | .read i j n =>
    match s.reading j, (s.parties j).node.network, s.streams i j with
    | none, .idle, some bytes =>
      if 1 ≤ n ∧ n ≤ readSize ∧ n ≤ bytes.length then
        let s := s.setBuffer i j (s.incomingBuffers j i ++ bytes.take n)
        some ((s.setStream i j (bytes.drop n)).setReading j (some i))
      else none
    | _, _, _ => none
  | .turn j =>
    match s.reading j, (s.parties j).node.network with
    | some i, .idle =>
      match nextMessage H.endian (s.incomingBuffers j i) with
      | .wait => some (s.setReading j none)
      | .fault _ => none
      | .message completeMessage rest => do
        let p ← (s.parties j).handle H (keyOf j) completeMessage
        return (s.setParty j p).setBuffer i j rest
    | _, _ => none

/-- A run of the network. -/
abbrev run := Transition.run (step H keyOf)

/-- A run whose steps all meet a condition. -/
abbrev Along := Transition.Along (step H keyOf)

/-- All nodes have been started, and none is connected. -/
def start (G : GenesisBlocks) (ι : Type) : Option (State ι) := do
  let p ← Party.start H G
  return ⟨fun _ => p, fun _ _ => none, fun _ _ => [], fun _ => none⟩

/-! ## Steps -/

/-- The ways a step can go. -/
inductive Step (s : State ι) : Action ι → State ι → Prop
  | connect {i j} (hne : i ≠ j) (hstream : s.streams i j = none) :
      Step s (.connect i j) (s.setStream i j [])
  | act {i a p} (h : (s.parties i).act H (keyOf i) a = some p) :
      Step s (.act i a) (s.setParty i p)
  | generate {i recipientPrivateKey p}
      (h : (s.parties i).generate H (keyOf i) recipientPrivateKey = some p) :
      Step s (.generate i recipientPrivateKey) (s.setParty i p)
  | broadcastTime {i item p} (h : (s.parties i).broadcastTime = some (item, p)) :
      Step s (.broadcastTime i)
        ((s.setParty i p).broadcast i (item.frame H.endian (keyOf i).publicKey))
  | broadcastValue {i item p} (h : (s.parties i).broadcastValue = some (item, p)) :
      Step s (.broadcastValue i)
        ((s.setParty i p).broadcast i (item.frame H.endian (keyOf i).publicKey))
  | read {i j n bytes} (hstream : s.streams i j = some bytes) (hn : n ≤ bytes.length) :
      Step s (.read i j n)
        (((s.setBuffer i j (s.incomingBuffers j i ++ bytes.take n)).setStream i j
          (bytes.drop n)).setReading j (some i))
  | wait {i j} (hreading : s.reading j = some i)
      (hnext : nextMessage H.endian (s.incomingBuffers j i) = .wait) :
      Step s (.turn j) (s.setReading j none)
  | message {i j completeMessage rest p} (hreading : s.reading j = some i)
      (hnext : nextMessage H.endian (s.incomingBuffers j i) = .message completeMessage rest)
      (h : (s.parties j).handle H (keyOf j) completeMessage = some p) :
      Step s (.turn j) ((s.setParty j p).setBuffer i j rest)

variable {H keyOf} {s t : State ι} {a : Action ι}

/-- **Every step is one of the listed ones.** -/
theorem step_cases (h : step H keyOf a s = some t) : Step H keyOf s a t := by
  cases a with
  | connect i j =>
      simp only [step] at h
      split at h
      · cases h
      · rename_i hne
        split at h
        · rename_i hstream
          cases h
          exact .connect hne hstream
        · cases h
  | act i a =>
      obtain ⟨p, hp, h⟩ := Option.bind_eq_some_iff.mp h
      cases h
      exact .act hp
  | generate i recipientPrivateKey =>
      obtain ⟨p, hp, h⟩ := Option.bind_eq_some_iff.mp h
      cases h
      exact .generate hp
  | broadcastTime i =>
      obtain ⟨⟨item, p⟩, hp, h⟩ := Option.bind_eq_some_iff.mp h
      cases h
      exact .broadcastTime hp
  | broadcastValue i =>
      obtain ⟨⟨item, p⟩, hp, h⟩ := Option.bind_eq_some_iff.mp h
      cases h
      exact .broadcastValue hp
  | read i j n =>
      simp only [step] at h
      split at h
      · rename_i bytes hreading hidle hstream
        split at h
        · rename_i hn
          cases h
          exact .read hstream hn.2.2
        · cases h
      · cases h
  | turn j =>
      simp only [step] at h
      split at h
      · rename_i i hreading hidle
        split at h
        · rename_i hnext
          cases h
          exact .wait hreading hnext
        · cases h
        · rename_i completeMessage rest hnext
          obtain ⟨p, hp, h⟩ := Option.bind_eq_some_iff.mp h
          cases h
          exact .message hreading hnext hp
      · cases h

/-! ## Frames -/

variable (H) in
/-- The length of the message survives the way, and with the four bytes in front it fits into 32
bits. -/
def Framed (publicKey : PublicKey) (item : Item) : Prop :=
  4 + (item.body H.endian publicKey).length < 2 ^ 32 ∧
    H.endian.ntohl (UInt32.ofNat (item.body H.endian publicKey).length)
      = UInt32.ofNat (item.body H.endian publicKey).length

variable (H) in
/-- The frames of some messages, one after the other. -/
def framesOf (publicKey : PublicKey) (items : List Item) : Bytes :=
  items.flatMap (Item.frame H.endian publicKey)

/-- Every message is framed in the same way. -/
theorem exists_frame (e : Endian) (publicKey : PublicKey) (item : Item) :
    ∃ messageType payload, item.frame e publicKey = frame e messageType payload ∧
      item.body e publicKey = messageType :: payload := by
  cases item with
  | timeBlock block => exact ⟨_, _, rfl, rfl⟩
  | valueBlock block => exact ⟨_, _, rfl, rfl⟩
  | transaction tx => exact ⟨_, _, rfl, rfl⟩

/-- The loop takes a framed message off the front. -/
theorem nextMessage_framed {publicKey : PublicKey} {item : Item}
    (h : Framed H publicKey item) (rest : Bytes) :
    nextMessage H.endian (item.frame H.endian publicKey ++ rest)
      = .message (item.body H.endian publicKey) rest := by
  obtain ⟨hlen, hsame⟩ := h
  obtain ⟨messageType, payload, hframe, hbody⟩ := exists_frame H.endian publicKey item
  have hlength : (messageType :: payload).length = 1 + payload.length := by
    rw [List.length_cons, Nat.add_comm]
  rw [hbody, hlength] at hlen hsame
  rw [hframe, hbody]
  exact nextMessage_frame rest (by omega) hsame

theorem nextMessage_nil (e : Endian) : nextMessage e [] = .wait :=
  nextMessage_eq_wait.mpr (.inl (by decide))

/-- **What the loop finds in a part of the frames** is the first of the messages. -/
theorem front_of_nextMessage {publicKey : PublicKey} {items : List Item}
    {buffer bytes completeMessage rest : Bytes}
    (hframed : ∀ item ∈ items, Framed H publicKey item)
    (hbytes : buffer ++ bytes = framesOf H publicKey items)
    (hnext : nextMessage H.endian buffer = .message completeMessage rest) :
    ∃ item items', items = item :: items' ∧ completeMessage = item.body H.endian publicKey ∧
      rest ++ bytes = framesOf H publicKey items' := by
  -- the message is found as well when all the frames are there
  obtain ⟨c, -, rfl, hagain⟩ := exists_eq_append_of_nextMessage hnext
  have hall := hagain (rest ++ bytes)
  rw [← List.append_assoc, hbytes] at hall
  cases items with
  | nil =>
      rw [framesOf, List.flatMap_nil, nextMessage_nil] at hall
      cases hall
  | cons item items' =>
      rw [framesOf, List.flatMap_cons,
        nextMessage_framed (hframed item List.mem_cons_self)] at hall
      obtain ⟨hbody, htail⟩ := NextMessage.message.inj hall
      exact ⟨item, items', rfl, hbody.symm, htail.symm⟩

/-! ## The bytes carry the messages -/

/-- The nodes are the same, and the bytes on their way, in the buffer and on the session, are the
frames of the messages on the link. -/
structure Carries (H : Host) (keyOf : ι → NodeKeys H) (s : State ι)
    (m : MessageNetwork.State ι) : Prop where
  parties : m.parties = s.parties
  links : ∀ i j, (s.streams i j).map (fun bytes => s.incomingBuffers j i ++ bytes)
    = (m.links i j).map (framesOf H (keyOf i).publicKey)
  fresh : ∀ i j, s.streams i j = none → s.incomingBuffers j i = []
  framed : ∀ i j items, m.links i j = some items → ∀ item ∈ items,
    Framed H (keyOf i).publicKey item

theorem streams_setStream (s : State ι) (i j : ι) (bytes : Bytes) (i' j' : ι) :
    (s.setStream i j bytes).streams i' j'
      = if i' = i ∧ j' = j then some bytes else s.streams i' j' := by
  unfold State.setStream
  by_cases hi : i' = i
  · subst hi
    by_cases hj : j' = j
    · subst hj
      simp
    · simp [hj]
  · simp [hi]

theorem incomingBuffers_setBuffer (s : State ι) (i j : ι) (buffer : Bytes) (i' j' : ι) :
    (s.setBuffer i j buffer).incomingBuffers j' i'
      = if i' = i ∧ j' = j then buffer else s.incomingBuffers j' i' := by
  unfold State.setBuffer
  by_cases hj : j' = j
  · subst hj
    by_cases hi : i' = i
    · subst hi
      simp
    · simp [hi]
  · simp [hj]

theorem streams_broadcast (s : State ι) (i : ι) (frame : Bytes) (i' j' : ι) :
    (s.broadcast i frame).streams i' j'
      = if i' = i then (s.streams i' j').map (fun bytes => bytes ++ frame)
        else s.streams i' j' := by
  unfold State.broadcast
  by_cases hi : i' = i
  · subst hi
    simp
  · simp [hi]

variable {m : MessageNetwork.State ι}

omit [DecidableEq ι] in
/-- A session and its link exist together. -/
theorem Carries.links_eq_none (h : Carries H keyOf s m) {i j : ι} (hstream : s.streams i j = none) :
    m.links i j = none := by
  have hlink := h.links i j
  rw [hstream, Option.map_none] at hlink
  exact Option.map_eq_none_iff.mp hlink.symm

omit [DecidableEq ι] in
theorem Carries.exists_link (h : Carries H keyOf s m) {i j : ι} {bytes : Bytes}
    (hstream : s.streams i j = some bytes) :
    ∃ items, m.links i j = some items ∧
      s.incomingBuffers j i ++ bytes = framesOf H (keyOf i).publicKey items := by
  have hlink := h.links i j
  rw [hstream, Option.map_some] at hlink
  obtain ⟨items, hitems, heq⟩ := Option.map_eq_some_iff.mp hlink.symm
  exact ⟨items, hitems, heq.symm⟩

/-- A step of a node alone. -/
theorem Carries.setParty (h : Carries H keyOf s m) (i : ι) (p : Party) :
    Carries H keyOf (s.setParty i p) (m.setParty i p) where
  parties := by
    unfold State.setParty MessageNetwork.State.setParty
    rw [h.parties]
  links := h.links
  fresh := h.fresh
  framed := h.framed

theorem Carries.connect (h : Carries H keyOf s m) {i j : ι} (hstream : s.streams i j = none) :
    Carries H keyOf (s.setStream i j []) (m.setLink i j []) where
  parties := h.parties
  links := by
    intro i' j'
    rw [streams_setStream, links_setLink]
    by_cases hsame : i' = i ∧ j' = j
    · obtain ⟨rfl, rfl⟩ := hsame
      rw [if_pos ⟨rfl, rfl⟩, if_pos ⟨rfl, rfl⟩, Option.map_some, Option.map_some]
      change some (s.incomingBuffers j' i' ++ []) = _
      rw [h.fresh i' j' hstream]
      rfl
    · rw [if_neg hsame, if_neg hsame]
      exact h.links i' j'
  fresh := by
    intro i' j' hnone
    rw [streams_setStream] at hnone
    split at hnone
    · cases hnone
    · exact h.fresh i' j' hnone
  framed := by
    intro i' j' items hitems item hmem
    rw [links_setLink] at hitems
    split at hitems
    · obtain rfl := Option.some.inj hitems
      cases hmem
    · exact h.framed i' j' items hitems item hmem

/-- A broadcast of a message whose length survives. -/
theorem Carries.broadcast (h : Carries H keyOf s m) {i : ι} {item : Item}
    (hitem : Framed H (keyOf i).publicKey item) :
    Carries H keyOf (s.broadcast i (item.frame H.endian (keyOf i).publicKey))
      (m.broadcast i item) where
  parties := h.parties
  links := by
    intro i' j'
    rw [streams_broadcast, links_broadcast]
    by_cases hi : i' = i
    · subst hi
      rw [if_pos rfl, if_pos rfl]
      cases hstream : s.streams i' j' with
      | none =>
          rw [h.links_eq_none hstream]
          rfl
      | some bytes =>
          obtain ⟨items, hitems, hbytes⟩ := h.exists_link hstream
          rw [hitems]
          simp only [Option.map_some, Option.some.injEq, framesOf, List.flatMap_append,
            List.flatMap_singleton]
          change s.incomingBuffers j' i' ++ (bytes ++ _) = _
          rw [← List.append_assoc, hbytes]
          rfl
    · rw [if_neg hi, if_neg hi]
      exact h.links i' j'
  fresh := by
    intro i' j' hnone
    rw [streams_broadcast] at hnone
    split at hnone
    · exact h.fresh i' j' (Option.map_eq_none_iff.mp hnone)
    · exact h.fresh i' j' hnone
  framed := by
    intro i' j' items hitems item' hmem
    rcases mem_links_broadcast hitems hmem with ⟨rfl, rfl⟩ | ⟨before, hbefore, hmem⟩
    · exact hitem
    · exact h.framed i' j' before hbefore item' hmem

/-- Reading moves bytes from the session into the buffer. -/
theorem Carries.read (h : Carries H keyOf s m) {i j : ι} {n : ℕ} {bytes : Bytes}
    (hstream : s.streams i j = some bytes) :
    Carries H keyOf
      (((s.setBuffer i j (s.incomingBuffers j i ++ bytes.take n)).setStream i j
        (bytes.drop n)).setReading j (some i)) m where
  parties := h.parties
  links := by
    intro i' j'
    change Option.map (fun b => (s.setBuffer i j _).incomingBuffers j' i' ++ b)
      (((s.setBuffer i j _).setStream i j (bytes.drop n)).streams i' j') = _
    rw [streams_setStream, incomingBuffers_setBuffer]
    by_cases hsame : i' = i ∧ j' = j
    · obtain ⟨rfl, rfl⟩ := hsame
      rw [if_pos ⟨rfl, rfl⟩, if_pos ⟨rfl, rfl⟩, ← h.links i' j', hstream, Option.map_some,
        Option.map_some, List.append_assoc, List.take_append_drop]
    · rw [if_neg hsame, if_neg hsame]
      exact h.links i' j'
  fresh := by
    intro i' j' hnone
    change ((s.setBuffer i j _).setStream i j (bytes.drop n)).streams i' j' = none at hnone
    change (s.setBuffer i j _).incomingBuffers j' i' = []
    rw [streams_setStream] at hnone
    rw [incomingBuffers_setBuffer]
    split at hnone
    · cases hnone
    · rename_i hsame
      rw [if_neg hsame]
      exact h.fresh i' j' hnone
  framed := h.framed

/-- A message that has been taken off the buffer is taken off the link. -/
theorem Carries.deliver (h : Carries H keyOf s m) {i j : ι} {item : Item} {items : List Item}
    {bytes rest : Bytes} (hstream : s.streams i j = some bytes)
    (hlink : m.links i j = some (item :: items))
    (hrest : rest ++ bytes = framesOf H (keyOf i).publicKey items) :
    Carries H keyOf (s.setBuffer i j rest) (m.setLink i j items) where
  parties := h.parties
  links := by
    intro i' j'
    change Option.map (fun b => (s.setBuffer i j rest).incomingBuffers j' i' ++ b)
      (s.streams i' j') = _
    rw [incomingBuffers_setBuffer, links_setLink]
    by_cases hsame : i' = i ∧ j' = j
    · obtain ⟨rfl, rfl⟩ := hsame
      rw [if_pos ⟨rfl, rfl⟩, if_pos ⟨rfl, rfl⟩, hstream, Option.map_some, Option.map_some, hrest]
    · rw [if_neg hsame, if_neg hsame]
      exact h.links i' j'
  fresh := by
    intro i' j' hnone
    change s.streams i' j' = none at hnone
    rw [incomingBuffers_setBuffer]
    split
    · rename_i hsame
      rw [hsame.1, hsame.2, hstream] at hnone
      cases hnone
    · exact h.fresh i' j' hnone
  framed := by
    intro i' j' items' hitems item' hmem
    rw [links_setLink] at hitems
    split at hitems
    · rename_i hsame
      obtain ⟨rfl, rfl⟩ := hsame
      obtain rfl := Option.some.inj hitems
      exact h.framed i' j' _ hlink item' (List.mem_cons_of_mem _ hmem)
    · exact h.framed i' j' items' hitems item' hmem

/-! ## Matching steps -/

variable (H keyOf) in
/-- The length of every message that is broadcast survives the way. -/
def Framing (s : State ι) (a : Action ι) : Prop :=
  match a with
  | .broadcastTime i => ∀ x ∈ (s.parties i).broadcastTime, Framed H (keyOf i).publicKey x.1
  | .broadcastValue i => ∀ x ∈ (s.parties i).broadcastValue, Framed H (keyOf i).publicKey x.1
  | _ => True

/-- The message that a turn finds. -/
def message? : NextMessage → Option Bytes
  | .message completeMessage _ => some completeMessage
  | _ => none

variable (H) in
/-- No file operation of a store fails, and no reference of a received value block is found. -/
def UndisturbedBytes (s : State ι) (a : Action ι) : Prop :=
  match a with
  | .act i a => Solo (s.parties i).node a
  | .turn j => ∀ i ∈ s.reading j,
    ∀ completeMessage ∈ message? (nextMessage H.endian (s.incomingBuffers j i)),
      RefersToNone H (s.parties j).node.timeStorage completeMessage
  | _ => True

/-- No node broadcasts a transaction before it has a session with every other node. -/
def ConnectedBytes (s : State ι) (a : Action ι) : Prop :=
  match a with
  | .broadcastValue i => ∀ j, j ≠ i → (s.streams i j).isSome
  | _ => True

variable (H keyOf) in
/-- The transaction that a step generates on the node. -/
def generated (i : ι) (a : Action ι) : List Transaction :=
  match a with
  | .generate i' recipientPrivateKey =>
    MessageNetwork.generated H keyOf i (.generate i' recipientPrivateKey)
  | _ => []

/-- The steps of the message network that match a step: they end where the bytes still carry the
messages, generate the same, and meet the conditions that the step meets. -/
structure Matched (H : Host) (keyOf : ι → NodeKeys H) (s t : State ι) (a : Action ι)
    (m m' : MessageNetwork.State ι) (as : List (MessageNetwork.Action ι)) : Prop where
  run : MessageNetwork.run H keyOf as m = some m'
  carries : Carries H keyOf t m'
  generated : ∀ i, as.flatMap (MessageNetwork.generated H keyOf i) = generated H keyOf i a
  undisturbed : UndisturbedBytes H s a →
    MessageNetwork.Along H keyOf (Undisturbed H keyOf) as m
  connected : ConnectedBytes s a → MessageNetwork.Along H keyOf Connected as m

/-- A step that the message network does not see. -/
theorem matched_nil (h : Carries H keyOf t m) (hgenerated : ∀ i, generated H keyOf i a = []) :
    Matched H keyOf s t a m m [] where
  run := rfl
  carries := h
  generated := fun i => (hgenerated i).symm
  undisturbed := fun _ => trivial
  connected := fun _ => trivial

/-- A step that is one of the message network. -/
theorem matched_one {m' : MessageNetwork.State ι} {x : MessageNetwork.Action ι}
    (hstep : MessageNetwork.Step H keyOf m x m') (h : Carries H keyOf t m')
    (hgenerated : ∀ i, MessageNetwork.generated H keyOf i x = generated H keyOf i a)
    (hundisturbed : UndisturbedBytes H s a → Undisturbed H keyOf m x)
    (hconnected : ConnectedBytes s a → Connected m x) :
    Matched H keyOf s t a m m' [x] where
  run := by
    rw [MessageNetwork.run, Transition.run_cons, MessageNetwork.step_of_cases hstep]
    rfl
  carries := h
  generated := by
    intro i
    rw [List.flatMap_singleton]
    exact hgenerated i
  undisturbed := fun hs => ⟨hundisturbed hs, fun _ _ => trivial⟩
  connected := fun hs => ⟨hconnected hs, fun _ _ => trivial⟩

/-- **Every step is a step of the message network, or none.** -/
theorem carries_step (h : Carries H keyOf s m) (hframing : Framing H keyOf s a)
    (hstep : step H keyOf a s = some t) : ∃ as m', Matched H keyOf s t a m m' as := by
  cases step_cases hstep with
  | @connect i j hne hstream =>
      exact ⟨_, _, matched_one (.connect hne (h.links_eq_none hstream)) (h.connect hstream)
        (fun _ => rfl) (fun _ => trivial) (fun _ => trivial)⟩
  | @act i a p hact =>
      rw [← h.parties] at hact
      refine ⟨_, _, matched_one (.act hact) (h.setParty i p) (fun _ => rfl) (fun hs => ?_)
        (fun _ => trivial)⟩
      rw [Undisturbed, h.parties]
      exact hs
  | @generate i recipientPrivateKey p hgenerate =>
      rw [← h.parties] at hgenerate
      exact ⟨_, _, matched_one (.generate hgenerate) (h.setParty i p) (fun _ => rfl)
        (fun _ => trivial) (fun _ => trivial)⟩
  | @broadcastTime i item p hbroadcast =>
      have hitem : Framed H (keyOf i).publicKey item := hframing _ hbroadcast
      rw [← h.parties] at hbroadcast
      exact ⟨_, _, matched_one (.broadcastTime hbroadcast) ((h.setParty i p).broadcast hitem)
        (fun _ => rfl) (fun _ => trivial) (fun _ => trivial)⟩
  | @broadcastValue i item p hbroadcast =>
      have hitem : Framed H (keyOf i).publicKey item := hframing _ hbroadcast
      rw [← h.parties] at hbroadcast
      refine ⟨_, _, matched_one (.broadcastValue hbroadcast) ((h.setParty i p).broadcast hitem)
        (fun _ => rfl) (fun _ => trivial) (fun hs j hj => ?_)⟩
      obtain ⟨bytes, hstream⟩ := Option.isSome_iff_exists.mp (hs j hj)
      obtain ⟨items, hlink, -⟩ := h.exists_link hstream
      rw [hlink]
      rfl
  | read hstream hn => exact ⟨[], m, matched_nil (h.read hstream) (fun _ => rfl)⟩
  | wait hreading hnext =>
      exact ⟨[], m, matched_nil ⟨h.parties, h.links, h.fresh, h.framed⟩ (fun _ => rfl)⟩
  | @message i j completeMessage rest p hreading hnext hhandle =>
      cases hstream : s.streams i j with
      | none =>
          -- the buffer of a sender without a session is empty
          rw [h.fresh i j hstream, nextMessage_nil] at hnext
          cases hnext
      | some bytes =>
          obtain ⟨items, hlink, hbytes⟩ := h.exists_link hstream
          obtain ⟨item, items', rfl, rfl, hrest⟩ :=
            front_of_nextMessage (h.framed i j items hlink) hbytes hnext
          have hcarries := (h.setParty j p).deliver hstream hlink hrest
          rw [← h.parties] at hhandle
          refine ⟨_, _, matched_one (.deliver hlink hhandle) hcarries (fun _ => rfl)
            (fun hs => ?_) (fun _ => trivial)⟩
          rw [Undisturbed, h.parties]
          exact hs i hreading _ (by rw [hnext]; rfl)

/-! ## Every run -/

variable (keyOf) in
omit [DecidableEq ι] in
theorem carries_of_start {G : GenesisBlocks} {s₀ : State ι} (hstart : start H G ι = some s₀) :
    ∃ m₀, MessageNetwork.start H G ι = some m₀ ∧ Carries H keyOf s₀ m₀ := by
  obtain ⟨p, hp, h⟩ := Option.bind_eq_some_iff.mp hstart
  cases h
  refine ⟨⟨fun _ => p, fun _ _ => none⟩, ?_, ⟨rfl, fun _ _ => rfl, fun _ _ _ => rfl, ?_⟩⟩
  · rw [MessageNetwork.start, hp]
    rfl
  · intro i j items hitems
    cases hitems

/-- A run and what it generates on each node. -/
def SameGenerated (H : Host) (keyOf : ι → NodeKeys H) (a : Action ι)
    (as : List (MessageNetwork.Action ι)) : Prop :=
  ∀ i, as.flatMap (MessageNetwork.generated H keyOf i) = generated H keyOf i a

theorem generatedBy_of_forall₂ {as : List (Action ι)}
    {ass : List (List (MessageNetwork.Action ι))}
    (h : List.Forall₂ (SameGenerated H keyOf) as ass) (i : ι) :
    generatedBy H keyOf i ass.flatten = as.flatMap (generated H keyOf i) :=
  flatMap_flatten_of_forall₂ (fun _ _ hsame => hsame i) h

/-- Every run whose steps have framed messages is matched by a run of the message network, which
meets the conditions that the matching steps meet. -/
theorem matched_run {C : State ι → Action ι → Prop}
    {D : MessageNetwork.State ι → MessageNetwork.Action ι → Prop}
    (hC : ∀ s a, C s a → Framing H keyOf s a)
    (hD : ∀ s t a m m' as, C s a → Matched H keyOf s t a m m' as →
      MessageNetwork.Along H keyOf D as m)
    {G : GenesisBlocks} {as : List (Action ι)} {s₀ : State ι} (hstart : start H G ι = some s₀)
    (hrun : run H keyOf as s₀ = some s) (halong : Along H keyOf C as s₀) :
    ∃ m₀ as' m, MessageNetwork.start H G ι = some m₀ ∧
      MessageNetwork.run H keyOf as' m₀ = some m ∧ MessageNetwork.Along H keyOf D as' m₀ ∧
      Carries H keyOf s m ∧ ∀ i, generatedBy H keyOf i as' = as.flatMap (generated H keyOf i) := by
  obtain ⟨m₀, hm₀, hcarries⟩ := carries_of_start keyOf hstart
  have hsim : Simulated (step H keyOf) (MessageNetwork.step H keyOf) C D (Carries H keyOf)
      (SameGenerated H keyOf) := by
    intro s a t m hs ha hstep
    obtain ⟨as', m', hmatch⟩ := carries_step hs (hC s a ha) hstep
    exact ⟨as', m', hmatch.generated, hmatch.run, hD s t a m m' as' ha hmatch, hmatch.carries⟩
  obtain ⟨ass, m, hsame, hrun', halong', hend⟩ := hsim.run hrun halong hcarries
  exact ⟨m₀, ass.flatten, m, hm₀, hrun', halong', hend, generatedBy_of_forall₂ hsame⟩

variable (H keyOf) in
/-- The lengths survive, no file operation of a store fails, and no reference of a received value
block is found. -/
def Working (s : State ι) (a : Action ι) : Prop :=
  Framing H keyOf s a ∧ UndisturbedBytes H s a

/-- No byte is on its way, and no transaction is about to be broadcast. -/
def QuietBytes (s : State ι) : Prop :=
  (∀ i j, s.incomingBuffers j i ++ (s.streams i j).getD [] = []) ∧
    ∀ i, aboutToSend (s.parties i) = []

/-! ## A sample run -/

instance decidableFramed (publicKey : PublicKey) (item : Item) :
    Decidable (Framed H publicKey item) := by
  unfold Framed
  infer_instance

instance decidableFraming (s : State ι) (a : Action ι) : Decidable (Framing H keyOf s a) := by
  apply Action.casesOn (motive := fun a => Decidable (Framing H keyOf s a)) a <;> intros <;>
    dsimp only [Framing] <;> infer_instance

instance decidableUndisturbedBytes (s : State ι) (a : Action ι) :
    Decidable (UndisturbedBytes H s a) := by
  apply Action.casesOn (motive := fun a => Decidable (UndisturbedBytes H s a)) a <;> intros <;>
    dsimp only [UndisturbedBytes] <;> infer_instance

instance decidableWorking (s : State ι) (a : Action ι) : Decidable (Working H keyOf s a) := by
  unfold Working
  infer_instance

instance decidableConnectedBytes [Fintype ι] (s : State ι) (a : Action ι) :
    Decidable (ConnectedBytes s a) := by
  apply Action.casesOn (motive := fun a => Decidable (ConnectedBytes s a)) a <;> intros <;>
    dsimp only [ConnectedBytes] <;> infer_instance

instance decidableQuietBytes [Fintype ι] (s : State ι) : Decidable (QuietBytes s) := by
  unfold QuietBytes
  infer_instance

/-- The sample host with its bytes the other way round. -/
def bigTagHost : Host := { tagHost with endian := .big }

/-- Keys of two nodes on that host. -/
def bothKeys (i : Bool) : NodeKeys bigTagHost :=
  if i then ⟨List.Vector.replicate 32 1, List.Vector.replicate 32 1, by decide⟩
  else ⟨List.Vector.replicate 32 3, List.Vector.replicate 32 3, by decide⟩

/-- What the genesis generator makes there. -/
def bigTagGenesis : GenesisBlocks :=
  match GenesisGenerator.generate bigTagHost (bothKeys true).privateKey with
  | .ok (timeGenesis, valueGenesis) =>
    GenesisGenerator.genesisBlocks bigTagHost timeGenesis valueGenesis
  | .error _ => shippedGenesis

/-- Each of two connected nodes generates a transaction, and one of them a time block and a value
block; the reads cut the frames. -/
def sampleSteps : List (Action Bool) :=
  [.connect true false, .connect false true,
    .generate true (List.Vector.replicate 32 2), .broadcastValue true,
    .act true (.produceTime 0 7), .act true (.storeProducedTime .ok), .broadcastTime true,
    .read true false 100, .turn false,
    .generate false (List.Vector.replicate 32 2), .broadcastValue false,
    .read true false 200, .turn false, .turn false] ++
    (produceValueSteps .ok).map (.act true) ++
    [.broadcastValue true, .read false true 181, .turn true, .turn true,
      .read true false 699, .turn false, .turn false, .turn false]

/-- The run is possible, works, and ends when all has been delivered. -/
theorem exists_sample_run :
    ∃ s₀ s, start bigTagHost bigTagGenesis Bool = some s₀ ∧
      run bigTagHost bothKeys sampleSteps s₀ = some s ∧
      Along bigTagHost bothKeys (Working bigTagHost bothKeys) sampleSteps s₀ ∧
      Along bigTagHost bothKeys ConnectedBytes sampleSteps s₀ ∧ QuietBytes s := by
  have hsample : (start bigTagHost bigTagGenesis Bool).any (fun s₀ =>
      (run bigTagHost bothKeys sampleSteps s₀).any (fun s => decide (QuietBytes s)) &&
        (decide (Along bigTagHost bothKeys (Working bigTagHost bothKeys) sampleSteps s₀) &&
          decide (Along bigTagHost bothKeys ConnectedBytes sampleSteps s₀))) = true := by
    decide +kernel
  obtain ⟨s₀, hstart, hsample⟩ := (Option.any_eq_true _ _).mp hsample
  obtain ⟨hrun, halong⟩ := (Bool.and_eq_true _ _).mp hsample
  obtain ⟨hworking, hconnected⟩ := (Bool.and_eq_true _ _).mp halong
  obtain ⟨s, hs, hquiet⟩ := (Option.any_eq_true _ _).mp hrun
  exact ⟨s₀, s, hstart, hs, of_decide_eq_true hworking, of_decide_eq_true hconnected,
    of_decide_eq_true hquiet⟩

/-! ## The refinement -/

theorem working_run {G : GenesisBlocks} {as : List (Action ι)} {s₀ : State ι}
    (hstart : start H G ι = some s₀) (hrun : run H keyOf as s₀ = some s)
    (hworking : Along H keyOf (Working H keyOf) as s₀) :
    ∃ m₀ as' m, MessageNetwork.start H G ι = some m₀ ∧
      MessageNetwork.run H keyOf as' m₀ = some m ∧
      MessageNetwork.Along H keyOf (Undisturbed H keyOf) as' m₀ ∧ Carries H keyOf s m ∧
      ∀ i, generatedBy H keyOf i as' = as.flatMap (generated H keyOf i) :=
  matched_run (fun _ _ h => h.1) (fun _ _ _ _ _ _ h hmatch => hmatch.undisturbed h.2) hstart hrun
    hworking

/-- **The nodes never agree on a block.**  In every working run each node holds linear chains of
its own blocks, whatever has been sent and delivered, and two nodes with different keys have no
block in common but genesis. -/
theorem nothingInCommon_run {G : GenesisBlocks} {as : List (Action ι)} {s₀ : State ι}
    (hstart : start H G ι = some s₀) (hrun : run H keyOf as s₀ = some s)
    (hworking : Along H keyOf (Working H keyOf) as s₀) :
    (∀ j, LinearChains H G (keyOf j) (s.parties j).node) ∧
      ∀ i j, (keyOf i).publicKey ≠ (keyOf j).publicKey →
        OnlyGenesisInCommon H G (s.parties i).node (s.parties j).node := by
  obtain ⟨m₀, as', m, hm₀, hrun', halong, hcarries, -⟩ := working_run hstart hrun hworking
  rw [← hcarries.parties]
  exact ⟨fun j => (holdsInOrder_network hm₀ hrun' halong j).linearChains,
    fun i j hne => onlyGenesisInCommon_of_run hm₀ hrun' halong hne⟩

theorem nothingInCommon_run_sample :
    ∃ s₀ s, start bigTagHost bigTagGenesis Bool = some s₀ ∧
      run bigTagHost bothKeys sampleSteps s₀ = some s ∧
      OnlyGenesisInCommon bigTagHost bigTagGenesis (s.parties true).node
        (s.parties false).node := by
  obtain ⟨s₀, s, hstart, hrun, hworking, -, -⟩ := exists_sample_run
  exact ⟨s₀, s, hstart, hrun,
    (nothingInCommon_run hstart hrun hworking).2 true false (by decide)⟩

/-- **Every stored block would be accepted.**  In every working run the pools hold valid
transactions only, and every value block in a store is genesis or passes the checks of every node
that has its time block and whose time has come. -/
theorem acceptable_run (hH : H.secp256k1.Correct) {G : GenesisBlocks} {as : List (Action ι)}
    {s₀ : State ι} (hstart : start H G ι = some s₀) (hrun : run H keyOf as s₀ = some s)
    (hworking : Along H keyOf (Working H keyOf) as s₀) (j : ι) :
    (∀ tx ∈ (s.parties j).node.transactionPool, tx.verify H = true) ∧
      ∀ block, (s.parties j).node.valueStorage.Readable H.endian block →
        G.IsValueGenesis H.endian block ∨ Acceptable H block := by
  obtain ⟨m₀, as', m, hm₀, hrun', halong, hcarries, -⟩ := working_run hstart hrun hworking
  rw [← hcarries.parties]
  exact acceptable_of_run hH hm₀ hrun' halong j

theorem acceptable_run_sample :
    ∃ s₀ s, start bigTagHost bigTagGenesis Bool = some s₀ ∧
      run bigTagHost bothKeys sampleSteps s₀ = some s ∧
      ((∀ tx ∈ (s.parties true).node.transactionPool, tx.verify bigTagHost = true) ∧
        ∀ block, (s.parties true).node.valueStorage.Readable bigTagHost.endian block →
          bigTagGenesis.IsValueGenesis bigTagHost.endian block ∨ Acceptable bigTagHost block) := by
  obtain ⟨s₀, s, hstart, hrun, hworking, -, -⟩ := exists_sample_run
  exact ⟨s₀, s, hstart, hrun, acceptable_run tagSecp256k1_correct hstart hrun hworking true⟩

end ByteNetwork

end CoinPlatform
