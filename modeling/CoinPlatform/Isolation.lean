/-
# Nodes in isolation

What becomes of the blocks that the nodes of a network send each other: the payload of a block
starts with the public key of its sender, and a receiver decodes it from its first byte.  A time
block then has the wrong size.  A value block may be decoded as another one, but what the receiver
takes for the name of its time block is the hash of the previous value block
(`refersToNone_of_previousHash`).

* `isolated`: so a node of the network does exactly what it would do on its own with the same
  transactions: its steps are those of `project`.
* `holdsInOrder_network`: each node holds linear chains of its own blocks, and the transactions
  that came to it.
* `onlyGenesisInCommon_of_run`: two nodes have no block in common but genesis.
-/
import CoinPlatform.MessageNetwork
import CoinPlatform.Simulation
import CoinPlatform.SoloChains

open ByteOrder StdVector Simulation

namespace CoinPlatform

open Node

namespace MessageNetwork

variable (H : Host) {ι : Type} [DecidableEq ι] (keyOf : ι → NodeKeys H)

/-! ## Messages -/

/-- The receiver of the message has no time block under the reference of the value block that it
decodes, if it decodes one. -/
def RefersToNone (timeStorage : FileStorage TimeBlock) (message : Bytes) : Prop :=
  ∀ block, processCompleteMessage H.endian message = .ok (some (.valueBlock block)) →
    timeStorage.blockExists block.timeBlockHash = false

/-- No file operation of a store fails, and no reference of a received value block is found. -/
def Undisturbed (s : State ι) (a : Action ι) : Prop :=
  match a with
  | .act i a => Solo (s.parties i).node a
  | .deliver i j item =>
    RefersToNone H (s.parties j).node.timeStorage (item.body H.endian (keyOf i).publicKey)
  | _ => True

instance decidableRefersToNone (timeStorage : FileStorage TimeBlock) (message : Bytes) :
    Decidable (RefersToNone H timeStorage message) :=
  match h : processCompleteMessage H.endian message with
  | .ok (some (.valueBlock block)) =>
    decidable_of_iff (timeStorage.blockExists block.timeBlockHash = false)
      (by simp [RefersToNone, h])
  | .ok (some (.timeBlock _)) => isTrue (by simp [RefersToNone, h])
  | .ok (some (.transaction _)) => isTrue (by simp [RefersToNone, h])
  | .ok none => isTrue (by simp [RefersToNone, h])
  | .error _ => isTrue (by simp [RefersToNone, h])

variable {H keyOf}

/-- No payload of a time block is decoded. -/
theorem not_called_timeBlock {e : Endian} (publicKey : PublicKey) (block : TimeBlock)
    (item : Item) :
    processCompleteMessage e ((Item.timeBlock block).body e publicKey) ≠ .ok (some item) := by
  intro h
  obtain ⟨b, hb, -⟩ := callOn_eq_some.mp h
  have hlen := congrArg List.length ((TimeBlock.deserialize_eq_true_iff e _ b _).mp hb)
  simp [blockPayload] at hlen

/-- A payload of a value block is decoded as a value block, if at all. -/
theorem called_valueBlock {e : Endian} {publicKey : PublicKey} {block : ValueBlock} {item : Item}
    (h : processCompleteMessage e ((Item.valueBlock block).body e publicKey) = .ok (some item)) :
    ∃ b, item = .valueBlock b ∧
      ValueBlock.empty.deserialize e (blockPayload publicKey (block.serialize e))
        = .ok (true, b) := by
  obtain ⟨b, hb, hitem⟩ := callOn_eq_some.mp h
  exact ⟨b, hitem.symm, hb⟩

/-- What the receiver of a value block takes for the name of its time block is the hash of the
previous value block. -/
theorem refersToNone_of_previousHash {timeStorage : FileStorage TimeBlock} {publicKey : PublicKey}
    {block : ValueBlock} (hlen : (block.serialize H.endian).length ≤ maxSize)
    (h : timeStorage.blockExists block.previousHash = false) :
    RefersToNone H timeStorage ((Item.valueBlock block).body H.endian publicKey) := by
  intro b hb
  obtain ⟨b', hsame, hdecode⟩ := called_valueBlock hb
  obtain rfl := Item.valueBlock.inj hsame
  have hsize : (blockPayload publicKey (block.serialize H.endian)).length < 2 ^ 64 := by
    rw [blockPayload, List.length_append, publicKey.toList_length]
    rw [maxSize] at hlen
    omega
  obtain ⟨rest, hrest⟩ := ValueBlock.exists_eq_serialize_append H.endian hsize hdecode
  -- the key of the sender stands where the previous hash belongs
  have hsecond := congrArg (fun data => (data.drop 32).take 32) hrest
  simp only [blockPayload, ValueBlock.serialize, List.append_assoc] at hsecond
  rw [List.drop_left' publicKey.toList_length,
    List.take_left' block.previousHash.toList_length, List.drop_left' b.previousHash.toList_length,
    List.take_left' b.timeBlockHash.toList_length] at hsecond
  rw [← Subtype.ext hsecond]
  exact h

/-- A value block whose time block is not found changes nothing. -/
theorem receiveValue_of_missing {keys : NodeKeys H} {s t : Node.State} {block : ValueBlock}
    (hmissing : s.timeStorage.blockExists block.timeBlockHash = false)
    (h : Node.step H keys (.receiveValue block) s = some t) : t = s := by
  cases Node.step_cases h with
  | rejectReference hphase hexists => rfl
  | receiveValue hphase hexists =>
      rw [hmissing] at hexists
      cases hexists

/-- What a message of a node does: a transaction is added, and nothing else has an effect. -/
theorem handle_node {publicKey : PublicKey} {keys keys' : NodeKeys H} {item : Item} {p q : Party}
    (hsent : ∀ tx, item = .transaction tx → Produced H keys' item)
    (hnone : RefersToNone H p.node.timeStorage (item.body H.endian publicKey))
    (h : p.handle H keys (item.body H.endian publicKey) = some q) :
    (q.node = p.node ∧ ∀ tx, item ≠ .transaction tx) ∨
      ∃ tx, item = .transaction tx ∧
        Node.step H keys (.addTransaction tx) p.node = some q.node := by
  obtain ⟨hidle, -, -, ⟨hnothing, rfl⟩ | ⟨called, hcalled, hstep⟩⟩ := handle_cases h
  · refine .inl ⟨rfl, ?_⟩
    rintro tx rfl
    rw [processCompleteMessage_transaction (hsent tx rfl)] at hnothing
    cases hnothing
  · cases item with
    | timeBlock block => exact absurd hcalled (not_called_timeBlock publicKey block called)
    | valueBlock block =>
        obtain ⟨b, rfl, -⟩ := called_valueBlock hcalled
        exact .inl ⟨receiveValue_of_missing (hnone b hcalled) hstep, fun tx => by simp⟩
    | transaction tx =>
        rw [processCompleteMessage_transaction (hsent tx rfl)] at hcalled
        obtain rfl := Option.some.inj (Except.ok.inj hcalled)
        exact .inr ⟨tx, rfl, hstep⟩

/-! ## The network as one node sees it -/

variable {s t : State ι} {a : Action ι}

/-- A transaction that the value thread is about to broadcast was generated by the node, and its
network thread is in no call. -/
structure SoundParty (H : Host) (keys : NodeKeys H) (p : Party) : Prop where
  pending : ∀ tx, p.valueThread = .generated tx → Produced H keys (.transaction tx)
  network : p.node.network = .idle

/-- So it is with every node, and the transactions on a link were generated by their sender. -/
structure Sound (H : Host) (keyOf : ι → NodeKeys H) (s : State ι) : Prop where
  sent : ∀ i j items, s.links i j = some items → ∀ tx, Item.transaction tx ∈ items →
    Produced H (keyOf i) (.transaction tx)
  parties : ∀ i, SoundParty H (keyOf i) (s.parties i)

/-- The value thread never comes to broadcast a transaction by a step of `produce_block`. -/
theorem nextValueThread_ne_generated (a : Node.Action) (s t : Node.State) (tx : Transaction) :
    nextValueThread a s t ≠ .generated tx := by
  unfold nextValueThread
  split <;> simp

/-- What is on the links after a broadcast was there before, or is what was broadcast. -/
theorem mem_links_broadcast {i i' j : ι} {item item' : Item} {items : List Item}
    (h : (s.broadcast i item).links i' j = some items) (hmem : item' ∈ items) :
    (i' = i ∧ item' = item) ∨ ∃ before, s.links i' j = some before ∧ item' ∈ before := by
  rw [links_broadcast] at h
  split at h
  · rename_i hi
    obtain ⟨before, hbefore, rfl⟩ := Option.map_eq_some_iff.mp h
    rcases List.mem_append.mp hmem with hmem | hmem
    · exact .inr ⟨before, hbefore, hmem⟩
    · exact .inl ⟨hi, List.mem_singleton.mp hmem⟩
  · exact .inr ⟨items, h, hmem⟩

/-- A property of all nodes is kept when the one that is replaced has it. -/
theorem forall_setParty {P : ι → Party → Prop} {i : ι} {p : Party}
    (h : ∀ k, P k (s.parties k)) (hp : P i p) (k : ι) : P k ((s.setParty i p).parties k) := by
  unfold State.setParty
  by_cases hk : k = i
  · subst hk
    simpa using hp
  · simpa [hk] using h k

theorem SoundParty.act {keys : NodeKeys H} {p q : Party} {a : Node.Action}
    (h : SoundParty H keys p) (hsolo : Solo p.node a) (hact : p.act H keys a = some q) :
    SoundParty H keys q := by
  obtain ⟨hstep, -, hthread⟩ := act_cases hact
  refine ⟨fun tx htx => ?_, network_of_solo h.network hsolo hstep⟩
  rcases hthread with hsame | ⟨-, hnext⟩
  · exact h.pending tx (hsame ▸ htx)
  · exact absurd (hnext ▸ htx) (nextValueThread_ne_generated _ _ _ tx)

theorem SoundParty.generate {keys : NodeKeys H} {p q : Party} {recipientPrivateKey : PrivateKey}
    (h : SoundParty H keys p) (hgenerate : p.generate H keys recipientPrivateKey = some q) :
    SoundParty H keys q := by
  obtain ⟨tx, -, htx, hstep, hthread⟩ := generate_cases hgenerate
  refine ⟨fun tx' htx' => ?_, network_of_solo (a := .addTransaction tx) h.network trivial hstep⟩
  rw [hthread] at htx'
  cases htx'
  exact ⟨_, htx⟩

theorem SoundParty.handle {keys keys' : NodeKeys H} {publicKey : PublicKey} {item : Item}
    {p q : Party} (h : SoundParty H keys p)
    (hsent : ∀ tx, item = .transaction tx → Produced H keys' item)
    (hnone : RefersToNone H p.node.timeStorage (item.body H.endian publicKey))
    (hhandle : p.handle H keys (item.body H.endian publicKey) = some q) :
    SoundParty H keys q := by
  obtain ⟨-, -, hthread, -⟩ := handle_cases hhandle
  refine ⟨fun tx htx => h.pending tx (hthread ▸ htx), ?_⟩
  rcases handle_node hsent hnone hhandle with ⟨hsame, -⟩ | ⟨tx, -, hstep⟩
  · rw [hsame]
    exact h.network
  · exact network_of_solo (a := .addTransaction tx) h.network trivial hstep

theorem Sound.setParty (h : Sound H keyOf s) {i : ι} {p : Party}
    (hp : SoundParty H (keyOf i) p) : Sound H keyOf (s.setParty i p) where
  sent := h.sent
  parties := forall_setParty (P := fun k p => SoundParty H (keyOf k) p) h.parties hp

theorem Sound.broadcast (h : Sound H keyOf s) {i : ι} {item : Item}
    (hitem : ∀ tx, item = .transaction tx → Produced H (keyOf i) item) :
    Sound H keyOf (s.broadcast i item) where
  sent := by
    intro i' j items hlinks tx hmem
    rcases mem_links_broadcast hlinks hmem with ⟨rfl, rfl⟩ | ⟨before, hbefore, hmem⟩
    · exact hitem tx rfl
    · exact h.sent i' j before hbefore tx hmem
  parties := h.parties

theorem Sound.setLink (h : Sound H keyOf s) {i j : ι} {items : List Item}
    (hitems : ∀ tx, Item.transaction tx ∈ items → Produced H (keyOf i) (.transaction tx)) :
    Sound H keyOf (s.setLink i j items) where
  sent := by
    intro i' j' items' hlinks tx hmem
    rw [links_setLink] at hlinks
    split at hlinks
    · rename_i hsame
      obtain ⟨rfl, rfl⟩ := hsame
      obtain rfl := Option.some.inj hlinks
      exact hitems tx hmem
    · exact h.sent i' j' items' hlinks tx hmem
  parties := h.parties

omit [DecidableEq ι] in
/-- A transaction that is next on a link was generated by the sender. -/
theorem Sound.front (h : Sound H keyOf s) {i j : ι} {item : Item} {rest : List Item}
    (hlink : s.links i j = some (item :: rest)) (tx : Transaction)
    (hitem : item = .transaction tx) :
    Produced H (keyOf i) item := by
  subst hitem
  exact h.sent i j _ hlink tx List.mem_cons_self

/-- **Every step keeps the network sound.** -/
theorem sound_step (h : Sound H keyOf s) (hC : Undisturbed H keyOf s a)
    (hstep : step H keyOf a s = some t) : Sound H keyOf t := by
  cases step_cases hstep with
  | connect hne hlink => exact h.setLink (fun tx hmem => by cases hmem)
  | act hact => exact h.setParty ((h.parties _).act hC hact)
  | generate hgenerate => exact h.setParty ((h.parties _).generate hgenerate)
  | @broadcastTime i item p hbroadcast =>
      obtain ⟨block, -, rfl, rfl⟩ := broadcastTime_cases hbroadcast
      refine Sound.broadcast (h.setParty ?_) (fun tx htx => by cases htx)
      exact ⟨(h.parties i).pending, (h.parties i).network⟩
  | @broadcastValue i item p hbroadcast =>
      rcases broadcastValue_cases hbroadcast with ⟨tx, hthread, rfl, rfl⟩ | ⟨block, -, rfl, rfl⟩
      · refine Sound.broadcast (h.setParty ?_) (fun _ _ => (h.parties i).pending tx hthread)
        exact ⟨fun _ h' => (by cases h'), (h.parties i).network⟩
      · refine Sound.broadcast (h.setParty ?_) (fun _ h' => by cases h')
        exact ⟨fun _ h' => (by cases h'), (h.parties i).network⟩
  | @deliver i j item rest p hlink hhandle =>
      refine Sound.setLink (h.setParty ?_) (fun tx hmem => ?_)
      · exact (h.parties j).handle (h.front hlink) hC hhandle
      · exact h.sent i j _ hlink tx (List.mem_cons_of_mem _ hmem)

omit [DecidableEq ι] in
/-- A step that does not touch the node is no step for it. -/
theorem projected_nil {j : ι} (hnode : (t.parties j).node = (s.parties j).node) :
    ∃ t', Transition.run (Node.step H (keyOf j)) [] (s.parties j).node = some t' ∧
      Transition.Along (Node.step H (keyOf j)) Solo [] (s.parties j).node ∧
      (t.parties j).node = t' :=
  ⟨(s.parties j).node, rfl, trivial, hnode⟩

omit [DecidableEq ι] in
/-- One step of the node. -/
theorem projected_one {j : ι} {a : Node.Action} {node : Node.State}
    (hstep : Node.step H (keyOf j) a (s.parties j).node = some node)
    (hsolo : Solo (s.parties j).node a) (hnode : (t.parties j).node = node) :
    ∃ t', Transition.run (Node.step H (keyOf j)) [a] (s.parties j).node = some t' ∧
      Transition.Along (Node.step H (keyOf j)) Solo [a] (s.parties j).node ∧
      (t.parties j).node = t' := by
  refine ⟨node, ?_, ⟨hsolo, fun _ _ => trivial⟩, hnode⟩
  rw [Transition.run_cons, hstep]
  rfl

theorem node_setParty_of_ne {i j : ι} {p : Party} (hne : j ≠ i) :
    ((s.setParty i p).parties j).node = (s.parties j).node := by
  rw [State.setParty]
  simp only [Function.update_of_ne hne]

theorem node_setParty_self {i : ι} {p : Party} :
    ((s.setParty i p).parties i).node = p.node := by
  rw [State.setParty]
  simp only [Function.update_self]

/-- Every step of the network is the projected steps of each node. -/
theorem projected (j : ι) : Projected (step H keyOf) (Node.step H (keyOf j)) (Undisturbed H keyOf)
    Solo (fun s node => Sound H keyOf s ∧ (s.parties j).node = node) (project H keyOf j) := by
  rintro s a t node ⟨hs, rfl⟩ hC hstep
  have hsound := sound_step hs hC hstep
  suffices hnode : ∃ t', Transition.run (Node.step H (keyOf j)) (project H keyOf j a)
      (s.parties j).node = some t' ∧
      Transition.Along (Node.step H (keyOf j)) Solo (project H keyOf j a) (s.parties j).node ∧
      (t.parties j).node = t' by
    obtain ⟨t', hrun, halong, hsame⟩ := hnode
    exact ⟨t', hrun, halong, hsound, hsame⟩
  cases step_cases hstep with
  | connect hne hlink => exact projected_nil rfl
  | @act i a p hact =>
      by_cases hij : i = j
      · subst hij
        rw [project, if_pos rfl]
        exact projected_one (act_cases hact).1 hC node_setParty_self
      · rw [project, if_neg hij]
        exact projected_nil (node_setParty_of_ne (Ne.symm hij))
  | @generate i recipientPrivateKey p hgenerate =>
      obtain ⟨tx, -, htx, hadd, -⟩ := generate_cases hgenerate
      by_cases hij : i = j
      · subst hij
        rw [project, generated, if_pos rfl, htx]
        exact projected_one hadd trivial node_setParty_self
      · rw [project, generated, if_neg hij]
        exact projected_nil (node_setParty_of_ne (Ne.symm hij))
  | @broadcastTime i item p hbroadcast =>
      obtain ⟨block, -, -, rfl⟩ := broadcastTime_cases hbroadcast
      exact projected_nil (forall_setParty (P := fun k q => q.node = (s.parties k).node)
        (p := { s.parties i with timeBlock := none }) (fun _ => rfl) rfl j)
  | @broadcastValue i item p hbroadcast =>
      have hnode : p.node = (s.parties i).node := by
        rcases broadcastValue_cases hbroadcast with ⟨tx, -, -, rfl⟩ | ⟨block, -, -, rfl⟩
        · rfl
        · rfl
      exact projected_nil (forall_setParty (P := fun k q => q.node = (s.parties k).node)
        (fun _ => rfl) hnode j)
  | @deliver i j' item rest p hlink hhandle =>
      by_cases hij : j' = j
      · subst hij
        rcases handle_node (hs.front hlink) hC hhandle with ⟨hsame, hne⟩ | ⟨tx, rfl, hadd⟩
        · have hnil : project H keyOf j' (.deliver i j' item) = [] := by
            cases item with
            | transaction tx => exact absurd rfl (hne tx)
            | _ => rfl
          rw [hnil]
          exact projected_nil (node_setParty_self.trans hsame)
        · rw [project, delivered, if_pos ⟨rfl, rfl⟩]
          exact projected_one hadd trivial node_setParty_self
      · have hnil : project H keyOf j (.deliver i j' item) = [] := by
          cases item <;> simp [project, delivered, hij]
        rw [hnil]
        exact projected_nil (node_setParty_of_ne (Ne.symm hij))

/-! ## Every run -/

omit [DecidableEq ι] in
variable (keyOf) in
/-- After the start nothing is on its way. -/
theorem sound_of_start {G : GenesisBlocks} {s₀ : State ι} (hstart : start H G ι = some s₀) :
    Sound H keyOf s₀ ∧ ∀ j, Node.start H G = some (s₀.parties j).node := by
  obtain ⟨p, hp, h⟩ := Option.bind_eq_some_iff.mp hstart
  cases h
  obtain ⟨node, hnode, h⟩ := Option.bind_eq_some_iff.mp hp
  cases h
  refine ⟨⟨fun _ _ _ h => (by cases h), fun _ => ⟨fun _ h => (by cases h), ?_⟩⟩, fun _ => hnode⟩
  exact (pool_of_start hnode).2

/-- **Each node of a network does what it would do on its own**, with the transactions that it
generates and those that reach it: its state is that after a run of the single node, from its
start, in which no block is received. -/
theorem isolated {G : GenesisBlocks} {as : List (Action ι)} {s₀ : State ι}
    (hstart : start H G ι = some s₀) (hrun : run H keyOf as s₀ = some s)
    (halong : Along H keyOf (Undisturbed H keyOf) as s₀) (j : ι) :
    ∃ node₀, Node.start H G = some node₀ ∧
      Node.run H (keyOf j) (as.flatMap (project H keyOf j)) node₀ = some (s.parties j).node ∧
      Node.Along H (keyOf j) Solo (as.flatMap (project H keyOf j)) node₀ := by
  obtain ⟨hsound, hnode⟩ := sound_of_start keyOf hstart
  obtain ⟨node, hrun', halong', -, rfl⟩ := (projected j).run hrun halong ⟨hsound, rfl⟩
  exact ⟨(s₀.parties j).node, hnode j, hrun', halong'⟩

/-- Each node holds its own chains, and in them and in its pool the transactions that came to it. -/
theorem holdsInOrder_network {G : GenesisBlocks} {as : List (Action ι)} {s₀ : State ι}
    (hstart : start H G ι = some s₀) (hrun : run H keyOf as s₀ = some s)
    (halong : Along H keyOf (Undisturbed H keyOf) as s₀) (j : ι) :
    HoldsInOrder H G (keyOf j) ((as.flatMap (project H keyOf j)).filterMap Node.Action.added)
      (s.parties j).node := by
  obtain ⟨node₀, hnode₀, hrun', halong'⟩ := isolated hstart hrun halong j
  obtain ⟨timeGenesis, valueGenesis, r, htime, hvalue, hown, hledger⟩ :=
    exists_chains_run hnode₀ hrun' halong'
  rw [← hledger]
  exact hown.holdsInOrder htime hvalue

/-- Two nodes hold no block in common but the genesis blocks. -/
def OnlyGenesisInCommon (H : Host) (G : GenesisBlocks) (s t : Node.State) : Prop :=
  (∀ block, s.timeStorage.Readable H.endian block → t.timeStorage.Readable H.endian block →
    G.IsTimeGenesis H.endian block) ∧
  ∀ block, s.valueStorage.Readable H.endian block → t.valueStorage.Readable H.endian block →
    G.IsValueGenesis H.endian block

/-- Two linear chains of blocks of two nodes share their first block only. -/
theorem onlyGenesisInCommon_of_linearChains {G : GenesisBlocks} {keys keys' : NodeKeys H}
    {s t : Node.State} (hs : LinearChains H G keys s) (ht : LinearChains H G keys' t)
    (hne : keys.publicKey ≠ keys'.publicKey) : OnlyGenesisInCommon H G s t := by
  obtain ⟨timeGenesis, valueGenesis, timeBlocks, valueBlocks, hisTime, hisValue, htime, hvalue,
    htimeStorage, hvalueStorage⟩ := hs
  obtain ⟨timeGenesis', valueGenesis', timeBlocks', valueBlocks', hisTime', hisValue', htime',
    hvalue', htimeStorage', hvalueStorage'⟩ := ht
  constructor
  · intro block hb hb'
    rcases htime.mem_cases (mem_of_readable htimeStorage hb) with rfl | hown
    · exact hisTime
    · rcases htime'.mem_cases (mem_of_readable htimeStorage' hb') with rfl | hown'
      · exact hisTime'
      · exact absurd (hown.publicKey.symm.trans hown'.publicKey) hne
  · intro block hb hb'
    rcases hvalue.mem_cases (mem_of_readable hvalueStorage hb) with rfl | hown
    · exact hisValue
    · rcases hvalue'.mem_cases (mem_of_readable hvalueStorage' hb') with rfl | hown'
      · exact hisValue'
      · exact absurd (hown.publicKey.symm.trans hown'.publicKey) hne

/-- Two nodes of a network that have different keys hold no block in common but genesis. -/
theorem onlyGenesisInCommon_of_run {G : GenesisBlocks} {as : List (Action ι)} {s₀ : State ι}
    (hstart : start H G ι = some s₀) (hrun : run H keyOf as s₀ = some s)
    (halong : Along H keyOf (Undisturbed H keyOf) as s₀) {i j : ι}
    (hne : (keyOf i).publicKey ≠ (keyOf j).publicKey) :
    OnlyGenesisInCommon H G (s.parties i).node (s.parties j).node :=
  onlyGenesisInCommon_of_linearChains (holdsInOrder_network hstart hrun halong i).linearChains
    (holdsInOrder_network hstart hrun halong j).linearChains hne

end MessageNetwork

end CoinPlatform
