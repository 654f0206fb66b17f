/-
# A node on its own

A node that accepts no block from its peers builds two chains of its own blocks, whatever
transactions it is given.  The blocks that its loops store are recorded beside the run
(`Chains`), and the record is what the node holds:

* `ownChains_step`: the stores are the maps of the recorded chains, each of which starts at its
  genesis block and has every later block linked to the one before it.
* `ledger_step`: the payments of the recorded value blocks, of the batch under production and of
  the pool are the added transactions, in the order in which they were added.
* `ownChains_run`: so it is in every run of such a node.
-/
import CoinPlatform.Ancestry
import CoinPlatform.GrowingChain
import CoinPlatform.PoolLedger
import CoinPlatform.StoreRefinement

open ByteOrder StdVector GrowingChain Transition

namespace CoinPlatform

open FileStorage

namespace Node

/-! ## The record -/

/-- The node takes no block from its peers, and no file operation of a store fails. -/
def Solo (_ : State) (a : Action) : Prop :=
  match a with
  | .storeProducedTime io => io = .ok
  | .storeProducedValue io => io = .ok
  | .receiveTime _ => False
  | .receiveValue _ => False
  | _ => True

instance decidableSolo (s : State) (a : Action) : Decidable (Solo s a) := by
  apply Action.casesOn (motive := fun a => Decidable (Solo s a)) a <;> intros <;>
    dsimp only [Solo] <;> infer_instance

/-- The blocks of both chains, in the order in which they were stored. -/
structure Chains where
  timeBlocks : List TimeBlock
  valueBlocks : List ValueBlock

/-- The record after the step from `s`: the block that a loop stores comes to the end of its
chain. -/
def Chains.next (a : Action) (s _ : State) (r : Chains) : Chains :=
  match a with
  | .storeProducedTime _ =>
    match s.timeLoop with
    | .storing block => { r with timeBlocks := r.timeBlocks ++ [block] }
    | _ => r
  | .storeProducedValue _ =>
    match s.valueLoop with
    | .storing block => { r with valueBlocks := r.valueBlocks ++ [block] }
    | _ => r
  | _ => r

variable (H : Host) (keys : NodeKeys H)

/-- The node with the record of its chains. -/
abbrev chainStep := recording (step H keys) Chains.next

/-- A block that the time loop has built. -/
def OwnTimeBlock (block : TimeBlock) : Prop :=
  ∃ latestBlock currentTime,
    TimeChainConsensus.createBlock H keys latestBlock currentTime = .ok block

/-- A coinbase transaction and what was taken from the pool. -/
def OwnBatch (transactions : List Transaction) : Prop :=
  ∃ coinbase payments, ValueChainConsensus.coinbaseTransaction H keys = .ok coinbase ∧
    transactions = coinbase :: payments

/-- A block that the value loop has built from such a batch. -/
def OwnValueBlock (block : ValueBlock) : Prop :=
  OwnBatch H keys block.transactions ∧ ∃ latestBlock timeBlockHash currentTime,
    ValueChainConsensus.createBlock H keys latestBlock timeBlockHash currentTime
      block.transactions = .ok block

/-- What the stores hold, and what the loops are building, is what is recorded.  The blocks have
properties that all blocks of the node have, and may have been there before it. -/
structure OwnChains (P : TimeBlock → Prop) (Q : ValueBlock → Prop) (timeGenesis : TimeBlock)
    (valueGenesis : ValueBlock) (s : State) (r : Chains) : Prop where
  timeOwn : ∀ block, OwnTimeBlock H keys block → P block
  valueOwn : ∀ block, OwnValueBlock H keys block → Q block
  timeStorage : Represents H.endian s.timeStorage
    (LatestMap.ofList BlockType.getHash r.timeBlocks)
  valueStorage : Represents H.endian s.valueStorage
    (LatestMap.ofList BlockType.getHash r.valueBlocks)
  timeChain : Grown TimeBlock.hash TimeBlock.previousHash timeGenesis P r.timeBlocks
  valueChain : Grown ValueBlock.hash ValueBlock.previousHash valueGenesis Q r.valueBlocks
  timePending : ∀ block, s.timeLoop = .storing block → P block ∧
    ∃ last, r.timeBlocks.getLast? = some last ∧ block.previousHash = last.hash
  batch : ∀ transactions, s.valueLoop.gathered? = some transactions →
    OwnBatch H keys transactions
  valuePending : ∀ block, s.valueLoop = .storing block → Q block
  valueLink : ∀ k, s.valueLoop.previousHash? = some k →
    ∃ last, r.valueBlocks.getLast? = some last ∧ k = last.hash
  network : s.network = .idle

/-- The payments of a list of transactions: all but the coinbase transaction in front. -/
def payments (transactions : List Transaction) : List Transaction := transactions.tail

/-- The payments that the node holds, the oldest first: in its value chain, in the batch under
production, and in the pool. -/
def ledger (s : State) (r : Chains) : List Transaction :=
  r.valueBlocks.tail.flatMap (fun block => payments block.transactions) ++
    payments s.valueLoop.transactions ++ s.transactionPool

variable {H keys} {timeGenesis : TimeBlock} {valueGenesis : ValueBlock} {s t : State}
  {r : Chains} {a : Action} {past : List Action} {P : TimeBlock → Prop} {Q : ValueBlock → Prop}

/-! ## One step -/

/-- A network thread that is given no block stays where it is. -/
theorem network_of_solo (hnet : s.network = .idle) (hsolo : Solo s a)
    (h : step H keys a s = some t) : t.network = .idle := by
  cases step_cases h with
  | receiveTime hphase hvalid => exact hsolo.elim
  | receiveValue hphase hexists => exact hsolo.elim
  | storeReceivedTime hphase hstore => rfl
  | rejectValue hphase => rfl
  | checkValue hphase htime hpast htxs hsig =>
      rw [hnet] at hphase
      cases hphase
  | storeReceivedValue hphase hstore =>
      rw [hnet] at hphase
      cases hphase
  | purge hphase => rfl
  | _ => exact hnet

theorem next_storeProducedTime {io : WriteOutcome} {block : TimeBlock}
    (hphase : s.timeLoop = .storing block) :
    r.next (.storeProducedTime io) s t = { r with timeBlocks := r.timeBlocks ++ [block] } := by
  simp only [Chains.next, hphase]

theorem next_storeProducedValue {io : WriteOutcome} {block : ValueBlock}
    (hphase : s.valueLoop = .storing block) :
    r.next (.storeProducedValue io) s t
      = { r with valueBlocks := r.valueBlocks ++ [block] } := by
  simp only [Chains.next, hphase]

/-- The time chain of the record is the one the node had, or has got one more block. -/
theorem timeChain_next (h : OwnChains H keys P Q timeGenesis valueGenesis s r) (hsolo : Solo s a)
    (hstep : step H keys a s = some t) :
    ((r.next a s t).timeBlocks = r.timeBlocks ∧ t.timeStorage = s.timeStorage) ∨
      ∃ block ok, s.timeLoop = .storing block ∧ t.timeLoop = .idle ∧
        s.timeStorage.storeBlock H.endian block .ok = .ok (ok, t.timeStorage) ∧
        (r.next a s t).timeBlocks = r.timeBlocks ++ [block] := by
  cases step_cases hstep with
  | storeProducedTime hphase hstore =>
      obtain rfl : _ = WriteOutcome.ok := hsolo
      exact .inr ⟨_, _, hphase, rfl, hstore, by rw [next_storeProducedTime hphase]⟩
  | storeReceivedTime hphase hstore =>
      rw [h.network] at hphase
      cases hphase
  | storeProducedValue hphase hstore =>
      exact .inl ⟨by rw [next_storeProducedValue hphase], rfl⟩
  | _ => exact .inl ⟨rfl, rfl⟩

/-- The same for the value chain. -/
theorem valueChain_next (h : OwnChains H keys P Q timeGenesis valueGenesis s r) (hsolo : Solo s a)
    (hstep : step H keys a s = some t) :
    ((r.next a s t).valueBlocks = r.valueBlocks ∧ t.valueStorage = s.valueStorage) ∨
      ∃ block ok, s.valueLoop = .storing block ∧ t.valueLoop = .idle ∧
        s.valueStorage.storeBlock H.endian block .ok = .ok (ok, t.valueStorage) ∧
        (r.next a s t).valueBlocks = r.valueBlocks ++ [block] := by
  cases step_cases hstep with
  | storeProducedValue hphase hstore =>
      obtain rfl : _ = WriteOutcome.ok := hsolo
      exact .inr ⟨_, _, hphase, rfl, hstore, by rw [next_storeProducedValue hphase]⟩
  | storeReceivedValue hphase hstore =>
      rw [h.network] at hphase
      cases hphase
  | storeProducedTime hphase hstore =>
      exact .inl ⟨by rw [next_storeProducedTime hphase], rfl⟩
  | _ => exact .inl ⟨rfl, rfl⟩

/-- The latest block that a loop reads is the last one of its chain. -/
theorem latestBlockHash_of_represents {B : Type} [BlockType B] {e : Endian}
    {storage : FileStorage B} {chain : List B} {last : B} {latestBlock : Option B}
    (h : Represents e storage (LatestMap.ofList BlockType.getHash chain))
    (hlast : chain.getLast? = some last) (hlatest : storage.getLatestBlock e = .ok latestBlock) :
    latestBlockHash latestBlock = BlockType.getHash last := by
  have hread := h.getLatestBlock
  rw [LatestMap.latest_ofList, hlast, hlatest] at hread
  obtain rfl := Except.ok.inj hread
  rfl

/-- What is stored next is represented by the longer chain. -/
theorem Represents.concat {B : Type} [BlockType B] {e : Endian} {storage storage' : FileStorage B}
    {chain : List B} {block : B} {ok : Bool}
    (h : Represents e storage (LatestMap.ofList BlockType.getHash chain))
    (hstore : storage.storeBlock e block .ok = .ok (ok, storage')) :
    Represents e storage' (LatestMap.ofList BlockType.getHash (chain ++ [block])) := by
  rw [LatestMap.ofList_append_singleton]
  exact h.storeBlock hstore

/-- What can be read is in the chain. -/
theorem mem_of_readable {B : Type} [BlockType B] {e : Endian} {storage : FileStorage B}
    {chain : List B} (h : Represents e storage (LatestMap.ofList BlockType.getHash chain)) {b : B}
    (hb : storage.Readable e b) : b ∈ chain := by
  rcases hb with ⟨k, hb⟩ | hb
  · have hentry := (h.getBlock k).symm.trans hb
    rw [LatestMap.entries_ofList] at hentry
    exact List.mem_reverse.mp (List.mem_of_find?_eq_some (Except.ok.inj hentry))
  · have hlatest := h.getLatestBlock.symm.trans hb
    rw [LatestMap.latest_ofList] at hlatest
    exact List.mem_of_getLast? (Except.ok.inj hlatest)

/-- A block that a loop has built carries the public key of its node. -/
theorem OwnTimeBlock.publicKey {block : TimeBlock} (h : OwnTimeBlock H keys block) :
    block.publicKey = keys.publicKey := by
  obtain ⟨latestBlock, currentTime, hcreate⟩ := h
  obtain ⟨signature, -, rfl⟩ := TimeChainConsensus.createBlock_eq_ok hcreate
  rfl

theorem OwnValueBlock.publicKey {block : ValueBlock} (h : OwnValueBlock H keys block) :
    block.publicKey = keys.publicKey := by
  obtain ⟨-, latestBlock, timeBlockHash, currentTime, hcreate⟩ := h
  exact (ValueChainConsensus.fields_createBlock hcreate).2.2.2.2

/-- A time block under production has just been built on the last block, or was pending
before, and the chain has not moved since. -/
theorem timePending_step (h : OwnChains H keys P Q timeGenesis valueGenesis s r) (hsolo : Solo s a)
    (hstep : step H keys a s = some t) {block : TimeBlock} (hblock : t.timeLoop = .storing block) :
    P block ∧
      ∃ last, (r.next a s t).timeBlocks.getLast? = some last ∧ block.previousHash = last.hash := by
  rcases timeChain_next h hsolo hstep with ⟨hchain, -⟩ | ⟨b, ok, -, hidle, -⟩
  · rw [hchain]
    rcases timeLoop_storing hstep hblock with hbefore |
        ⟨randomNumber, currentTime, latestBlock, -, hlatest, hcreate⟩
    · exact h.timePending block hbefore
    · obtain ⟨last, -, hlast⟩ := h.timeChain.exists_getLast
      have hlink := latestBlockHash_of_represents h.timeStorage hlast hlatest
      obtain ⟨signature, -, rfl⟩ := TimeChainConsensus.createBlock_eq_ok hcreate
      exact ⟨h.timeOwn _ ⟨_, _, hcreate⟩, last, hlast, hlink⟩
  · rw [hidle] at hblock
    cases hblock

theorem valueLink_step (h : OwnChains H keys P Q timeGenesis valueGenesis s r) (hsolo : Solo s a)
    (hstep : step H keys a s = some t) {k : Hash} (hk : t.valueLoop.previousHash? = some k) :
    ∃ last, (r.next a s t).valueBlocks.getLast? = some last ∧ k = last.hash := by
  rcases valueChain_next h hsolo hstep with ⟨hchain, -⟩ | ⟨b, ok, -, hidle, -⟩
  · rw [hchain]
    rcases valueLoop_previousHash hstep hk with hbefore | ⟨latestBlock, -, hlatest, rfl⟩
    · exact h.valueLink k hbefore
    · obtain ⟨last, -, hlast⟩ := h.valueChain.exists_getLast
      exact ⟨last, hlast, latestBlockHash_of_represents h.valueStorage hlast hlatest⟩
  · rw [hidle] at hk
    cases hk

/-- What the value loop builds from its batch is a block of its own. -/
theorem valuePending_step (h : OwnChains H keys P Q timeGenesis valueGenesis s r)
    (hstep : step H keys a s = some t) {block : ValueBlock}
    (hblock : t.valueLoop = .storing block) : Q block := by
  rcases valueLoop_storing hstep hblock with hbefore |
      ⟨transactions, latestBlock, currentTime, timeBlockHash, -, hphase, -, hcreate⟩
  · exact h.valuePending block hbefore
  · obtain ⟨-, -, -, htxs, -⟩ := ValueChainConsensus.fields_createBlock hcreate
    subst htxs
    exact h.valueOwn _
      ⟨h.batch _ (by rw [hphase]; rfl), latestBlock, timeBlockHash, currentTime, hcreate⟩

theorem batch_step (h : OwnChains H keys P Q timeGenesis valueGenesis s r)
    (hstep : step H keys a s = some t) {transactions : List Transaction}
    (htxs : t.valueLoop.gathered? = some transactions) : OwnBatch H keys transactions := by
  rcases valueLoop_gathered hstep htxs with hbefore | ⟨coinbase, -, hcoinbase, rfl⟩
  · exact h.batch transactions hbefore
  · exact ⟨coinbase, s.transactionPool, hcoinbase, rfl⟩

/-- **Every step of a node on its own keeps the chains.** -/
theorem ownChains_step (h : OwnChains H keys P Q timeGenesis valueGenesis s r) (hsolo : Solo s a)
    (hstep : step H keys a s = some t) :
    OwnChains H keys P Q timeGenesis valueGenesis t (r.next a s t) where
  timeOwn := h.timeOwn
  valueOwn := h.valueOwn
  timeStorage := by
    rcases timeChain_next h hsolo hstep with ⟨hchain, hsame⟩ | ⟨b, ok, -, -, hstore, hchain⟩
    · rw [hchain, hsame]
      exact h.timeStorage
    · rw [hchain]
      exact Represents.concat h.timeStorage hstore
  valueStorage := by
    rcases valueChain_next h hsolo hstep with ⟨hchain, hsame⟩ | ⟨b, ok, -, -, hstore, hchain⟩
    · rw [hchain, hsame]
      exact h.valueStorage
    · rw [hchain]
      exact Represents.concat h.valueStorage hstore
  timeChain := by
    rcases timeChain_next h hsolo hstep with ⟨hchain, -⟩ | ⟨b, ok, hphase, -, -, hchain⟩
    · rw [hchain]
      exact h.timeChain
    · obtain ⟨hown, last, hlast, hlink⟩ := h.timePending b hphase
      rw [hchain]
      exact h.timeChain.concat hlast hlink hown
  valueChain := by
    rcases valueChain_next h hsolo hstep with ⟨hchain, -⟩ | ⟨b, ok, hphase, -, -, hchain⟩
    · rw [hchain]
      exact h.valueChain
    · obtain ⟨last, hlast, hlink⟩ := h.valueLink b.previousHash (by rw [hphase]; rfl)
      rw [hchain]
      exact h.valueChain.concat hlast hlink (h.valuePending b hphase)
  timePending := fun _ hblock => timePending_step h hsolo hstep hblock
  batch := fun _ htxs => batch_step h hstep htxs
  valuePending := fun _ hblock => valuePending_step h hstep hblock
  valueLink := fun _ hk => valueLink_step h hsolo hstep hk
  network := network_of_solo h.network hsolo hstep

/-! ## The ledger -/

/-- The payments of the longer chain. -/
theorem flatMap_payments_concat {chain : List ValueBlock} (hne : chain ≠ []) (block : ValueBlock) :
    (chain ++ [block]).tail.flatMap (fun b => payments b.transactions)
      = chain.tail.flatMap (fun b => payments b.transactions) ++ payments block.transactions := by
  rw [List.tail_append_of_ne_nil hne, List.flatMap_append, List.flatMap_singleton]

/-- **Every step keeps the ledger**: what is added comes to its end, and what is gathered or
stored moves inside it without changing its place. -/
theorem ledger_step (h : OwnChains H keys P Q timeGenesis valueGenesis s r) (hsolo : Solo s a)
    (hstep : step H keys a s = some t) :
    ledger t (r.next a s t) = ledger s r ++ a.added.toList := by
  have hne := h.valueChain.ne_nil
  cases step_cases hstep with
  | addTransaction transaction =>
      simp only [ledger, Chains.next, Action.added, Option.toList_some, List.append_assoc]
  | gatherNothing hphase hpool =>
      simp [ledger, Chains.next, Action.added, hphase, hpool, ValueLoop.transactions, payments]
  | gather hphase hcoinbase =>
      -- the pool becomes the batch, behind the coinbase transaction
      simp [ledger, Chains.next, Action.added, hphase, ValueLoop.transactions, payments]
  | produceValue hphase =>
      simp [ledger, Chains.next, Action.added, hphase, ValueLoop.transactions]
  | readLatestValue hphase hlatest =>
      simp [ledger, Chains.next, Action.added, hphase, ValueLoop.transactions]
  | readTime hphase htime =>
      simp [ledger, Chains.next, Action.added, hphase, ValueLoop.transactions]
  | readTimeHash hphase hhash hcreate =>
      obtain ⟨-, -, -, htxs, -⟩ := ValueChainConsensus.fields_createBlock hcreate
      simp [ledger, Chains.next, Action.added, hphase, ValueLoop.transactions, htxs]
  | storeProducedTime hphase hstore =>
      simp [ledger, Chains.next, Action.added, hphase]
  | storeProducedValue hphase hstore =>
      -- the batch becomes the payments of the last block
      rw [ledger, ledger, next_storeProducedValue hphase, flatMap_payments_concat hne, hphase]
      simp [Action.added, ValueLoop.transactions, payments]
  | purge hphase =>
      rw [h.network] at hphase
      cases hphase
  | receiveTime hphase hvalid => exact hsolo.elim
  | receiveValue hphase hexists => exact hsolo.elim
  | _ => simp [ledger, Chains.next, Action.added]

/-! ## Every run -/

/-- The record at the start: both chains have their genesis block only. -/
def Chains.start (timeGenesis : TimeBlock) (valueGenesis : ValueBlock) : Chains :=
  ⟨[timeGenesis], [valueGenesis]⟩

/-- A directory with one block is the map of that block. -/
theorem represents_storeBlock_of_empty {B : Type} [BlockType B] {e : Endian}
    {s s' : FileStorage B} {x : B} {ok : Bool} (hempty : ∀ filename, s.files filename = none)
    (h : s.storeBlock e x .ok = .ok (ok, s')) :
    Represents e s' (LatestMap.ofList BlockType.getHash [x]) := by
  have hs : Represents e s (LatestMap.ofList BlockType.getHash []) := by
    refine ⟨fun k => ?_, fun k => ?_, ?_⟩
    · rw [getBlock, hempty]
      rfl
    · rw [blockExists, hempty]
      rfl
    · rw [getLatestBlock, hempty]
      rfl
  exact Represents.concat hs h

/-- A start leaves both chains with their genesis block, and nothing in the ledger. -/
theorem ownChains_of_start (hP : ∀ block, OwnTimeBlock H keys block → P block)
    (hQ : ∀ block, OwnValueBlock H keys block → Q block) {G : GenesisBlocks} {s₀ : State}
    (hstart : start H G = some s₀) :
    ∃ timeGenesis valueGenesis, G.IsTimeGenesis H.endian timeGenesis ∧
      G.IsValueGenesis H.endian valueGenesis ∧
      OwnChains H keys P Q timeGenesis valueGenesis s₀ (.start timeGenesis valueGenesis) ∧
      ledger s₀ (.start timeGenesis valueGenesis) = [] := by
  unfold start at hstart
  split at hstart
  · rename_i timeStorage valueStorage htime hvalue
    cases hstart
    obtain ⟨timeGenesis, hisTime, -, htime⟩ :=
      TimeChainConsensus.initializeChain_of_empty (fun _ => rfl) htime
    obtain ⟨valueGenesis, hisValue, -, hvalue⟩ :=
      ValueChainConsensus.initializeChain_of_empty (fun _ => rfl) hvalue
    refine ⟨timeGenesis, valueGenesis, hisTime, hisValue, ?_, rfl⟩
    exact {
      timeOwn := hP
      valueOwn := hQ
      timeStorage := represents_storeBlock_of_empty (fun _ => rfl) htime
      valueStorage := represents_storeBlock_of_empty (fun _ => rfl) hvalue
      timeChain := grown_singleton timeGenesis
      valueChain := grown_singleton valueGenesis
      timePending := fun _ h => by cases h
      batch := fun _ h => by cases h
      valuePending := fun _ h => by cases h
      valueLink := fun _ h => by cases h
      network := rfl }
  · cases hstart

/-- Every run of a node on its own can be recorded, and the record is what the node holds. -/
theorem ownChains_run {as : List Action} {s₀ : State} {r₀ : Chains}
    (h₀ : OwnChains H keys P Q timeGenesis valueGenesis s₀ r₀)
    (hrun : run H keys as s₀ = some s) (hsolo : Along H keys Solo as s₀) :
    ∃ r, Transition.run (chainStep H keys) as (s₀, r₀) = some (s, r) ∧
      OwnChains H keys P Q timeGenesis valueGenesis s r ∧
      ledger s r = ledger s₀ r₀ ++ as.filterMap Action.added := by
  obtain ⟨r, hr⟩ : ∃ r, Transition.run (chainStep H keys) as (s₀, r₀) = some (s, r) :=
    exists_run_recording hrun _
  refine ⟨r, hr, ?_⟩
  refine run_history (I := fun past x => OwnChains H keys P Q timeGenesis valueGenesis x.1 x.2 ∧
    ledger x.1 x.2 = ledger s₀ r₀ ++ past.filterMap Action.added) []
    (fun past x a y hx hC hy => ?_) hr (hsolo.recording _) ⟨h₀, by simp⟩
  obtain ⟨m, hm, rfl⟩ := Option.map_eq_some_iff.mp hy
  refine ⟨ownChains_step hx.1 hC hm, ?_⟩
  rw [ledger_step hx.1 hC hm, hx.2, List.filterMap_append, List.append_assoc]
  cases hadded : a.added <;> simp [hadded]

/-- From the start on, all blocks are those of the node. -/
theorem exists_chains_run {G : GenesisBlocks} {as : List Action} {s₀ : State}
    (hstart : start H G = some s₀) (hrun : run H keys as s₀ = some s)
    (hsolo : Along H keys Solo as s₀) :
    ∃ timeGenesis valueGenesis r, G.IsTimeGenesis H.endian timeGenesis ∧
      G.IsValueGenesis H.endian valueGenesis ∧
      OwnChains H keys (OwnTimeBlock H keys) (OwnValueBlock H keys) timeGenesis valueGenesis s r ∧
      ledger s r = as.filterMap Action.added := by
  obtain ⟨timeGenesis, valueGenesis, htime, hvalue, hown, hledger⟩ :=
    ownChains_of_start (fun _ (h : OwnTimeBlock H keys _) => h)
      (fun _ (h : OwnValueBlock H keys _) => h) hstart
  obtain ⟨r, -, hown, hr⟩ := ownChains_run hown hrun hsolo
  rw [hledger, List.nil_append] at hr
  exact ⟨timeGenesis, valueGenesis, r, htime, hvalue, hown, hr⟩

/-- Each store is the map of one chain of blocks: it starts at the genesis block, every later
block was built by the node itself and is linked to the one before it, and the last one is the
latest block. -/
def LinearChains (H : Host) (G : GenesisBlocks) (keys : NodeKeys H) (s : State) : Prop :=
  ∃ timeGenesis valueGenesis timeBlocks valueBlocks, G.IsTimeGenesis H.endian timeGenesis ∧
    G.IsValueGenesis H.endian valueGenesis ∧
    Grown TimeBlock.hash TimeBlock.previousHash timeGenesis (OwnTimeBlock H keys) timeBlocks ∧
    Grown ValueBlock.hash ValueBlock.previousHash valueGenesis (OwnValueBlock H keys)
      valueBlocks ∧
    Represents H.endian s.timeStorage (LatestMap.ofList BlockType.getHash timeBlocks) ∧
    Represents H.endian s.valueStorage (LatestMap.ofList BlockType.getHash valueBlocks)

/-- The stores are the maps of two such chains, and the payments of this value chain behind its
genesis block, block after block and without the coinbase transactions, then those of the batch
under production, then the pool, are the given transactions in their order. -/
def HoldsInOrder (H : Host) (G : GenesisBlocks) (keys : NodeKeys H) (added : List Transaction)
    (s : State) : Prop :=
  ∃ timeGenesis valueGenesis timeBlocks valueBlocks, G.IsTimeGenesis H.endian timeGenesis ∧
    G.IsValueGenesis H.endian valueGenesis ∧
    Grown TimeBlock.hash TimeBlock.previousHash timeGenesis (OwnTimeBlock H keys) timeBlocks ∧
    Grown ValueBlock.hash ValueBlock.previousHash valueGenesis (OwnValueBlock H keys)
      (valueGenesis :: valueBlocks) ∧
    Represents H.endian s.timeStorage (LatestMap.ofList BlockType.getHash timeBlocks) ∧
    Represents H.endian s.valueStorage
      (LatestMap.ofList BlockType.getHash (valueGenesis :: valueBlocks)) ∧
    (s.valueLoop.transactions = [] ∨ OwnBatch H keys s.valueLoop.transactions) ∧
    valueBlocks.flatMap (fun block => payments block.transactions) ++
      payments s.valueLoop.transactions ++ s.transactionPool = added

theorem HoldsInOrder.linearChains {G : GenesisBlocks} {added : List Transaction}
    (h : HoldsInOrder H G keys added s) : LinearChains H G keys s := by
  obtain ⟨timeGenesis, valueGenesis, timeBlocks, valueBlocks, htime, hvalue, htimeChain,
    hvalueChain, htimeStorage, hvalueStorage, -⟩ := h
  exact ⟨timeGenesis, valueGenesis, timeBlocks, valueGenesis :: valueBlocks, htime, hvalue,
    htimeChain, hvalueChain, htimeStorage, hvalueStorage⟩

/-- What the value loop has in its hands begins with a coinbase transaction. -/
theorem OwnChains.batch_cases
    (h : OwnChains H keys P (OwnValueBlock H keys) timeGenesis valueGenesis s r) :
    s.valueLoop.transactions = [] ∨ OwnBatch H keys s.valueLoop.transactions := by
  cases hphase : s.valueLoop with
  | idle => exact .inl rfl
  | eligible => exact .inl rfl
  | storing block => exact .inr (h.valuePending block hphase).1
  | _ => exact .inr (h.batch _ (by rw [hphase]; rfl))

theorem OwnChains.holdsInOrder {G : GenesisBlocks}
    (h : OwnChains H keys (OwnTimeBlock H keys) (OwnValueBlock H keys) timeGenesis valueGenesis s r)
    (htime : G.IsTimeGenesis H.endian timeGenesis)
    (hvalue : G.IsValueGenesis H.endian valueGenesis) :
    HoldsInOrder H G keys (ledger s r) s := by
  have hchain := h.valueChain.eq_cons_tail
  refine ⟨timeGenesis, valueGenesis, r.timeBlocks, r.valueBlocks.tail, htime, hvalue, h.timeChain,
    ?_, h.timeStorage, ?_, h.batch_cases, rfl⟩
  · rw [← hchain]
    exact h.valueChain
  · rw [← hchain]
    exact h.valueStorage

/-- **A node on its own holds two linear chains**, in every run in which no block is received
and no file operation of a store fails. -/
theorem linearChains_run {G : GenesisBlocks} {as : List Action} {s₀ : State}
    (hstart : start H G = some s₀) (hrun : run H keys as s₀ = some s)
    (hsolo : Along H keys Solo as s₀) : LinearChains H G keys s := by
  obtain ⟨timeGenesis, valueGenesis, r, htime, hvalue, hown, -⟩ :=
    exists_chains_run hstart hrun hsolo
  exact (hown.holdsInOrder htime hvalue).linearChains

/-- **The ledger is kept in order**: in every such run the node holds, in its value chain, its
batch and its pool, exactly the transactions that were added, each as often as it was added and in
the order of addition. -/
theorem holdsInOrder_run {G : GenesisBlocks} {as : List Action} {s₀ : State}
    (hstart : start H G = some s₀) (hrun : run H keys as s₀ = some s)
    (hsolo : Along H keys Solo as s₀) : HoldsInOrder H G keys (as.filterMap Action.added) s := by
  obtain ⟨timeGenesis, valueGenesis, r, htime, hvalue, hown, hledger⟩ :=
    exists_chains_run hstart hrun hsolo
  rw [← hledger]
  exact hown.holdsInOrder htime hvalue

/-- Two blocks with a payment each, a time block before the second one, and a payment that
waits. -/
def soloSteps : List Action :=
  .addTransaction (payment paymentSignature) :: produceValueSteps .ok ++
    [.produceTime 0 7, .storeProducedTime .ok, .addTransaction (payment (zeros 64))] ++
    produceValueSteps .ok ++ [.addTransaction (payment paymentSignature)]

theorem conforms_soloSteps :
    Conforms tagHost shippedGenesis tagKeys Solo soloSteps (fun _ => true) = true := by
  decide +kernel

theorem linearChains_run_solo :
    ∃ s₀ s, start tagHost shippedGenesis = some s₀ ∧
      run tagHost tagKeys soloSteps s₀ = some s ∧
      LinearChains tagHost shippedGenesis tagKeys s := by
  obtain ⟨s₀, s, hstart, hrun, -, hsolo⟩ := exists_run_of_conforms conforms_soloSteps
  exact ⟨s₀, s, hstart, hrun, linearChains_run hstart hrun hsolo⟩

theorem holdsInOrder_run_solo :
    ∃ s₀ s, start tagHost shippedGenesis = some s₀ ∧
      run tagHost tagKeys soloSteps s₀ = some s ∧
      HoldsInOrder tagHost shippedGenesis tagKeys (soloSteps.filterMap Action.added) s := by
  obtain ⟨s₀, s, hstart, hrun, -, hsolo⟩ := exists_run_of_conforms conforms_soloSteps
  exact ⟨s₀, s, hstart, hrun, holdsInOrder_run hstart hrun hsolo⟩

end Node

end CoinPlatform
