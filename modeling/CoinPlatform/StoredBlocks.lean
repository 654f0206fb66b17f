/-
# What is in the stores

Invariants of the node that do not depend on what a chain promises.

* `started_of_start`: after a start from empty directories each store holds its genesis
  block and nothing else.
* `timeBlocks_step`, `valueBlocks_step`: a property of blocks that production guarantees,
  and that every received block has when it is stored, is kept by every step for all blocks
  that can be read or are about to be stored.
* `namedByHash_run`: in every run, whatever fails, a block is found under its own hash only.
-/
import CoinPlatform.NodeStep
import CoinPlatform.Recovery

open ByteOrder StdVector

namespace CoinPlatform

namespace Node

variable {H : Host} {G : GenesisBlocks} {keys : NodeKeys H}

/-! ## The start -/

/-- What a start from empty directories leaves. -/
structure Started (H : Host) (G : GenesisBlocks) (s : State) (timeGenesis : TimeBlock)
    (valueGenesis : ValueBlock) : Prop where
  isTimeGenesis : G.IsTimeGenesis H.endian timeGenesis
  isValueGenesis : G.IsValueGenesis H.endian valueGenesis
  timeHash : timeGenesis.hash = G.timeChainGenesisHash
  valueHash : valueGenesis.hash = G.valueChainGenesisHash
  timeStored : ∀ k b, s.timeStorage.Stored H.endian k b ↔ k = timeGenesis.hash ∧ b = timeGenesis
  timeLatest : s.timeStorage.IsLatest H.endian timeGenesis
  valueStored : ∀ k b,
    s.valueStorage.Stored H.endian k b ↔ k = valueGenesis.hash ∧ b = valueGenesis
  valueLatest : s.valueStorage.IsLatest H.endian valueGenesis
  transactionPool : s.transactionPool = []
  timeLoop : s.timeLoop = .idle
  valueLoop : s.valueLoop = .idle
  network : s.network = .idle

theorem started_of_start {s : State} (h : start H G = some s) :
    ∃ timeGenesis valueGenesis, Started H G s timeGenesis valueGenesis := by
  unfold start at h
  split at h
  · rename_i timeStorage valueStorage htime hvalue
    cases h
    obtain ⟨timeGenesis, hisTime, htimeHash, htime⟩ :=
      TimeChainConsensus.initializeChain_of_empty (fun _ => rfl) htime
    obtain ⟨valueGenesis, hisValue, hvalueHash, hvalue⟩ :=
      ValueChainConsensus.initializeChain_of_empty (fun _ => rfl) hvalue
    exact ⟨timeGenesis, valueGenesis, {
      isTimeGenesis := hisTime
      isValueGenesis := hisValue
      timeHash := htimeHash
      valueHash := hvalueHash
      timeStored := FileStorage.stored_storeBlock_of_empty (fun _ => rfl) htime
      timeLatest := FileStorage.isLatest_storeBlock htime
      valueStored := FileStorage.stored_storeBlock_of_empty (fun _ => rfl) hvalue
      valueLatest := FileStorage.isLatest_storeBlock hvalue
      transactionPool := rfl
      timeLoop := rfl
      valueLoop := rfl
      network := rfl }⟩
  · cases h

theorem Started.eq_of_readable_time {s : State} {timeGenesis b : TimeBlock}
    {valueGenesis : ValueBlock} (hs : Started H G s timeGenesis valueGenesis)
    (hb : s.timeStorage.Readable H.endian b) : b = timeGenesis := by
  rcases hb with ⟨k, hb⟩ | hb
  · exact ((hs.timeStored k b).mp hb).2
  · exact hb.unique hs.timeLatest

theorem Started.eq_of_readable_value {s : State} {timeGenesis : TimeBlock}
    {valueGenesis b : ValueBlock} (hs : Started H G s timeGenesis valueGenesis)
    (hb : s.valueStorage.Readable H.endian b) : b = valueGenesis := by
  rcases hb with ⟨k, hb⟩ | hb
  · exact ((hs.valueStored k b).mp hb).2
  · exact hb.unique hs.valueLatest

/-! ## Properties of blocks -/

/-- Every time block that can be read, or that the time loop is about to store, has the
property. -/
structure TimeBlocks (H : Host) (P : TimeBlock → Prop) (s : State) : Prop where
  readable : ∀ b, s.timeStorage.Readable H.endian b → P b
  pending : ∀ b, s.timeLoop = .storing b → P b

/-- Every value block that can be read, or that the value loop is about to store, has the
property `P`, and every list of transactions the value loop builds a block from has `Q`. -/
structure ValueBlocks (H : Host) (P : ValueBlock → Prop) (Q : List Transaction → Prop)
    (s : State) : Prop where
  readable : ∀ b, s.valueStorage.Readable H.endian b → P b
  pending : ∀ b, s.valueLoop = .storing b → P b
  gathered : ∀ transactions, s.valueLoop.gathered? = some transactions → Q transactions

theorem timeBlocks_step {P : TimeBlock → Prop} {a : Action} {s t : State}
    (hcreate : ∀ latestBlock currentTime b,
      TimeChainConsensus.createBlock H keys latestBlock currentTime = .ok b → P b)
    (hreceive : ∀ io b, a = .storeReceivedTime io → s.network = .storingTime b → P b)
    (hs : TimeBlocks H P s) (h : step H keys a s = some t) : TimeBlocks H P t := by
  obtain ⟨hread, hpending⟩ := hs
  constructor
  · intro b hb
    rcases timeStorage_cases h with heq | ⟨x, io, ok, hstore, hx⟩
    · exact hread b (heq ▸ hb)
    · rcases FileStorage.readable_of_storeBlock hstore hb with rfl | hb
      -- the block has just been stored, by the time loop or by the network thread
      · rcases hx with ⟨-, hx⟩ | ⟨ha, hx⟩
        · exact hpending b hx
        · exact hreceive io b ha hx
      · exact hread b hb
  · intro b hb
    rcases timeLoop_storing h hb with hb | ⟨_, currentTime, latestBlock, -, -, hb⟩
    · exact hpending b hb
    · exact hcreate latestBlock currentTime b hb

theorem valueBlocks_step {P : ValueBlock → Prop} {Q : List Transaction → Prop} {a : Action}
    {s t : State}
    (hgather : ∀ coinbase, a = .gather →
      ValueChainConsensus.coinbaseTransaction H keys = .ok coinbase →
      Q (coinbase :: s.transactionPool))
    (hcreate : ∀ latestBlock timeBlockHash currentTime transactions b, Q transactions →
      ValueChainConsensus.createBlock H keys latestBlock timeBlockHash currentTime transactions
        = .ok b → P b)
    (hreceive : ∀ io b, a = .storeReceivedValue io → s.network = .storingValue b → P b)
    (hs : ValueBlocks H P Q s) (h : step H keys a s = some t) : ValueBlocks H P Q t := by
  obtain ⟨hread, hpending, hgathered⟩ := hs
  refine ⟨?_, ?_, ?_⟩
  · intro b hb
    rcases valueStorage_cases h with heq | ⟨x, io, ok, hstore, hx⟩
    · exact hread b (heq ▸ hb)
    · rcases FileStorage.readable_of_storeBlock hstore hb with rfl | hb
      · rcases hx with ⟨-, hx⟩ | ⟨ha, hx⟩
        · exact hpending b hx
        · exact hreceive io b ha hx
      · exact hread b hb
  · intro b hb
    rcases valueLoop_storing h hb with hb |
        ⟨transactions, latestBlock, currentTime, timeBlockHash, -, hphase, -, hb⟩
    · exact hpending b hb
    · -- the transactions of the new block were gathered earlier in the call
      have hQ : Q transactions := hgathered transactions (by rw [hphase]; rfl)
      exact hcreate latestBlock timeBlockHash currentTime transactions b hQ hb
  · intro transactions htxs
    rcases valueLoop_gathered h htxs with htxs | ⟨coinbase, ha, hcoinbase, rfl⟩
    · exact hgathered transactions htxs
    · exact hgather coinbase ha hcoinbase

/-! ## Names -/

/-- A block is found under its own hash only. -/
def NamedByHash (H : Host) (s : State) : Prop :=
  (∀ k b, s.timeStorage.Stored H.endian k b → b.hash = k) ∧
    ∀ k b, s.valueStorage.Stored H.endian k b → b.hash = k

theorem namedByHash_step {a : Action} {s t : State} (hs : NamedByHash H s)
    (h : step H keys a s = some t) : NamedByHash H t := by
  constructor
  · intro k b hb
    rcases timeStorage_cases h with heq | ⟨x, io, ok, hstore, -⟩
    · exact hs.1 k b (heq ▸ hb)
    · rcases FileStorage.stored_of_storeBlock hstore hb with ⟨hk, rfl, -⟩ | ⟨hb, -⟩
      · exact hk.symm
      · exact hs.1 k b hb
  · intro k b hb
    rcases valueStorage_cases h with heq | ⟨x, io, ok, hstore, -⟩
    · exact hs.2 k b (heq ▸ hb)
    · rcases FileStorage.stored_of_storeBlock hstore hb with ⟨hk, rfl, -⟩ | ⟨hb, -⟩
      · exact hk.symm
      · exact hs.2 k b hb

theorem Started.namedByHash {s : State} {timeGenesis : TimeBlock} {valueGenesis : ValueBlock}
    (hs : Started H G s timeGenesis valueGenesis) : NamedByHash H s := by
  constructor
  · intro k b hb
    obtain ⟨rfl, rfl⟩ := (hs.timeStored k b).mp hb
    rfl
  · intro k b hb
    obtain ⟨rfl, rfl⟩ := (hs.valueStored k b).mp hb
    rfl

/-- **In every run, whatever fails, a block is found under its own hash only.** -/
theorem namedByHash_run {as : List Action} {s₀ s : State} (hstart : start H G = some s₀)
    (hrun : run H keys as s₀ = some s) : NamedByHash H s := by
  obtain ⟨timeGenesis, valueGenesis, hs₀⟩ := started_of_start hstart
  exact Transition.run_invariant (fun s a t hs _ h => namedByHash_step hs h) hrun
    (Transition.along_of_forall (C := fun _ _ => True) (fun _ _ => trivial) as s₀)
    hs₀.namedByHash

end Node

end CoinPlatform
