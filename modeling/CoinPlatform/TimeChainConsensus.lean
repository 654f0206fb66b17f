/-
# Time chain consensus

`TimeChainConsensus` of `consensus/time_chain_consensus.cpp` and the `TimeChain` of
`time_chain/time_chain.cpp`, as functions of the time storage.  The random number, the
clock reading and the outcome of the file operations are arguments.

`produce_block` never looks at its clock reading: `createBlock_eq_ok` says what it builds
from any latest block and any reading, and `validateBlock_eq_true` what a receiver asks of
a block; only the second one compares times.
-/
import CoinPlatform.FileStorage
import CoinPlatform.GenesisBlocks

open ByteOrder StdVector

namespace CoinPlatform

namespace TimeChain

variable (e : Endian) (storage : FileStorage TimeBlock)

def getLatestBlock : Except Fault (Option TimeBlock) := storage.getLatestBlock e

def getLatestBlockHash : Except Fault Hash := do
  return latestBlockHash (← getLatestBlock e storage)

def blockExists (blockHash : Hash) : Bool := storage.blockExists blockHash

end TimeChain

namespace TimeChainConsensus

variable (H : Host) (G : GenesisBlocks) (keys : NodeKeys H)

/-- `initialize`: an empty chain starts with the genesis block. -/
def initializeChain (storage : FileStorage TimeBlock) (io : WriteOutcome) :
    Except Fault (Bool × FileStorage TimeBlock) := do
  match ← storage.getLatestBlock H.endian with
  | some _ => return (true, storage)
  | none =>
    let (ok, genesisBlock) ←
      TimeBlock.empty.deserialize H.endian G.timeChainGenesisBlockData
    if !ok then return (false, storage)
    -- the hash field of the decoded block is compared, it is not computed again
    if genesisBlock.hash ≠ G.timeChainGenesisHash then return (false, storage)
    storage.storeBlock H.endian genesisBlock io

/-- `verify_time`: the time increases over the latest block, if there is one. -/
def verifyTime (storage : FileStorage TimeBlock) (block : TimeBlock) : Except Fault Bool := do
  match ← storage.getLatestBlock H.endian with
  | some latestBlock => return !decide (block.time ≤ latestBlock.time)
  | none => return true

def verifySignature (block : TimeBlock) : Bool :=
  CoinPlatform.verifySignature H (block.getDataToSign H.endian) block.signature block.publicKey

def validateBlock (storage : FileStorage TimeBlock) (block : TimeBlock) :
    Except Fault Bool := do
  if !(← verifyTime H storage block) then return false
  if !verifySignature H block then return false
  return true

/-- `is_eligible_to_produce_block`: one number in ten. -/
def isEligibleToProduceBlock (randomNumber : UInt64) : Bool :=
  decide (randomNumber < 0xFFFFFFFFFFFFFFFF / 10)

/-- The part of `produce_block` between reading the latest block and storing. -/
def createBlock (latestBlock : Option TimeBlock) (currentTime : TimePoint) :
    Except Fault TimeBlock := do
  let block := TimeBlock.new H (latestBlockHash latestBlock) currentTime keys.publicKey
  let signature ← signMessage H (block.getDataToSign H.endian) keys.privateKey
  return block.setSignature H signature

/-- `produce_block`: the block returned and the storage left. -/
def produceBlock (storage : FileStorage TimeBlock) (randomNumber : UInt64)
    (currentTime : TimePoint) (io : WriteOutcome) :
    Except Fault (Option TimeBlock × FileStorage TimeBlock) := do
  if !isEligibleToProduceBlock randomNumber then return (none, storage)
  -- the latest block gives the previous hash; its time is not looked at
  let latestBlock ← storage.getLatestBlock H.endian
  let block ← createBlock H keys latestBlock currentTime
  let (ok, storage) ← storage.storeBlock H.endian block io
  return (if ok then some block else none, storage)

/-- `handle_block`. -/
def handleBlock (storage : FileStorage TimeBlock) (block : TimeBlock) (io : WriteOutcome) :
    Except Fault (FileStorage TimeBlock) := do
  if ← validateBlock H storage block then
    let (_, storage) ← storage.storeBlock H.endian block io
    return storage
  else return storage

/-! ## What the functions do -/

variable {H G keys}

theorem verifyTime_eq_true {storage : FileStorage TimeBlock} {block : TimeBlock} :
    verifyTime H storage block = .ok true ↔
      ∃ latest, storage.getLatestBlock H.endian = .ok latest ∧
        ∀ b, latest = some b → b.time < block.time := by
  unfold verifyTime
  cases hlatest : storage.getLatestBlock H.endian with
  | error fault => simp [bind, Except.bind]
  | ok latest =>
      cases latest with
      | none => simp [bind, Except.bind, pure, Except.pure]
      | some b => simp [bind, Except.bind, pure, Except.pure]

/-- **What a receiver asks of a time block**: a later time than that of the latest block,
and a signature.  Neither its hash nor its previous hash is looked at. -/
theorem validateBlock_eq_true {storage : FileStorage TimeBlock} {block : TimeBlock} :
    validateBlock H storage block = .ok true ↔
      (∃ latest, storage.getLatestBlock H.endian = .ok latest ∧
        ∀ b, latest = some b → b.time < block.time) ∧
      verifySignature H block = true := by
  rw [← verifyTime_eq_true]
  unfold validateBlock
  cases hverify : verifyTime H storage block with
  | error fault => simp [bind, Except.bind]
  | ok v =>
      cases v <;> cases hsig : verifySignature H block <;>
        simp [bind, Except.bind, pure, Except.pure]

/-- **What a producer builds**: a signed block on the latest one, with the clock reading as
its time, whatever that is. -/
theorem createBlock_eq_ok {latestBlock : Option TimeBlock} {currentTime : TimePoint}
    {block : TimeBlock} (h : createBlock H keys latestBlock currentTime = .ok block) :
    ∃ signature,
      signMessage H ((TimeBlock.new H (latestBlockHash latestBlock) currentTime
        keys.publicKey).getDataToSign H.endian) keys.privateKey = .ok signature ∧
      block = (TimeBlock.new H (latestBlockHash latestBlock) currentTime
        keys.publicKey).setSignature H signature := by
  obtain ⟨signature, hsig, hblock⟩ := bind_eq_ok.mp h
  exact ⟨signature, hsig, (Except.ok.inj hblock).symm⟩

/-- A produced block carries its own hash. -/
theorem hashCorrect_createBlock {latestBlock : Option TimeBlock} {currentTime : TimePoint}
    {block : TimeBlock} (h : createBlock H keys latestBlock currentTime = .ok block) :
    block.HashCorrect H := by
  obtain ⟨signature, -, rfl⟩ := createBlock_eq_ok h
  exact TimeBlock.hashCorrect_setSignature H _ signature

/-- A produced block is validly signed. -/
theorem verifySignature_createBlock (hH : H.secp256k1.Correct)
    {latestBlock : Option TimeBlock} {currentTime : TimePoint} {block : TimeBlock}
    (h : createBlock H keys latestBlock currentTime = .ok block) :
    verifySignature H block = true := by
  obtain ⟨signature, hsig, rfl⟩ := createBlock_eq_ok h
  exact verifySignature_signMessage H hH keys.derived hsig

/-- `produce_block` returns a block when it was eligible, has built the block and `store_block`
has answered that it is stored. -/
theorem produceBlock_eq_some {storage storage' : FileStorage TimeBlock} {randomNumber : UInt64}
    {currentTime : TimePoint} {io : WriteOutcome} {block : TimeBlock}
    (h : produceBlock H keys storage randomNumber currentTime io
      = .ok (some block, storage')) :
    isEligibleToProduceBlock randomNumber = true ∧ io.answer = true ∧
      ∃ latestBlock, storage.getLatestBlock H.endian = .ok latestBlock ∧
        createBlock H keys latestBlock currentTime = .ok block ∧
        storage.storeBlock H.endian block io = .ok (true, storage') := by
  unfold produceBlock at h
  cases hel : isEligibleToProduceBlock randomNumber with
  | false => rw [hel] at h; cases h
  | true =>
      rw [hel] at h
      obtain ⟨latestBlock, hlatest, h⟩ := bind_eq_ok.mp h
      obtain ⟨block', hcreate, h⟩ := bind_eq_ok.mp h
      obtain ⟨⟨ok, storage''⟩, hstore, h⟩ := bind_eq_ok.mp h
      cases ok with
      | false => cases h
      | true =>
          cases h
          have hanswer := (FileStorage.storeBlock_cases hstore).1
          exact ⟨rfl, hanswer.symm, latestBlock, hlatest, hcreate, hstore⟩

end TimeChainConsensus

end CoinPlatform
