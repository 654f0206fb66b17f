/-
# Value chain consensus

`ValueChainConsensus` of `consensus/value_chain_consensus.cpp`, as functions of the two
storages and the transaction pool.  The current time of the value chain is the time of the
latest time block.

`createBlock_eq_ok` and `gatherTransactions_eq_ok` say what a producer builds,
`validateBlock_eq_true` what a receiver asks of a block.  Both sides take the pooled
transactions as they are: they are checked by the receiver only.
-/
import CoinPlatform.TimeChainConsensus

open ByteOrder StdVector

namespace CoinPlatform

namespace ValueChainConsensus

variable (H : Host) (G : GenesisBlocks) (keys : NodeKeys H)

/-- `initialize`: an empty chain starts with the genesis block. -/
def initializeChain (storage : FileStorage ValueBlock) (io : WriteOutcome) :
    Except Fault (Bool × FileStorage ValueBlock) := do
  match ← storage.getLatestBlock H.endian with
  | some _ => return (true, storage)
  | none =>
    let (ok, genesisBlock) ←
      ValueBlock.empty.deserialize H.endian G.valueChainGenesisBlockData
    if !ok then return (false, storage)
    if genesisBlock.hash ≠ G.valueChainGenesisHash then return (false, storage)
    storage.storeBlock H.endian genesisBlock io

/-- `get_current_time`: the time of the latest time block, 0 when there is none. -/
def getCurrentTime (timeStorage : FileStorage TimeBlock) : Except Fault UInt64 := do
  match ← TimeChain.getLatestBlock H.endian timeStorage with
  | some latestTimeBlock => return latestTimeBlock.time
  | none => return 0

/-! ## Validation -/

/-- `verify_time_reference`: the time block exists and the time is not in the future. -/
def verifyTimeReference (timeStorage : FileStorage TimeBlock) (block : ValueBlock) :
    Except Fault Bool := do
  if !TimeChain.blockExists timeStorage block.timeBlockHash then return false
  let currentTime ← getCurrentTime H timeStorage
  if currentTime < block.time then return false
  return true

def verifyTransactions (block : ValueBlock) : Bool := block.transactions.all (·.verify H)

def verifySignature (block : ValueBlock) : Bool :=
  CoinPlatform.verifySignature H (block.getDataToSign H.endian) block.signature block.publicKey

def validateBlock (timeStorage : FileStorage TimeBlock) (block : ValueBlock) :
    Except Fault Bool := do
  if !(← verifyTimeReference H timeStorage block) then return false
  if !verifyTransactions H block then return false
  if !verifySignature H block then return false
  return true

/-! ## The transaction pool -/

def addTransaction (transactionPool : List Transaction) (transaction : Transaction) :
    List Transaction :=
  transactionPool ++ [transaction]

/-- The coinbase transaction of a new block: 50 coins for the producer. -/
def coinbaseTransaction : Except Fault Transaction := do
  let coinbase := Transaction.new H (zeros 32) keys.publicKey 50 []
  let signature ← signMessage H (coinbase.getDataToSign H.endian) keys.privateKey
  return coinbase.setSignature H signature

/-- `gather_transactions`: the transactions for a block, and the pool left. -/
def gatherTransactions (transactionPool : List Transaction) :
    Except Fault (List Transaction × List Transaction) := do
  if transactionPool.isEmpty then return ([], transactionPool)
  let coinbase ← coinbaseTransaction H keys
  -- no transaction is looked at on its way from the pool into the block
  return (coinbase :: transactionPool, [])

/-- The loop of `handle_block` that takes the transactions of a block out of the pool. -/
def removeTransactions (transactionPool : List Transaction) (transactions : List Transaction) :
    List Transaction :=
  transactions.foldl (fun pool tx => pool.filter (· ≠ tx)) transactionPool

/-! ## Producing and receiving -/

/-- `is_eligible_to_produce_block`: one number in a hundred, and up to as many again
depending on the current time. -/
def isEligibleToProduceBlock (currentTime randomNumber : UInt64) : Bool :=
  let threshold : UInt64 := 0xFFFFFFFFFFFFFFFF / 100
  let adjustedThreshold := threshold + currentTime % threshold
  decide (randomNumber < adjustedThreshold)

/-- The part of `produce_block` between its last read and storing. -/
def createBlock (latestBlock : Option ValueBlock) (timeBlockHash : Hash) (currentTime : UInt64)
    (transactions : List Transaction) : Except Fault ValueBlock := do
  let block := ValueBlock.new H (latestBlockHash latestBlock) timeBlockHash currentTime
    transactions keys.publicKey
  let signature ← signMessage H (block.getDataToSign H.endian) keys.privateKey
  return block.setSignature H signature

/-- `produce_block`: the block returned, the storage and the pool left. -/
def produceBlock (timeStorage : FileStorage TimeBlock) (storage : FileStorage ValueBlock)
    (transactionPool : List Transaction) (randomNumber : UInt64) (io : WriteOutcome) :
    Except Fault (Option ValueBlock × FileStorage ValueBlock × List Transaction) := do
  if !isEligibleToProduceBlock (← getCurrentTime H timeStorage) randomNumber then
    return (none, storage, transactionPool)
  let (transactions, transactionPool) ← gatherTransactions H keys transactionPool
  if transactions.isEmpty then return (none, storage, transactionPool)
  let latestBlock ← storage.getLatestBlock H.endian
  let currentTime ← getCurrentTime H timeStorage
  let timeBlockHash ← TimeChain.getLatestBlockHash H.endian timeStorage
  let block ← createBlock H keys latestBlock timeBlockHash currentTime transactions
  let (ok, storage) ← storage.storeBlock H.endian block io
  -- a block that was not stored is dropped with its transactions
  return (if ok then some block else none, storage, transactionPool)

/-- `handle_block`: the pool is purged only after the block has been stored. -/
def handleBlock (timeStorage : FileStorage TimeBlock) (storage : FileStorage ValueBlock)
    (transactionPool : List Transaction) (block : ValueBlock) (io : WriteOutcome) :
    Except Fault (FileStorage ValueBlock × List Transaction) := do
  if ← validateBlock H timeStorage block then
    let (ok, storage) ← storage.storeBlock H.endian block io
    if ok then return (storage, removeTransactions transactionPool block.transactions)
    else return (storage, transactionPool)
  else return (storage, transactionPool)

/-! ## What the functions do -/

/-- Purging removes exactly the transactions of the block, all copies of each. -/
theorem removeTransactions_eq_filter (transactionPool transactions : List Transaction) :
    removeTransactions transactionPool transactions
      = transactionPool.filter (fun tx => decide (tx ∉ transactions)) := by
  unfold removeTransactions
  induction transactions generalizing transactionPool with
  | nil => simp
  | cons tx transactions ih =>
      rw [List.foldl_cons, ih, List.filter_filter]
      congr 1
      funext t
      by_cases ht : t = tx <;> simp [ht]

variable {H G keys}

theorem getCurrentTime_of_isLatest {timeStorage : FileStorage TimeBlock} {latest : TimeBlock}
    (h : timeStorage.IsLatest H.endian latest) :
    getCurrentTime H timeStorage = .ok latest.time := by
  unfold getCurrentTime TimeChain.getLatestBlock
  rw [h]
  rfl

theorem verifyTimeReference_eq_true {timeStorage : FileStorage TimeBlock}
    {block : ValueBlock} :
    verifyTimeReference H timeStorage block = .ok true ↔
      timeStorage.blockExists block.timeBlockHash = true ∧
      ∃ currentTime, getCurrentTime H timeStorage = .ok currentTime ∧
        block.time ≤ currentTime := by
  unfold verifyTimeReference TimeChain.blockExists
  cases hexists : timeStorage.blockExists block.timeBlockHash with
  | false => simp [pure, Except.pure]
  | true =>
      cases hnow : getCurrentTime H timeStorage with
      | error fault => simp [bind, Except.bind]
      | ok currentTime =>
          simp only [Bool.not_true, Bool.false_eq_true, if_false, bind, Except.bind, pure,
            Except.pure, true_and, Except.ok.injEq, exists_eq_left']
          by_cases hlt : currentTime < block.time
          · rw [if_pos hlt]
            simpa using hlt
          · rw [if_neg hlt]
            simpa using hlt

/-- **What a receiver asks of a value block**: a time block that exists, a time that is not
in the future, valid transactions and a signature.  Neither its hash nor its previous hash
is looked at. -/
theorem validateBlock_eq_true {timeStorage : FileStorage TimeBlock} {block : ValueBlock} :
    validateBlock H timeStorage block = .ok true ↔
      (timeStorage.blockExists block.timeBlockHash = true ∧
        ∃ currentTime, getCurrentTime H timeStorage = .ok currentTime ∧
          block.time ≤ currentTime) ∧
      (∀ tx ∈ block.transactions, tx.verify H = true) ∧ verifySignature H block = true := by
  have htxs : (∀ tx ∈ block.transactions, tx.verify H = true) ↔
      verifyTransactions H block = true := by
    simp [verifyTransactions, List.all_eq_true]
  rw [htxs, ← verifyTimeReference_eq_true]
  unfold validateBlock
  cases href : verifyTimeReference H timeStorage block with
  | error fault => simp [bind, Except.bind]
  | ok v =>
      cases v <;> cases htx : verifyTransactions H block <;>
        cases hsig : verifySignature H block <;> simp [bind, Except.bind, pure, Except.pure]

/-- The coinbase transaction has the zero sender, 50 coins for the producer, no data and its
own hash. -/
theorem coinbaseTransaction_eq_ok {coinbase : Transaction}
    (h : coinbaseTransaction H keys = .ok coinbase) :
    coinbase.senderPublicKey = zeros 32 ∧ coinbase.recipientPublicKey = keys.publicKey ∧
      coinbase.amount = 50 ∧ coinbase.data = [] ∧ coinbase.HashCorrect H := by
  obtain ⟨signature, -, hcoinbase⟩ := bind_eq_ok.mp h
  obtain rfl := Except.ok.inj hcoinbase
  exact ⟨rfl, rfl, rfl, rfl, Transaction.hashCorrect_setSignature H _ signature⟩

theorem isCoinbaseTransaction_coinbaseTransaction {coinbase : Transaction}
    (h : coinbaseTransaction H keys = .ok coinbase) :
    coinbase.isCoinbaseTransaction = true := by
  rw [Transaction.isCoinbaseTransaction, (coinbaseTransaction_eq_ok h).1]
  rfl

/-- **What is gathered**: nothing from an empty pool, else the coinbase transaction and the
whole pool, which is left empty. -/
theorem gatherTransactions_eq_ok {transactionPool transactions left : List Transaction}
    (h : gatherTransactions H keys transactionPool = .ok (transactions, left)) :
    left = [] ∧ ((transactionPool = [] ∧ transactions = []) ∨
      ∃ coinbase, coinbaseTransaction H keys = .ok coinbase ∧
        transactions = coinbase :: transactionPool) := by
  cases transactionPool with
  | nil => cases h; exact ⟨rfl, .inl ⟨rfl, rfl⟩⟩
  | cons tx txs =>
      obtain ⟨coinbase, hcoinbase, h⟩ := bind_eq_ok.mp h
      cases h
      exact ⟨rfl, .inr ⟨coinbase, hcoinbase, rfl⟩⟩

/-- **What a producer builds** from its last reads and the gathered transactions. -/
theorem createBlock_eq_ok {latestBlock : Option ValueBlock} {timeBlockHash : Hash}
    {currentTime : UInt64} {transactions : List Transaction} {block : ValueBlock}
    (h : createBlock H keys latestBlock timeBlockHash currentTime transactions = .ok block) :
    ∃ signature,
      signMessage H ((ValueBlock.new H (latestBlockHash latestBlock) timeBlockHash currentTime
        transactions keys.publicKey).getDataToSign H.endian) keys.privateKey = .ok signature ∧
      block = (ValueBlock.new H (latestBlockHash latestBlock) timeBlockHash currentTime
        transactions keys.publicKey).setSignature H signature := by
  obtain ⟨signature, hsig, hblock⟩ := bind_eq_ok.mp h
  exact ⟨signature, hsig, (Except.ok.inj hblock).symm⟩

section CreateBlock

variable {latestBlock : Option ValueBlock} {timeBlockHash : Hash} {currentTime : UInt64}
  {transactions : List Transaction} {block : ValueBlock}

/-- The fields of a produced block that are not computed. -/
theorem fields_createBlock
    (h : createBlock H keys latestBlock timeBlockHash currentTime transactions = .ok block) :
    block.previousHash = latestBlockHash latestBlock ∧ block.timeBlockHash = timeBlockHash ∧
      block.time = currentTime ∧ block.transactions = transactions ∧
      block.publicKey = keys.publicKey := by
  obtain ⟨signature, -, rfl⟩ := createBlock_eq_ok h
  exact ⟨rfl, rfl, rfl, rfl, rfl⟩

/-- A produced block carries its own hash. -/
theorem hashCorrect_createBlock
    (h : createBlock H keys latestBlock timeBlockHash currentTime transactions = .ok block) :
    block.HashCorrect H := by
  obtain ⟨signature, -, rfl⟩ := createBlock_eq_ok h
  exact ValueBlock.hashCorrect_setSignature H _ signature

/-- A produced block is validly signed. -/
theorem verifySignature_createBlock (hH : H.secp256k1.Correct)
    (h : createBlock H keys latestBlock timeBlockHash currentTime transactions = .ok block) :
    verifySignature H block = true := by
  obtain ⟨signature, hsig, rfl⟩ := createBlock_eq_ok h
  exact verifySignature_signMessage H hH keys.derived hsig

end CreateBlock

/-- `produce_block` returns a block when it was eligible, the pool was not empty, and it has
built the block on its reads, and `store_block` has answered that it is stored. -/
theorem produceBlock_eq_some {timeStorage : FileStorage TimeBlock}
    {storage storage' : FileStorage ValueBlock} {transactionPool left : List Transaction}
    {randomNumber : UInt64} {io : WriteOutcome} {block : ValueBlock}
    (h : produceBlock H keys timeStorage storage transactionPool randomNumber io
      = .ok (some block, storage', left)) :
    left = [] ∧ io.answer = true ∧
      ∃ coinbase latestBlock currentTime timeBlockHash,
        coinbaseTransaction H keys = .ok coinbase ∧
        storage.getLatestBlock H.endian = .ok latestBlock ∧
        getCurrentTime H timeStorage = .ok currentTime ∧
        TimeChain.getLatestBlockHash H.endian timeStorage = .ok timeBlockHash ∧
        createBlock H keys latestBlock timeBlockHash currentTime (coinbase :: transactionPool)
          = .ok block ∧
        storage.storeBlock H.endian block io = .ok (true, storage') := by
  obtain ⟨now, hnow, h⟩ := bind_eq_ok.mp h
  cases hel : isEligibleToProduceBlock now randomNumber with
  | false => rw [hel] at h; cases h
  | true =>
      rw [hel] at h
      obtain ⟨⟨transactions, pool⟩, hgather, h⟩ := bind_eq_ok.mp h
      obtain ⟨rfl, ⟨-, rfl⟩ | ⟨coinbase, hcoinbase, rfl⟩⟩ := gatherTransactions_eq_ok hgather
      · cases h
      · obtain ⟨latestBlock, hlatest, h⟩ := bind_eq_ok.mp h
        obtain ⟨currentTime, htime, h⟩ := bind_eq_ok.mp h
        obtain ⟨timeBlockHash, hhash, h⟩ := bind_eq_ok.mp h
        obtain ⟨block', hcreate, h⟩ := bind_eq_ok.mp h
        obtain ⟨⟨ok, storage''⟩, hstore, h⟩ := bind_eq_ok.mp h
        cases ok with
        | false => cases h
        | true =>
            cases h
            have hanswer := (FileStorage.storeBlock_cases hstore).1
            exact ⟨rfl, hanswer.symm, coinbase, latestBlock, currentTime, timeBlockHash, hcoinbase,
              hlatest, htime, hhash, hcreate, hstore⟩

end ValueChainConsensus

end CoinPlatform
