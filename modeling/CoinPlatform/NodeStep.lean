/-
# What a step of the node can do

`Step` is the graph of the machine's `step`, one constructor for each way a step can go.
The sections after it say what a step can do to each part of the state.
-/
import CoinPlatform.NodeMachine

open ByteOrder StdVector

namespace CoinPlatform

namespace Node

variable (H : Host) (keys : NodeKeys H)

/-! ## The ways a step can go -/

/-- The ways a step can go. -/
inductive Step (s : State) : Action → State → Prop
  | addTransaction (transaction : Transaction) :
      Step s (.addTransaction transaction)
        { s with transactionPool := s.transactionPool ++ [transaction] }
  | notEligibleTime {randomNumber currentTime} (hphase : s.timeLoop = .idle) :
      Step s (.produceTime randomNumber currentTime) s
  | produceTime {randomNumber currentTime latestBlock block} (hphase : s.timeLoop = .idle)
      (hlatest : s.timeStorage.getLatestBlock H.endian = .ok latestBlock)
      (hblock : TimeChainConsensus.createBlock H keys latestBlock currentTime = .ok block) :
      Step s (.produceTime randomNumber currentTime) { s with timeLoop := .storing block }
  | storeProducedTime {io block ok storage} (hphase : s.timeLoop = .storing block)
      (hstore : s.timeStorage.storeBlock H.endian block io = .ok (ok, storage)) :
      Step s (.storeProducedTime io) { s with timeStorage := storage, timeLoop := .idle }
  | notEligibleValue {randomNumber} (hphase : s.valueLoop = .idle) :
      Step s (.produceValue randomNumber) s
  | produceValue {randomNumber} (hphase : s.valueLoop = .idle) :
      Step s (.produceValue randomNumber) { s with valueLoop := .eligible }
  | gatherNothing (hphase : s.valueLoop = .eligible) (hpool : s.transactionPool = []) :
      Step s .gather { s with transactionPool := [], valueLoop := .idle }
  | gather {coinbase} (hphase : s.valueLoop = .eligible)
      (hcoinbase : ValueChainConsensus.coinbaseTransaction H keys = .ok coinbase) :
      Step s .gather
        { s with
          transactionPool := [], valueLoop := .gathered (coinbase :: s.transactionPool) }
  | readLatestValue {transactions latestBlock} (hphase : s.valueLoop = .gathered transactions)
      (hlatest : s.valueStorage.getLatestBlock H.endian = .ok latestBlock) :
      Step s .readLatestValue { s with valueLoop := .linked transactions latestBlock }
  | readTime {transactions latestBlock currentTime}
      (hphase : s.valueLoop = .linked transactions latestBlock)
      (htime : ValueChainConsensus.getCurrentTime H s.timeStorage = .ok currentTime) :
      Step s .readTime { s with valueLoop := .timed transactions latestBlock currentTime }
  | readTimeHash {transactions latestBlock currentTime timeBlockHash block}
      (hphase : s.valueLoop = .timed transactions latestBlock currentTime)
      (hhash : TimeChain.getLatestBlockHash H.endian s.timeStorage = .ok timeBlockHash)
      (hblock : ValueChainConsensus.createBlock H keys latestBlock timeBlockHash currentTime
        transactions = .ok block) :
      Step s .readTimeHash { s with valueLoop := .storing block }
  | storeProducedValue {io block ok storage} (hphase : s.valueLoop = .storing block)
      (hstore : s.valueStorage.storeBlock H.endian block io = .ok (ok, storage)) :
      Step s (.storeProducedValue io) { s with valueStorage := storage, valueLoop := .idle }
  | rejectTime {block} (hphase : s.network = .idle)
      (hvalid : TimeChainConsensus.validateBlock H s.timeStorage block = .ok false) :
      Step s (.receiveTime block) s
  | receiveTime {block} (hphase : s.network = .idle)
      (hvalid : TimeChainConsensus.validateBlock H s.timeStorage block = .ok true) :
      Step s (.receiveTime block) { s with network := .storingTime block }
  | storeReceivedTime {io block ok storage} (hphase : s.network = .storingTime block)
      (hstore : s.timeStorage.storeBlock H.endian block io = .ok (ok, storage)) :
      Step s (.storeReceivedTime io) { s with timeStorage := storage, network := .idle }
  | rejectReference {block} (hphase : s.network = .idle)
      (hexists : s.timeStorage.blockExists block.timeBlockHash = false) :
      Step s (.receiveValue block) s
  | receiveValue {block} (hphase : s.network = .idle)
      (hexists : s.timeStorage.blockExists block.timeBlockHash = true) :
      Step s (.receiveValue block) { s with network := .referenced block }
  | rejectValue {block} (hphase : s.network = .referenced block) :
      Step s .checkValue { s with network := .idle }
  | checkValue {block currentTime} (hphase : s.network = .referenced block)
      (htime : ValueChainConsensus.getCurrentTime H s.timeStorage = .ok currentTime)
      (hpast : ¬ currentTime < block.time)
      (htxs : ValueChainConsensus.verifyTransactions H block = true)
      (hsig : ValueChainConsensus.verifySignature H block = true) :
      Step s .checkValue { s with network := .storingValue block }
  | storeReceivedValue {io block ok storage} (hphase : s.network = .storingValue block)
      (hstore : s.valueStorage.storeBlock H.endian block io = .ok (ok, storage)) :
      Step s (.storeReceivedValue io)
        { s with
          valueStorage := storage, network := if ok then .purging block else .idle }
  | purge {block} (hphase : s.network = .purging block) :
      Step s .purge
        { s with
          transactionPool :=
            ValueChainConsensus.removeTransactions s.transactionPool block.transactions
          network := .idle }

variable {H keys}

/-- **Every step is one of the listed ones.** -/
theorem step_cases {a : Action} {s t : State} (h : step H keys a s = some t) :
    Step H keys s a t := by
  cases a with
  | addTransaction transaction => cases h; exact .addTransaction transaction
  | produceTime randomNumber currentTime =>
      simp only [step] at h
      split at h
      · rename_i hphase
        split at h
        · obtain ⟨latestBlock, hlatest, h⟩ := Option.bind_eq_some_iff.mp h
          obtain ⟨block, hblock, h⟩ := Option.bind_eq_some_iff.mp h
          cases h
          exact .produceTime hphase (toOption_eq_some hlatest) (toOption_eq_some hblock)
        · cases h
          exact .notEligibleTime hphase
      · cases h
  | storeProducedTime io =>
      simp only [step] at h
      split at h
      · rename_i block hphase
        obtain ⟨⟨ok, storage⟩, hstore, h⟩ := Option.bind_eq_some_iff.mp h
        cases h
        exact .storeProducedTime hphase (toOption_eq_some hstore)
      · cases h
  | produceValue randomNumber =>
      simp only [step] at h
      split at h
      · rename_i hphase
        obtain ⟨currentTime, -, h⟩ := Option.bind_eq_some_iff.mp h
        split at h
        · cases h
          exact .produceValue hphase
        · cases h
          exact .notEligibleValue hphase
      · cases h
  | gather =>
      simp only [step] at h
      split at h
      · rename_i hphase
        obtain ⟨⟨transactions, pool⟩, hgather, h⟩ := Option.bind_eq_some_iff.mp h
        obtain ⟨rfl, ⟨hpool, rfl⟩ | ⟨coinbase, hcoinbase, rfl⟩⟩ :=
          ValueChainConsensus.gatherTransactions_eq_ok (toOption_eq_some hgather)
        · cases h
          exact .gatherNothing hphase hpool
        · cases h
          exact .gather hphase hcoinbase
      · cases h
  | readLatestValue =>
      simp only [step] at h
      split at h
      · rename_i transactions hphase
        obtain ⟨latestBlock, hlatest, h⟩ := Option.bind_eq_some_iff.mp h
        cases h
        exact .readLatestValue hphase (toOption_eq_some hlatest)
      · cases h
  | readTime =>
      simp only [step] at h
      split at h
      · rename_i transactions latestBlock hphase
        obtain ⟨currentTime, htime, h⟩ := Option.bind_eq_some_iff.mp h
        cases h
        exact .readTime hphase (toOption_eq_some htime)
      · cases h
  | readTimeHash =>
      simp only [step] at h
      split at h
      · rename_i transactions latestBlock currentTime hphase
        obtain ⟨timeBlockHash, hhash, h⟩ := Option.bind_eq_some_iff.mp h
        obtain ⟨block, hblock, h⟩ := Option.bind_eq_some_iff.mp h
        cases h
        exact .readTimeHash hphase (toOption_eq_some hhash) (toOption_eq_some hblock)
      · cases h
  | storeProducedValue io =>
      simp only [step] at h
      split at h
      · rename_i block hphase
        obtain ⟨⟨ok, storage⟩, hstore, h⟩ := Option.bind_eq_some_iff.mp h
        cases h
        exact .storeProducedValue hphase (toOption_eq_some hstore)
      · cases h
  | receiveTime block =>
      simp only [step] at h
      split at h
      · rename_i hphase
        obtain ⟨valid, hvalid, h⟩ := Option.bind_eq_some_iff.mp h
        cases valid with
        | false => cases h; exact .rejectTime hphase (toOption_eq_some hvalid)
        | true => cases h; exact .receiveTime hphase (toOption_eq_some hvalid)
      · cases h
  | storeReceivedTime io =>
      simp only [step] at h
      split at h
      · rename_i block hphase
        obtain ⟨⟨ok, storage⟩, hstore, h⟩ := Option.bind_eq_some_iff.mp h
        cases h
        exact .storeReceivedTime hphase (toOption_eq_some hstore)
      · cases h
  | receiveValue block =>
      simp only [step] at h
      split at h
      · rename_i hphase
        split at h
        · rename_i hexists
          cases h
          exact .receiveValue hphase hexists
        · rename_i hexists
          cases h
          exact .rejectReference hphase (Bool.eq_false_iff.mpr hexists)
      · cases h
  | checkValue =>
      simp only [step] at h
      split at h
      · rename_i block hphase
        obtain ⟨currentTime, htime, h⟩ := Option.bind_eq_some_iff.mp h
        split at h
        · cases h
          exact .rejectValue hphase
        rename_i hpast
        cases htxs : ValueChainConsensus.verifyTransactions H block with
        | false =>
            rw [htxs] at h
            cases h
            exact .rejectValue hphase
        | true =>
            cases hsig : ValueChainConsensus.verifySignature H block with
            | false =>
                rw [htxs, hsig] at h
                cases h
                exact .rejectValue hphase
            | true =>
                rw [htxs, hsig] at h
                cases h
                exact .checkValue hphase (toOption_eq_some htime) hpast htxs hsig
      · cases h
  | storeReceivedValue io =>
      simp only [step] at h
      split at h
      · rename_i block hphase
        obtain ⟨⟨ok, storage⟩, hstore, h⟩ := Option.bind_eq_some_iff.mp h
        have hstep : Step H keys s (.storeReceivedValue io)
            { s with
              valueStorage := storage, network := if ok then .purging block else .idle } :=
          .storeReceivedValue hphase (toOption_eq_some hstore)
        cases ok with
        | false => cases h; exact hstep
        | true => cases h; exact hstep
      · cases h
  | purge =>
      simp only [step] at h
      split at h
      · rename_i block hphase
        cases h
        exact .purge hphase
      · cases h

/-! ## What a step does to each part of the state -/

/-- The transactions a block is being built from. -/
def ValueLoop.gathered? : ValueLoop → Option (List Transaction)
  | .idle => none
  | .eligible => none
  | .gathered transactions => some transactions
  | .linked transactions _ => some transactions
  | .timed transactions _ _ => some transactions
  | .storing _ => none

/-- The transactions a running `produce_block` has taken out of the pool. -/
def ValueLoop.transactions : ValueLoop → List Transaction
  | .idle => []
  | .eligible => []
  | .gathered transactions => transactions
  | .linked transactions _ => transactions
  | .timed transactions _ _ => transactions
  | .storing block => block.transactions

/-- The block whose transactions the network thread is about to take out of the pool. -/
def NetworkThread.purging? : NetworkThread → Option ValueBlock
  | .purging block => some block
  | _ => none

section Parts

variable {a : Action} {s t : State}

/-- The time storage changes by storing the pending block of the time loop or of the network
thread. -/
theorem timeStorage_cases (h : step H keys a s = some t) :
    t.timeStorage = s.timeStorage ∨
      ∃ block io ok, s.timeStorage.storeBlock H.endian block io = .ok (ok, t.timeStorage) ∧
        ((a = .storeProducedTime io ∧ s.timeLoop = .storing block) ∨
          (a = .storeReceivedTime io ∧ s.network = .storingTime block)) := by
  cases step_cases h with
  | storeProducedTime hphase hstore => exact .inr ⟨_, _, _, hstore, .inl ⟨rfl, hphase⟩⟩
  | storeReceivedTime hphase hstore => exact .inr ⟨_, _, _, hstore, .inr ⟨rfl, hphase⟩⟩
  | _ => exact .inl rfl

/-- The value storage changes by storing the pending block of the value loop or of the
network thread. -/
theorem valueStorage_cases (h : step H keys a s = some t) :
    t.valueStorage = s.valueStorage ∨
      ∃ block io ok, s.valueStorage.storeBlock H.endian block io = .ok (ok, t.valueStorage) ∧
        ((a = .storeProducedValue io ∧ s.valueLoop = .storing block) ∨
          (a = .storeReceivedValue io ∧ s.network = .storingValue block)) := by
  cases step_cases h with
  | storeProducedValue hphase hstore => exact .inr ⟨_, _, _, hstore, .inl ⟨rfl, hphase⟩⟩
  | storeReceivedValue hphase hstore => exact .inr ⟨_, _, _, hstore, .inr ⟨rfl, hphase⟩⟩
  | _ => exact .inl rfl

/-- A block pending in the time loop has just been built on the latest block, or was pending
before. -/
theorem timeLoop_storing (h : step H keys a s = some t) {block : TimeBlock}
    (hblock : t.timeLoop = .storing block) :
    s.timeLoop = .storing block ∨
      ∃ randomNumber currentTime latestBlock, a = .produceTime randomNumber currentTime ∧
        s.timeStorage.getLatestBlock H.endian = .ok latestBlock ∧
        TimeChainConsensus.createBlock H keys latestBlock currentTime = .ok block := by
  cases step_cases h with
  | produceTime hphase hlatest hcreate =>
      cases hblock
      exact .inr ⟨_, _, _, rfl, hlatest, hcreate⟩
  | storeProducedTime hphase hstore => cases hblock
  | _ => exact .inl hblock

/-- A block pending in the value loop has just been built from the gathered transactions, or
was pending before. -/
theorem valueLoop_storing (h : step H keys a s = some t) {block : ValueBlock}
    (hblock : t.valueLoop = .storing block) :
    s.valueLoop = .storing block ∨
      ∃ transactions latestBlock currentTime timeBlockHash, a = .readTimeHash ∧
        s.valueLoop = .timed transactions latestBlock currentTime ∧
        TimeChain.getLatestBlockHash H.endian s.timeStorage = .ok timeBlockHash ∧
        ValueChainConsensus.createBlock H keys latestBlock timeBlockHash currentTime
          transactions = .ok block := by
  cases step_cases h with
  | readTimeHash hphase hhash hcreate =>
      cases hblock
      exact .inr ⟨_, _, _, _, rfl, hphase, hhash, hcreate⟩
  | produceValue hphase => cases hblock
  | gatherNothing hphase hpool => cases hblock
  | gather hphase hcoinbase => cases hblock
  | readLatestValue hphase hlatest => cases hblock
  | readTime hphase htime => cases hblock
  | storeProducedValue hphase hstore => cases hblock
  | _ => exact .inl hblock

/-- The transactions a block is being built from have just been gathered from the pool, or
were there before. -/
theorem valueLoop_gathered (h : step H keys a s = some t) {transactions : List Transaction}
    (htxs : t.valueLoop.gathered? = some transactions) :
    s.valueLoop.gathered? = some transactions ∨
      ∃ coinbase, a = .gather ∧
        ValueChainConsensus.coinbaseTransaction H keys = .ok coinbase ∧
        transactions = coinbase :: s.transactionPool := by
  cases step_cases h with
  | gather hphase hcoinbase =>
      cases htxs
      exact .inr ⟨_, rfl, hcoinbase, rfl⟩
  | readLatestValue hphase hlatest => exact .inl (by rw [hphase]; exact htxs)
  | readTime hphase htime => exact .inl (by rw [hphase]; exact htxs)
  | produceValue hphase => cases htxs
  | gatherNothing hphase hpool => cases htxs
  | readTimeHash hphase hhash hcreate => cases htxs
  | storeProducedValue hphase hstore => cases htxs
  | _ => exact .inl htxs

/-- A time block pending in the network thread has just been validated, or was pending
before. -/
theorem network_storingTime (h : step H keys a s = some t) {block : TimeBlock}
    (hblock : t.network = .storingTime block) :
    s.network = .storingTime block ∨
      (a = .receiveTime block ∧ s.network = .idle ∧
        TimeChainConsensus.validateBlock H s.timeStorage block = .ok true) := by
  cases step_cases h with
  | receiveTime hphase hvalid =>
      cases hblock
      exact .inr ⟨rfl, hphase, hvalid⟩
  | storeReceivedTime hphase hstore => cases hblock
  | receiveValue hphase hexists => cases hblock
  | rejectValue hphase => cases hblock
  | checkValue hphase htime hpast htxs hsig => cases hblock
  | storeReceivedValue hphase hstore =>
      change (if _ then NetworkThread.purging _ else NetworkThread.idle) = _ at hblock
      split at hblock <;> cases hblock
  | purge hphase => cases hblock
  | _ => exact .inl hblock

/-- A value block pending in the network thread has just passed the last of its checks, or was
pending before. -/
theorem network_storingValue (h : step H keys a s = some t) {block : ValueBlock}
    (hblock : t.network = .storingValue block) :
    s.network = .storingValue block ∨
      (a = .checkValue ∧ s.network = .referenced block ∧
        ValueChainConsensus.verifyTransactions H block = true ∧
        ValueChainConsensus.verifySignature H block = true) := by
  cases step_cases h with
  | checkValue hphase htime hpast htxs hsig =>
      cases hblock
      exact .inr ⟨rfl, hphase, htxs, hsig⟩
  | receiveTime hphase hvalid => cases hblock
  | storeReceivedTime hphase hstore => cases hblock
  | receiveValue hphase hexists => cases hblock
  | rejectValue hphase => cases hblock
  | storeReceivedValue hphase hstore =>
      change (if _ then NetworkThread.purging _ else NetworkThread.idle) = _ at hblock
      split at hblock <;> cases hblock
  | purge hphase => cases hblock
  | _ => exact .inl hblock

/-! ## The value side -/

/-- What a step does to the value storage, the pool, the transactions that a running
`produce_block` has taken out of it, and the block whose transactions are to be purged. -/
inductive ValueStep (H : Host) (keys : NodeKeys H) (s t : State) : Action → Prop
  | unchanged {a : Action} (hstorage : t.valueStorage = s.valueStorage)
      (hpool : t.transactionPool = s.transactionPool)
      (hbatch : t.valueLoop.transactions = s.valueLoop.transactions)
      (hpurging : t.network.purging? = s.network.purging?) : ValueStep H keys s t a
  | addTransaction {transaction} (hstorage : t.valueStorage = s.valueStorage)
      (hpool : t.transactionPool = s.transactionPool ++ [transaction])
      (hbatch : t.valueLoop.transactions = s.valueLoop.transactions)
      (hpurging : t.network.purging? = s.network.purging?) :
      ValueStep H keys s t (.addTransaction transaction)
  | gather (hstorage : t.valueStorage = s.valueStorage)
      (hempty : s.valueLoop.transactions = []) (hpool : t.transactionPool = [])
      (hbatch : (s.transactionPool = [] ∧ t.valueLoop.transactions = []) ∨
        ∃ coinbase, ValueChainConsensus.coinbaseTransaction H keys = .ok coinbase ∧
          t.valueLoop.transactions = coinbase :: s.transactionPool)
      (hpurging : t.network.purging? = s.network.purging?) : ValueStep H keys s t .gather
  | storeProduced {io block ok} (hphase : s.valueLoop = .storing block)
      (hstore : s.valueStorage.storeBlock H.endian block io = .ok (ok, t.valueStorage))
      (hpool : t.transactionPool = s.transactionPool)
      (hbatch : t.valueLoop.transactions = [])
      (hpurging : t.network.purging? = s.network.purging?) :
      ValueStep H keys s t (.storeProducedValue io)
  | storeReceived {io block ok} (hphase : s.network = .storingValue block)
      (hstore : s.valueStorage.storeBlock H.endian block io = .ok (ok, t.valueStorage))
      (hpool : t.transactionPool = s.transactionPool)
      (hbatch : t.valueLoop.transactions = s.valueLoop.transactions)
      (hpurging : t.network.purging? = if ok then some block else none) :
      ValueStep H keys s t (.storeReceivedValue io)
  | purge {block} (hphase : s.network = .purging block)
      (hstorage : t.valueStorage = s.valueStorage)
      (hpool : t.transactionPool
        = s.transactionPool.filter (fun tx => decide (tx ∉ block.transactions)))
      (hbatch : t.valueLoop.transactions = s.valueLoop.transactions)
      (hpurging : t.network.purging? = none) : ValueStep H keys s t .purge

theorem valueStep_of_step (h : step H keys a s = some t) : ValueStep H keys s t a := by
  cases step_cases h with
  | addTransaction transaction => exact .addTransaction rfl rfl rfl rfl
  | produceValue hphase => exact .unchanged rfl rfl (by rw [hphase]; rfl) rfl
  | gatherNothing hphase hpool =>
      exact .gather rfl (by rw [hphase]; rfl) rfl (.inl ⟨hpool, rfl⟩) rfl
  | gather hphase hcoinbase =>
      exact .gather rfl (by rw [hphase]; rfl) rfl (.inr ⟨_, hcoinbase, rfl⟩) rfl
  | readLatestValue hphase hlatest => exact .unchanged rfl rfl (by rw [hphase]; rfl) rfl
  | readTime hphase htime => exact .unchanged rfl rfl (by rw [hphase]; rfl) rfl
  | readTimeHash hphase hhash hcreate =>
      obtain ⟨-, -, -, htxs, -⟩ := ValueChainConsensus.fields_createBlock hcreate
      refine .unchanged rfl rfl ?_ rfl
      rw [hphase]
      exact htxs
  | storeProducedValue hphase hstore => exact .storeProduced hphase hstore rfl rfl rfl
  | receiveTime hphase hvalid => exact .unchanged rfl rfl rfl (by rw [hphase]; rfl)
  | storeReceivedTime hphase hstore => exact .unchanged rfl rfl rfl (by rw [hphase]; rfl)
  | receiveValue hphase hexists => exact .unchanged rfl rfl rfl (by rw [hphase]; rfl)
  | rejectValue hphase => exact .unchanged rfl rfl rfl (by rw [hphase]; rfl)
  | checkValue hphase htime hpast htxs hsig =>
      exact .unchanged rfl rfl rfl (by rw [hphase]; rfl)
  | @storeReceivedValue io block ok storage hphase hstore =>
      exact .storeReceived hphase hstore rfl rfl (by cases ok <;> rfl)
  | purge hphase =>
      exact .purge hphase rfl (ValueChainConsensus.removeTransactions_eq_filter _ _) rfl rfl
  | _ => exact .unchanged rfl rfl rfl rfl

end Parts

end Node

end CoinPlatform
