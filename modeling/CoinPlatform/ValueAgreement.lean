/-
# Producer and receiver of value blocks

A produced value block passes the time reference check and the signature check of every
receiver with the same time store: the latest time block exists, the block has its time, and
it is signed with the key it names (`validateBlock_producedValue`).  What is left is the
third check.  The pool takes transactions unverified, the producer puts them into the block
as they are, and the receiver verifies each of them: the block is valid exactly when every
pooled transaction is.
-/
import CoinPlatform.StoredBlocks

open ByteOrder StdVector

namespace CoinPlatform

namespace Node

variable {H : Host} {G : GenesisBlocks} {keys : NodeKeys H}

/-- The invariant: the file of the latest time block exists under its hash. -/
def LatestExists (H : Host) (s : State) : Prop :=
  ∀ latest, s.timeStorage.IsLatest H.endian latest → s.timeStorage.blockExists latest.hash = true

theorem latestExists_step {s t : State} {a : Action} (hs : LatestExists H s)
    (h : step H keys a s = some t) : LatestExists H t := by
  intro latest hlatest
  rcases timeStorage_cases h with heq | ⟨x, io, ok, hstore, -⟩
  · rw [heq] at hlatest ⊢
    exact hs latest hlatest
  · rw [FileStorage.blockExists_storeBlock hstore]
    -- `latest.block` is copied from the file of the block, which exists by then
    rcases FileStorage.isLatest_of_storeBlock hstore hlatest with ⟨rfl, hwritten⟩ | hold
    · refine .inr ⟨rfl, ?_⟩
      rintro rfl
      cases hwritten
    · exact .inl (hs latest hold)

theorem latestExists_run {as : List Action} {s₀ s : State} (hstart : start H G = some s₀)
    (hrun : run H keys as s₀ = some s) : LatestExists H s := by
  obtain ⟨timeGenesis, valueGenesis, hs₀⟩ := started_of_start hstart
  refine Transition.run_invariant (fun s a t hs _ h => latestExists_step hs h) hrun
    (Transition.along_of_forall (C := fun _ _ => True) (fun _ _ => trivial) as s₀) ?_
  intro latest hlatest
  obtain rfl := hlatest.unique hs₀.timeLatest
  exact ((hs₀.timeStored _ _).mpr ⟨rfl, rfl⟩).blockExists

/-- The coinbase transaction is not verified. -/
theorem verify_coinbaseTransaction {coinbase : Transaction}
    (h : ValueChainConsensus.coinbaseTransaction H keys = .ok coinbase) :
    coinbase.verify H = true := by
  rw [Transaction.verify, ValueChainConsensus.isCoinbaseTransaction_coinbaseTransaction h]
  rfl

/-- **Producer and receiver of value blocks** agree exactly when every transaction in the
producer's pool verifies. -/
theorem validateBlock_producedValue (hH : H.secp256k1.Correct) {as : List Action}
    {s₀ s : State} (hstart : start H G = some s₀) (hrun : run H keys as s₀ = some s)
    {latest : TimeBlock} (hlatest : s.timeStorage.IsLatest H.endian latest)
    {randomNumber : UInt64} {io : WriteOutcome} {block : ValueBlock}
    {storage : FileStorage ValueBlock} {pool : List Transaction}
    (h : ValueChainConsensus.produceBlock H keys s.timeStorage s.valueStorage s.transactionPool
      randomNumber io = .ok (some block, storage, pool)) :
    ValueChainConsensus.validateBlock H s.timeStorage block = .ok true ↔
      ∀ tx ∈ s.transactionPool, tx.verify H = true := by
  obtain ⟨-, -, coinbase, latestBlock, currentTime, timeBlockHash, hcoinbase, -, htime, hhash,
    hcreate, -⟩ := ValueChainConsensus.produceBlock_eq_some h
  obtain ⟨-, hblockHash, hblockTime, htxs, -⟩ := ValueChainConsensus.fields_createBlock hcreate
  -- the reads of the producer are the hash and the time of the latest time block
  have hcurrent : currentTime = latest.time := by
    rw [ValueChainConsensus.getCurrentTime_of_isLatest hlatest] at htime
    exact (Except.ok.inj htime).symm
  have htimeHash : timeBlockHash = latest.hash := by
    obtain ⟨o, ho, hh⟩ := bind_eq_ok.mp hhash
    obtain rfl : some latest = o := Except.ok.inj (hlatest.symm.trans ho)
    exact (Except.ok.inj hh).symm
  have hexists : s.timeStorage.blockExists block.timeBlockHash = true := by
    rw [hblockHash, htimeHash]
    exact latestExists_run hstart hrun latest hlatest
  have hnow : ∃ now, ValueChainConsensus.getCurrentTime H s.timeStorage = .ok now ∧
      block.time ≤ now := by
    refine ⟨latest.time, ValueChainConsensus.getCurrentTime_of_isLatest hlatest, ?_⟩
    rw [hblockTime, hcurrent]
    exact UInt64.le_refl _
  have hsig := ValueChainConsensus.verifySignature_createBlock hH hcreate
  have hverify : (∀ tx ∈ block.transactions, tx.verify H = true) ↔
      ∀ tx ∈ s.transactionPool, tx.verify H = true := by
    rw [htxs, List.forall_mem_cons]
    exact and_iff_right (verify_coinbaseTransaction hcoinbase)
  rw [ValueChainConsensus.validateBlock_eq_true, hverify]
  constructor
  · rintro ⟨-, hall, -⟩
    exact hall
  · intro hall
    exact ⟨⟨hexists, hnow⟩, hall, hsig⟩

/-! ## A pooled transaction with a wrong signature -/

/-- What a receiver with the same time store says about the block produced at the end of a
run on the sample host. -/
def verdict (s : State) : Option Bool :=
  match ValueChainConsensus.produceBlock tagHost tagKeys s.timeStorage s.valueStorage
    s.transactionPool 0 .ok with
  | .ok (some block, _) =>
    (ValueChainConsensus.validateBlock tagHost s.timeStorage block).toOption
  | _ => none

theorem exists_of_verdict {s : State} {v : Bool} (h : verdict s = some v) :
    ∃ storage pool block,
      ValueChainConsensus.produceBlock tagHost tagKeys s.timeStorage s.valueStorage
        s.transactionPool 0 .ok = .ok (some block, storage, pool) ∧
      ValueChainConsensus.validateBlock tagHost s.timeStorage block = .ok v := by
  unfold verdict at h
  split at h
  · rename_i block rest hproduced
    exact ⟨rest.1, rest.2, block, hproduced, toOption_eq_some h⟩
  · cases h

/-- A block with one signed payment. -/
theorem validateBlock_producedValue_payment :
    ∃ s₀ s storage pool block, start tagHost shippedGenesis = some s₀ ∧
      run tagHost tagKeys [.addTransaction (payment paymentSignature)] s₀ = some s ∧
      ValueChainConsensus.produceBlock tagHost tagKeys s.timeStorage s.valueStorage
        s.transactionPool 0 .ok = .ok (some block, storage, pool) ∧
      (ValueChainConsensus.validateBlock tagHost s.timeStorage block = .ok true ↔
        ∀ tx ∈ s.transactionPool, tx.verify tagHost = true) := by
  have hreaches : Reaches tagHost shippedGenesis tagKeys
      [.addTransaction (payment paymentSignature)]
      (fun s => decide (verdict s = some true) &&
      (s.timeStorage.getLatestBlock .little).toOption.join.isSome) = true := by decide +kernel
  obtain ⟨s₀, s, hstart, hrun, hp⟩ := exists_run_of_reaches hreaches
  rw [Bool.and_eq_true] at hp
  obtain ⟨storage, pool, block, hproduced, -⟩ := exists_of_verdict (of_decide_eq_true hp.1)
  obtain ⟨latest, hlatest⟩ := Option.isSome_iff_exists.mp hp.2
  have hisLatest : s.timeStorage.IsLatest .little latest :=
    toOption_eq_some (Option.join_eq_some_iff.mp hlatest)
  exact ⟨s₀, s, storage, pool, block, hstart, hrun, hproduced,
    validateBlock_producedValue tagSecp256k1_correct hstart hrun hisLatest hproduced⟩

/-- **One pooled transaction with a wrong signature** makes the producer's own block invalid
for the producer. -/
theorem not_validateBlock_producedValue :
    ∃ s₀ s storage pool block, start tagHost shippedGenesis = some s₀ ∧
      run tagHost tagKeys [.addTransaction (payment (zeros 64))] s₀ = some s ∧
      ValueChainConsensus.produceBlock tagHost tagKeys s.timeStorage s.valueStorage
        s.transactionPool 0 .ok = .ok (some block, storage, pool) ∧
      ValueChainConsensus.validateBlock tagHost s.timeStorage block = .ok false := by
  have hreaches : Reaches tagHost shippedGenesis tagKeys
      [.addTransaction (payment (zeros 64))]
      (fun s => decide (verdict s = some false)) = true := by decide +kernel
  obtain ⟨s₀, s, hstart, hrun, hp⟩ := exists_run_of_reaches hreaches
  obtain ⟨storage, pool, block, hproduced, hverdict⟩ :=
    exists_of_verdict (of_decide_eq_true hp)
  exact ⟨s₀, s, storage, pool, block, hstart, hrun, hproduced, hverdict⟩

end Node

end CoinPlatform
