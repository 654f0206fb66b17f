/-
# Redelivery

A block may be delivered again at any time.  `handle_block` does not ask whether the block is
in the store: it validates the block as if it were new, and stores it again, so that it becomes
the latest one.

* `readsSame_storeBlock_iff`: what storing a stored block once more changes.
* `readsSame_redelivery_iff`: in every run, a redelivery is harmless exactly when the block is
  refused by now, or is the latest one anyway.
* `not_readsSame_redelivery`: an older valid block takes the chain back.
-/
import CoinPlatform.StorageAnswers
import CoinPlatform.StoredBlocks

open ByteOrder StdVector

namespace CoinPlatform

namespace FileStorage

variable {B : Type} [BlockType B] (e : Endian)

/-- Every block, and the latest one, is read as before. -/
def ReadsSame (s s' : FileStorage B) : Prop :=
  (∀ h, s'.getBlock e h = s.getBlock e h) ∧ s'.getLatestBlock e = s.getLatestBlock e

/-- Storing the block once more leaves its file whole if it opens it, and `latest.block`, if it
opens that, as it was read before. -/
structure StoresAgain (s : FileStorage B) (b : B) (io : WriteOutcome) : Prop where
  block : ∀ contents, io.blockFile (BlockType.serialize e b) = some contents →
    contents = BlockType.serialize e b
  latest : ∀ contents, io.latestFile (BlockType.serialize e b) = some contents →
    s.getLatestBlock e = .ok (readPart e b contents)

variable {e} {s s' : FileStorage B} {b : B}

/-- A block that can be read fits into a vector. -/
theorem Stored.length_le {h : Hash} (hb : s.Stored e h b) :
    (BlockType.serialize e b).length ≤ maxSize := by
  obtain ⟨contents, -, hlen, hdec⟩ := readBlockFromFile_eq_some.mp (stored_iff.mp hb)
  exact (BlockType.prefix_of_deserialize e _ b _ hlen hdec).length_le.trans hlen

/-- **Storing a stored block once more.** -/
theorem readsSame_storeBlock_iff [RejectsTruncated B] {io : WriteOutcome} {r : Bool}
    (hb : s.Stored e (BlockType.getHash b) b) (h : s.storeBlock e b io = .ok (r, s')) :
    ReadsSame e s s' ↔ StoresAgain e s b io := by
  constructor
  · rintro ⟨hblock, hlatest⟩
    constructor
    · intro contents hc
      have hread := (getBlock_of_blockFile h hc).symm.trans ((hblock _).trans hb)
      by_contra hne
      rw [readPart, if_neg hne] at hread
      cases hread
    · intro contents hc
      rw [← hlatest]
      exact getLatestBlock_of_latestFile h hc
  · rintro ⟨hblock, hlatest⟩
    have hsame : SameAnswers e s s' := by
      refine (sameAnswers_iff h).mpr ⟨fun contents hc => ⟨hb.blockExists, ?_⟩, hlatest⟩
      rw [hblock contents hc, readPart_serialize]
      exact hb
    exact ⟨hsame.getBlock, hsame.getLatestBlock⟩

/-- Without a failure it has to be the latest block. -/
theorem storesAgain_ok_iff : StoresAgain e s b .ok ↔ s.IsLatest e b := by
  constructor
  · intro hagain
    have hread := hagain.latest _ rfl
    rwa [readPart_serialize] at hread
  · intro hlatest
    constructor
    · intro contents hc
      exact (Option.some.inj hc).symm
    · intro contents hc
      obtain rfl := Option.some.inj hc
      rw [readPart_serialize]
      exact hlatest

/-- Reading the latest block ends normally after a store if it did before. -/
theorem exists_getLatestBlock_storeBlock [RejectsTruncated B] {x : B} {io : WriteOutcome}
    {r : Bool} (hs : ∃ o, s.getLatestBlock e = .ok o) (h : s.storeBlock e x io = .ok (r, s')) :
    ∃ o, s'.getLatestBlock e = .ok o := by
  cases hc : io.latestFile (BlockType.serialize e x) with
  | none =>
      rw [getLatestBlock_of_latestFile_none h hc]
      exact hs
  | some contents => exact ⟨_, getLatestBlock_of_latestFile h hc⟩

end FileStorage

open FileStorage

namespace ValueChainConsensus

variable {H : Host} {timeStorage : FileStorage TimeBlock} {storage : FileStorage ValueBlock}
  {transactionPool : List Transaction} {block : ValueBlock} {io : WriteOutcome}

/-- The validation ends normally when the latest time block can be asked for. -/
theorem exists_validateBlock (hlatest : ∃ o, timeStorage.getLatestBlock H.endian = .ok o)
    (block : ValueBlock) : ∃ valid, validateBlock H timeStorage block = .ok valid := by
  obtain ⟨o, ho⟩ := hlatest
  have hnow : ∃ now, getCurrentTime H timeStorage = .ok now := by
    unfold getCurrentTime TimeChain.getLatestBlock
    rw [ho]
    cases o <;> exact ⟨_, rfl⟩
  obtain ⟨now, hnow⟩ := hnow
  unfold validateBlock verifyTimeReference
  rw [hnow]
  cases TimeChain.blockExists timeStorage block.timeBlockHash with
  | false => exact ⟨false, rfl⟩
  | true =>
      by_cases hlt : now < block.time <;>
        cases htxs : verifyTransactions H block <;> cases hsig : verifySignature H block <;>
        simp [bind, Except.bind, pure, Except.pure, hlt]

theorem handleBlock_of_invalid (h : validateBlock H timeStorage block = .ok false) :
    handleBlock H timeStorage storage transactionPool block io
      = .ok (storage, transactionPool) := by
  rw [handleBlock, h]
  rfl

/-- A valid block is stored. -/
theorem handleBlock_of_valid {ok : Bool} {storage' : FileStorage ValueBlock}
    (h : validateBlock H timeStorage block = .ok true)
    (hstore : storage.storeBlock H.endian block io = .ok (ok, storage')) :
    ∃ pool, handleBlock H timeStorage storage transactionPool block io
      = .ok (storage', pool) := by
  unfold handleBlock
  rw [h]
  cases ok with
  | false => exact ⟨_, bind_eq_ok.mpr ⟨true, rfl, bind_eq_ok.mpr ⟨_, hstore, rfl⟩⟩⟩
  | true => exact ⟨_, bind_eq_ok.mpr ⟨true, rfl, bind_eq_ok.mpr ⟨_, hstore, rfl⟩⟩⟩

end ValueChainConsensus

namespace Node

variable {H : Host} {G : GenesisBlocks} {keys : NodeKeys H}

/-- **In every run the latest time block can be asked for.** -/
theorem exists_latestTimeBlock_run {as : List Action} {s₀ s : State}
    (hstart : start H G = some s₀) (hrun : run H keys as s₀ = some s) :
    ∃ o, s.timeStorage.getLatestBlock H.endian = .ok o := by
  obtain ⟨timeGenesis, valueGenesis, hs₀⟩ := started_of_start hstart
  have hstep : ∀ s a t, (∃ o, s.timeStorage.getLatestBlock H.endian = .ok o) → True →
      step H keys a s = some t → ∃ o, t.timeStorage.getLatestBlock H.endian = .ok o := by
    intro s a t hs _ h
    rcases timeStorage_cases h with heq | ⟨x, io, ok, hstore, -⟩
    · rw [heq]
      exact hs
    · exact exists_getLatestBlock_storeBlock hs hstore
  exact Transition.run_invariant hstep hrun
    (Transition.along_of_forall (C := fun _ _ => True) (fun _ _ => trivial) as s₀)
    ⟨_, hs₀.timeLatest⟩

/-- **When a redelivery is harmless**: the block is refused, or storing it once more goes
unnoticed. -/
theorem readsSame_redelivery_iff {as : List Action} {s₀ s : State}
    (hstart : start H G = some s₀) (hrun : run H keys as s₀ = some s) {k : Hash}
    {block : ValueBlock} (hb : s.valueStorage.Stored H.endian k block) (io : WriteOutcome) :
    ∃ storage pool,
      ValueChainConsensus.handleBlock H s.timeStorage s.valueStorage s.transactionPool block io
        = .ok (storage, pool) ∧
      (ReadsSame H.endian s.valueStorage storage ↔
        ValueChainConsensus.validateBlock H s.timeStorage block = .ok false ∨
          StoresAgain H.endian s.valueStorage block io) := by
  obtain rfl : block.hash = k := (namedByHash_run hstart hrun).2 k block hb
  obtain ⟨valid, hvalid⟩ := ValueChainConsensus.exists_validateBlock
    (exists_latestTimeBlock_run hstart hrun) block
  cases valid with
  | false =>
      refine ⟨_, _, ValueChainConsensus.handleBlock_of_invalid hvalid, ?_⟩
      exact iff_of_true ⟨fun _ => rfl, rfl⟩ (.inl hvalid)
  | true =>
      obtain ⟨r, storage, hstore⟩ := exists_storeBlock s.valueStorage io hb.length_le
      obtain ⟨pool, hhandle⟩ := ValueChainConsensus.handleBlock_of_valid hvalid hstore
      refine ⟨storage, pool, hhandle, (readsSame_storeBlock_iff hb hstore).trans ?_⟩
      simp [hvalid]

/-- Two blocks received one after the other, the second on the first. -/
def firstBlock : ValueBlock := receivedValueBlock valueChainGenesisHash timeChainGenesisHash 1

/-- The block received after it. -/
def secondBlock : ValueBlock := receivedValueBlock firstBlock.hash timeChainGenesisHash 2

/-- Both are stored, the second one is the latest, and the first one is still valid. -/
theorem exists_run_firstBlock_secondBlock :
    ∃ s₀ s, start tagHost shippedGenesis = some s₀ ∧
      run tagHost tagKeys (handleValueSteps firstBlock ++ handleValueSteps secondBlock) s₀
        = some s ∧
      s.valueStorage.Stored .little firstBlock.hash firstBlock ∧
      s.valueStorage.Stored .little secondBlock.hash secondBlock ∧
      s.valueStorage.IsLatest .little secondBlock ∧
      ValueChainConsensus.validateBlock tagHost s.timeStorage firstBlock = .ok true := by
  have hreaches : Reaches tagHost shippedGenesis tagKeys
      (handleValueSteps firstBlock ++ handleValueSteps secondBlock) (fun s => decide (
        s.valueStorage.Stored .little firstBlock.hash firstBlock ∧
        s.valueStorage.Stored .little secondBlock.hash secondBlock ∧
        s.valueStorage.IsLatest .little secondBlock ∧
        ValueChainConsensus.validateBlock tagHost s.timeStorage firstBlock = .ok true)) = true := by
    decide +kernel
  obtain ⟨s₀, s, hstart, hrun, hp⟩ := exists_run_of_reaches hreaches
  exact ⟨s₀, s, hstart, hrun, of_decide_eq_true hp⟩

/-- The latest block is delivered again. -/
theorem readsSame_redelivery_latest :
    ∃ s₀ s storage pool, start tagHost shippedGenesis = some s₀ ∧
      run tagHost tagKeys (handleValueSteps firstBlock ++ handleValueSteps secondBlock) s₀
        = some s ∧
      ValueChainConsensus.handleBlock tagHost s.timeStorage s.valueStorage s.transactionPool
        secondBlock .ok = .ok (storage, pool) ∧
      ReadsSame .little s.valueStorage storage := by
  obtain ⟨s₀, s, hstart, hrun, -, hsecond, hlatest, -⟩ := exists_run_firstBlock_secondBlock
  obtain ⟨storage, pool, hhandle, hiff⟩ := readsSame_redelivery_iff hstart hrun hsecond .ok
  exact ⟨s₀, s, storage, pool, hstart, hrun, hhandle,
    hiff.mpr (.inr (storesAgain_ok_iff.mpr hlatest))⟩

/-- **The first of two blocks, delivered again,** becomes the latest one. -/
theorem not_readsSame_redelivery :
    ∃ s₀ s storage pool, start tagHost shippedGenesis = some s₀ ∧
      run tagHost tagKeys (handleValueSteps firstBlock ++ handleValueSteps secondBlock) s₀
        = some s ∧
      s.valueStorage.Stored .little firstBlock.hash firstBlock ∧
      ValueChainConsensus.handleBlock tagHost s.timeStorage s.valueStorage s.transactionPool
        firstBlock .ok = .ok (storage, pool) ∧
      ¬ ReadsSame .little s.valueStorage storage := by
  obtain ⟨s₀, s, hstart, hrun, hfirst, -, hlatest, hvalid⟩ := exists_run_firstBlock_secondBlock
  obtain ⟨r, storage, hstore⟩ := exists_storeBlock s.valueStorage .ok hfirst.length_le
  obtain ⟨pool, hhandle⟩ :=
    ValueChainConsensus.handleBlock_of_valid (H := tagHost) hvalid hstore
  refine ⟨s₀, s, storage, pool, hstart, hrun, hfirst, hhandle, fun hsame => ?_⟩
  have hlatest' := storesAgain_ok_iff.mp ((readsSame_storeBlock_iff hfirst hstore).mp hsame)
  have htime : firstBlock.time = secondBlock.time := by rw [hlatest'.unique hlatest]
  exact absurd htime (by decide)

end Node

end CoinPlatform
