/-
# Where the time chain ends

A received time block has to be later than the latest one, and 64 bits have a last value.  How
far a block may lie in the future is not asked of time blocks, although it is of value blocks.

* `isStopped_receiveBlocks`: received blocks stop the time chain exactly when one of them is
  validly signed, bears the last time and becomes the latest block;
* `exists_time_iff`: so there is a time that is still accepted exactly as long as no such block
  has come.
-/
import CoinPlatform.TipAgreement

open ByteOrder StdVector

namespace CoinPlatform

open FileStorage

/-- The last value of a `TimePoint`. -/
def lastTime : TimePoint := 0xFFFFFFFFFFFFFFFF

theorem le_lastTime (time : TimePoint) : time ≤ lastTime := by
  rw [UInt64.le_iff_toNat_le]
  have hlt := time.toNat_lt
  show time.toNat ≤ 2 ^ 64 - 1
  omega

theorem eq_lastTime_of_not_lt {time : TimePoint} (h : ¬ time < lastTime) : time = lastTime :=
  UInt64.le_antisymm (le_lastTime time) (UInt64.not_lt.mp h)

namespace TimeChainConsensus

variable (H : Host)

/-- The blocks are received one after the other; the outcome of storing comes with the block. -/
def receiveBlocks (storage : FileStorage TimeBlock) (received : List (TimeBlock × WriteOutcome)) :
    Except Fault (FileStorage TimeBlock) :=
  received.foldlM (fun storage r => handleBlock H storage r.1 r.2) storage

/-- A time is left that a block can have. -/
def AcceptsSomeTime (storage : FileStorage TimeBlock) : Prop :=
  ∃ t : TimePoint, ∀ block : TimeBlock, block.time = t → verifyTime H storage block = .ok true

/-- The latest block bears the last time. -/
def IsStopped (storage : FileStorage TimeBlock) : Prop :=
  ∃ latest, storage.IsLatest H.endian latest ∧ latest.time = lastTime

/-- The block is validly signed, bears the last time, and is copied to `latest.block` as a
whole. -/
def Stops (block : TimeBlock) (io : WriteOutcome) : Prop :=
  verifySignature H block = true ∧ block.time = lastTime ∧
    io.latestFile (block.serialize H.endian) = some (block.serialize H.endian)

variable {H}

/-! ## One block -/

theorem isStopped_iff {storage : FileStorage TimeBlock} {o : Option TimeBlock}
    (h : storage.getLatestBlock H.endian = .ok o) :
    IsStopped H storage ↔ ∃ latest, o = some latest ∧ latest.time = lastTime := by
  simp [IsStopped, IsLatest, h]

/-- The time chain accepts some time as long as it has not stopped. -/
theorem acceptsSomeTime_iff {storage : FileStorage TimeBlock} {o : Option TimeBlock}
    (h : storage.getLatestBlock H.endian = .ok o) :
    AcceptsSomeTime H storage ↔ ¬ IsStopped H storage := by
  simp only [AcceptsSomeTime, verifyTime_eq_true, isStopped_iff h]
  constructor
  · rintro ⟨t, ht⟩ ⟨latest, rfl, htime⟩
    obtain ⟨o, ho, hlater⟩ := ht { TimeBlock.empty with time := t } rfl
    obtain rfl : some latest = o := Except.ok.inj (h.symm.trans ho)
    have hlt : latest.time < t := hlater latest rfl
    rw [htime] at hlt
    exact absurd (le_lastTime t) (UInt64.not_le.mpr hlt)
  · intro hgoes
    refine ⟨lastTime, fun block hblock => ⟨o, h, fun latest hlatest => ?_⟩⟩
    rw [hblock]
    by_contra hnot
    exact hgoes ⟨latest, hlatest, eq_lastTime_of_not_lt hnot⟩

/-- The validation ends normally, beside a latest block and without one. -/
theorem validateBlock_of_getLatestBlock {storage : FileStorage TimeBlock} {o : Option TimeBlock}
    (h : storage.getLatestBlock H.endian = .ok o) (block : TimeBlock) :
    validateBlock H storage block
      = .ok (o.all (fun latest => decide (latest.time < block.time)) &&
        verifySignature H block) := by
  cases o with
  | some latest => exact validateBlock_of_isLatest h block
  | none =>
      unfold validateBlock verifyTime
      rw [h]
      cases verifySignature H block <;> rfl

/-- Storing a block stops the time chain if the block bears the last time and is copied to
`latest.block` as a whole. -/
theorem isStopped_storeBlock {storage storage' : FileStorage TimeBlock} {block : TimeBlock}
    {io : WriteOutcome} {r : Bool} (hgoes : ¬ IsStopped H storage)
    (hstore : storage.storeBlock H.endian block io = .ok (r, storage')) :
    IsStopped H storage' ↔ block.time = lastTime ∧
      io.latestFile (block.serialize H.endian) = some (block.serialize H.endian) := by
  constructor
  · rintro ⟨latest, hlatest, htime⟩
    rcases isLatest_of_storeBlock hstore hlatest with ⟨rfl, hwritten⟩ | hbefore
    · exact ⟨htime, hwritten⟩
    · exact absurd ⟨latest, hbefore, htime⟩ hgoes
  · rintro ⟨htime, hwritten⟩
    refine ⟨block, ?_, htime⟩
    rw [IsLatest, getLatestBlock_of_latestFile hstore hwritten]
    exact congrArg Except.ok (readPart_serialize block)

/-- **A received block stops the time chain** if it had stopped before, or if the block is the
one to stop it. -/
theorem isStopped_handleBlock {storage : FileStorage TimeBlock} {o : Option TimeBlock}
    (h : storage.getLatestBlock H.endian = .ok o) (block : TimeBlock) (io : WriteOutcome) :
    ∃ storage' o', handleBlock H storage block io = .ok storage' ∧
      storage'.getLatestBlock H.endian = .ok o' ∧
      (IsStopped H storage' ↔ IsStopped H storage ∨ Stops H block io) := by
  have hvalidate := validateBlock_of_getLatestBlock h block
  cases hvalid : (o.all (fun latest => decide (latest.time < block.time)) &&
      verifySignature H block) with
  | false =>
      rw [hvalid] at hvalidate
      refine ⟨storage, o, handleBlock_of_invalid hvalidate, h, (or_iff_left_of_imp ?_).symm⟩
      -- a block that bears the last time is refused beside another one that does
      rintro ⟨hsig, htime, -⟩
      rw [hsig, Bool.and_true, htime] at hvalid
      rw [isStopped_iff h]
      cases o with
      | none => cases hvalid
      | some latest =>
          have hnot : ¬ latest.time < lastTime := of_decide_eq_false hvalid
          exact ⟨latest, rfl, eq_lastTime_of_not_lt hnot⟩
  | true =>
      rw [hvalid] at hvalidate
      rw [Bool.and_eq_true] at hvalid
      obtain ⟨hlater, hsig⟩ := hvalid
      have hgoes : ¬ IsStopped H storage := by
        rw [isStopped_iff h]
        rintro ⟨latest, rfl, htime⟩
        have hlt : latest.time < block.time := of_decide_eq_true hlater
        rw [htime] at hlt
        exact absurd (le_lastTime block.time) (UInt64.not_le.mpr hlt)
      obtain ⟨r, storage', hstore⟩ :=
        exists_storeBlock storage io (TimeBlock.length_serialize_le H.endian block)
      obtain ⟨o', ho'⟩ := exists_getLatestBlock_storeBlock ⟨o, h⟩ hstore
      refine ⟨storage', o', handleBlock_of_valid hvalidate hstore, ho', ?_⟩
      rw [isStopped_storeBlock hgoes hstore, or_iff_right hgoes, Stops, and_iff_right hsig]

/-! ## Any blocks -/

/-- **Received blocks stop the time chain** if it had stopped before, or if one of them is the
one to stop it. -/
theorem isStopped_receiveBlocks (received : List (TimeBlock × WriteOutcome)) :
    ∀ {storage : FileStorage TimeBlock} {o : Option TimeBlock},
      storage.getLatestBlock H.endian = .ok o →
      ∃ storage' o', receiveBlocks H storage received = .ok storage' ∧
        storage'.getLatestBlock H.endian = .ok o' ∧
        (IsStopped H storage' ↔ IsStopped H storage ∨ ∃ r ∈ received, Stops H r.1 r.2) := by
  induction received with
  | nil =>
      intro storage o h
      refine ⟨storage, o, rfl, h, (or_iff_left ?_).symm⟩
      rintro ⟨r, hr, -⟩
      cases hr
  | cons r received ih =>
      intro storage o h
      obtain ⟨storage', o', hhandle, ho', hone⟩ := isStopped_handleBlock h r.1 r.2
      obtain ⟨storage'', o'', hreceive, ho'', hrest⟩ := ih ho'
      refine ⟨storage'', o'', ?_, ho'', ?_⟩
      · rw [receiveBlocks, List.foldlM_cons]
        exact bind_eq_ok.mpr ⟨storage', hhandle, hreceive⟩
      · rw [hrest, hone, or_assoc, List.exists_mem_cons_iff]

/-- The genesis block does not bear the last time. -/
theorem time_ne_of_isTimeGenesis {e : Endian} {b : TimeBlock}
    (h : shippedGenesis.IsTimeGenesis e b) : b.time ≠ lastTime := by
  have hcheck : (TimeBlock.empty.deserialize e timeChainGenesisBlockData).toOption.all
      (fun r => decide (r.2.time ≠ lastTime)) = true := by
    cases e <;> decide +kernel
  have hread : TimeBlock.empty.deserialize e timeChainGenesisBlockData = .ok (true, b) := h
  rw [hread] at hcheck
  exact of_decide_eq_true hcheck

/-- A time chain that starts from an empty directory has not stopped. -/
theorem not_isStopped_of_initializeChain {directory storage : FileStorage TimeBlock}
    {io : WriteOutcome} (hempty : ∀ filename, directory.files filename = none)
    (h : initializeChain H shippedGenesis directory io = .ok (true, storage)) :
    ∃ o, storage.getLatestBlock H.endian = .ok o ∧ ¬ IsStopped H storage := by
  obtain ⟨genesisBlock, hgenesis, -, hstore⟩ := initializeChain_of_empty hempty h
  have hnone := getLatestBlock_of_empty (e := H.endian) hempty
  obtain ⟨o, ho⟩ := exists_getLatestBlock_storeBlock ⟨none, hnone⟩ hstore
  refine ⟨o, ho, ?_⟩
  rintro ⟨latest, hlatest, htime⟩
  rcases isLatest_of_storeBlock hstore hlatest with ⟨rfl, -⟩ | hbefore
  · exact time_ne_of_isTimeGenesis hgenesis htime
  · cases hnone.symm.trans hbefore

/-- **How long the time chain goes on**: as long as no peer has sent a validly signed block that
bears the last time and has become the latest one. -/
theorem exists_time_iff {directory storage₀ : FileStorage TimeBlock} {io : WriteOutcome}
    (hempty : ∀ filename, directory.files filename = none)
    (hstart : initializeChain H shippedGenesis directory io = .ok (true, storage₀))
    (received : List (TimeBlock × WriteOutcome)) :
    ∃ storage, receiveBlocks H storage₀ received = .ok storage ∧
      (AcceptsSomeTime H storage ↔ ∀ r ∈ received, ¬ Stops H r.1 r.2) := by
  obtain ⟨o₀, hlatest, hgoes⟩ := not_isStopped_of_initializeChain hempty hstart
  obtain ⟨storage, o, hreceive, ho, hstopped⟩ := isStopped_receiveBlocks received hlatest
  refine ⟨storage, hreceive, ?_⟩
  rw [acceptsSomeTime_iff ho, hstopped, or_iff_right hgoes]
  simp only [not_exists, not_and]

/-- The time chain of the sample host starts. -/
theorem exists_initializeChain_tagHost :
    ∃ storage, initializeChain tagHost shippedGenesis FileStorage.empty .ok
      = .ok (true, storage) := by
  have hstart : (initializeChain tagHost shippedGenesis FileStorage.empty .ok).toOption.any
      (fun r => r.1) = true := by decide +kernel
  obtain ⟨⟨ok, storage⟩, h, hok⟩ := (Option.any_eq_true _ _).mp hstart
  obtain rfl : ok = true := hok
  exact ⟨storage, toOption_eq_some h⟩

/-- After a block with the time before the last one, another time is accepted. -/
theorem exists_time_receivedTimeBlockAt :
    ∃ storage₀ storage, initializeChain tagHost shippedGenesis FileStorage.empty .ok
        = .ok (true, storage₀) ∧
      receiveBlocks tagHost storage₀ [(Node.receivedTimeBlockAt (lastTime - 1), .ok)]
        = .ok storage ∧
      AcceptsSomeTime tagHost storage := by
  obtain ⟨storage₀, hstart⟩ := exists_initializeChain_tagHost
  obtain ⟨storage, hreceive, haccepts⟩ :=
    exists_time_iff (fun _ => rfl) hstart [(Node.receivedTimeBlockAt (lastTime - 1), .ok)]
  refine ⟨storage₀, storage, hstart, hreceive, haccepts.mpr ?_⟩
  intro r hr hstops
  obtain rfl := List.mem_singleton.mp hr
  have htime : lastTime - 1 = lastTime := hstops.2.1
  exact absurd htime (by decide)

/-- **One block stops the time chain**: it is validly signed and bears the last time. -/
theorem not_acceptsSomeTime :
    ∃ storage₀ storage, initializeChain tagHost shippedGenesis FileStorage.empty .ok
        = .ok (true, storage₀) ∧
      receiveBlocks tagHost storage₀ [(Node.receivedTimeBlockAt lastTime, .ok)] = .ok storage ∧
      ¬ AcceptsSomeTime tagHost storage := by
  obtain ⟨storage₀, hstart⟩ := exists_initializeChain_tagHost
  obtain ⟨o₀, hlatest, -⟩ := not_isStopped_of_initializeChain (fun _ => rfl) hstart
  obtain ⟨storage, o, hreceive, ho, hstopped⟩ :=
    isStopped_receiveBlocks [(Node.receivedTimeBlockAt lastTime, WriteOutcome.ok)] hlatest
  refine ⟨storage₀, storage, hstart, hreceive, ?_⟩
  rw [acceptsSomeTime_iff ho, not_not, hstopped]
  exact .inr ⟨_, List.mem_singleton_self _, Node.verifySignature_receivedTimeBlockAt lastTime,
    rfl, rfl⟩

end TimeChainConsensus

end CoinPlatform
