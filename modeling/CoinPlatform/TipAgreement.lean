/-
# Agreement on the latest block

Two nodes receive the same blocks in different orders.  On the time chain a block is stored only
if it is later than the latest one, so the latest block is the latest of all that have been
received, in whatever order.  On the value chain every valid block is stored and becomes the
latest one: the order decides.

* `exists_tip_handleBlocks`: after any blocks the time chain is at the newest of them.
* `timeChain_agreement`: two time chains agree.
* `getLatestBlock_handleBlocks`: after valid blocks the value chain is at the last of them.
* `valueChain_agreement_iff`: two value chains agree exactly when the last blocks are equal.
-/
import Mathlib.Data.List.MinMax
import Mathlib.Data.List.Nodup
import CoinPlatform.Redelivery

open ByteOrder StdVector

namespace CoinPlatform

open FileStorage

/-! ## The time chain -/

namespace TimeChainConsensus

variable (H : Host)

/-- The blocks are received one after the other, and no file operation fails. -/
def handleBlocks (storage : FileStorage TimeBlock) (blocks : List TimeBlock) :
    Except Fault (FileStorage TimeBlock) :=
  blocks.foldlM (fun storage block => handleBlock H storage block .ok) storage

/-- The block with the greatest time, and the first of several. -/
def newest (blocks : List TimeBlock) : Option TimeBlock :=
  blocks.argmax fun block => block.time.toNat

variable {H}

theorem newest_concat {blocks : List TimeBlock} {tip block : TimeBlock}
    (h : newest blocks = some tip) :
    newest (blocks ++ [block]) = some (if tip.time < block.time then block else tip) := by
  rw [newest, List.argmax_concat, ← newest, h]
  simp only [UInt64.lt_iff_toNat_lt]
  split <;> rfl

theorem mem_of_newest {blocks : List TimeBlock} {tip : TimeBlock} (h : newest blocks = some tip) :
    tip ∈ blocks := List.argmax_mem h

theorem time_le_of_newest {blocks : List TimeBlock} {tip block : TimeBlock}
    (h : newest blocks = some tip) (hblock : block ∈ blocks) : block.time ≤ tip.time :=
  UInt64.le_iff_toNat_le.mpr
    (List.le_of_mem_argmax (f := fun block : TimeBlock => block.time.toNat) hblock h)

/-- The newest of blocks with different times does not depend on their order. -/
theorem newest_perm {blocks blocks' : List TimeBlock} (hperm : blocks.Perm blocks')
    (hdistinct : (blocks.map TimeBlock.time).Nodup) : newest blocks = newest blocks' := by
  cases h : newest blocks with
  | none =>
      obtain rfl := List.argmax_eq_none.mp h
      obtain rfl := hperm.nil_eq
      exact h.symm
  | some tip =>
      cases h' : newest blocks' with
      | none =>
          obtain rfl := List.argmax_eq_none.mp h'
          obtain rfl := hperm.eq_nil
          cases h
      | some tip' =>
          have hmem : tip ∈ blocks := mem_of_newest h
          have hmem' : tip' ∈ blocks := hperm.mem_iff.mpr (mem_of_newest h')
          have hle : tip.time ≤ tip'.time := time_le_of_newest h' (hperm.mem_iff.mp hmem)
          have htime : tip.time = tip'.time :=
            UInt64.le_antisymm hle (time_le_of_newest h hmem')
          rw [List.inj_on_of_nodup_map hdistinct hmem hmem' htime]

/-- So the newest of them and a first block does not either. -/
theorem newest_cons_perm {first : TimeBlock} {blocks blocks' : List TimeBlock}
    (hperm : blocks.Perm blocks') (hdistinct : (blocks.map TimeBlock.time).Nodup) :
    newest (first :: blocks) = newest (first :: blocks') := by
  rw [newest, newest, List.argmax_cons, List.argmax_cons, ← newest, ← newest,
    newest_perm hperm hdistinct]

/-- Beside a latest block the validation ends normally. -/
theorem validateBlock_of_isLatest {storage : FileStorage TimeBlock} {latest : TimeBlock}
    (hlatest : storage.IsLatest H.endian latest) (block : TimeBlock) :
    validateBlock H storage block
      = .ok (decide (latest.time < block.time) && verifySignature H block) := by
  unfold validateBlock verifyTime
  rw [hlatest]
  by_cases hlt : latest.time < block.time
  · cases verifySignature H block <;> simp [bind, Except.bind, pure, Except.pure, hlt]
  · have hle : block.time ≤ latest.time := UInt64.not_lt.mp hlt
    simp [bind, Except.bind, pure, Except.pure, hle]

theorem handleBlock_of_invalid {storage : FileStorage TimeBlock} {block : TimeBlock}
    {io : WriteOutcome} (h : validateBlock H storage block = .ok false) :
    handleBlock H storage block io = .ok storage := by
  unfold handleBlock
  rw [h]
  rfl

theorem handleBlock_of_valid {storage storage' : FileStorage TimeBlock} {block : TimeBlock}
    {io : WriteOutcome} {ok : Bool} (h : validateBlock H storage block = .ok true)
    (hstore : storage.storeBlock H.endian block io = .ok (ok, storage')) :
    handleBlock H storage block io = .ok storage' := by
  unfold handleBlock
  rw [h]
  exact bind_eq_ok.mpr ⟨true, rfl, bind_eq_ok.mpr ⟨_, hstore, rfl⟩⟩

/-- A received block becomes the latest one if it is later and validly signed. -/
theorem exists_handleBlock {storage : FileStorage TimeBlock} {latest : TimeBlock}
    (hlatest : storage.IsLatest H.endian latest) (block : TimeBlock) :
    ∃ storage', handleBlock H storage block .ok = .ok storage' ∧
      storage'.IsLatest H.endian
        (if verifySignature H block = true ∧ latest.time < block.time then block else latest) := by
  have hvalidate := validateBlock_of_isLatest hlatest block
  by_cases hvalid : verifySignature H block = true ∧ latest.time < block.time
  · rw [hvalid.1, decide_eq_true hvalid.2, Bool.and_self] at hvalidate
    obtain ⟨r, storage', hstore⟩ :=
      exists_storeBlock storage .ok (TimeBlock.length_serialize_le H.endian block)
    refine ⟨storage', handleBlock_of_valid hvalidate hstore, ?_⟩
    rw [if_pos hvalid]
    exact isLatest_storeBlock hstore
  · have hrefused : (decide (latest.time < block.time) && verifySignature H block) = false := by
      rw [Bool.and_eq_false_iff, decide_eq_false_iff_not, ← Bool.not_eq_true]
      exact (not_and_or.mp hvalid).symm
    rw [hrefused] at hvalidate
    refine ⟨storage, handleBlock_of_invalid hvalidate, ?_⟩
    rw [if_neg hvalid]
    exact hlatest

/-- **Where the time chain is** after any received blocks: at the newest of the blocks that are
validly signed and the one it was at before. -/
theorem exists_tip_handleBlocks {storage : FileStorage TimeBlock} {latest : TimeBlock}
    (hlatest : storage.IsLatest H.endian latest) (blocks : List TimeBlock) :
    ∃ storage' tip, handleBlocks H storage blocks = .ok storage' ∧
      storage'.IsLatest H.endian tip ∧
      newest (latest :: blocks.filter (verifySignature H)) = some tip := by
  induction blocks using List.reverseRecOn with
  | nil => exact ⟨storage, latest, rfl, hlatest, rfl⟩
  | append_singleton blocks block ih =>
      obtain ⟨storage', tip, hhandle, htip, hnewest⟩ := ih
      obtain ⟨storage'', hstep, htip'⟩ := exists_handleBlock htip block
      refine ⟨storage'', _, ?_, htip', ?_⟩
      · rw [handleBlocks, List.foldlM_append]
        refine bind_eq_ok.mpr ⟨storage', hhandle, ?_⟩
        exact bind_eq_ok.mpr ⟨storage'', hstep, rfl⟩
      · cases hsig : verifySignature H block with
        | false => simpa [hsig] using hnewest
        | true =>
            rw [List.filter_append, ← List.cons_append]
            simp only [List.filter_cons, hsig, if_true, List.filter_nil, true_and]
            exact newest_concat hnewest

/-- **Two time chains agree** when they have received the same blocks, whatever the order, and
they are at the newest of them. -/
theorem timeChain_agreement {storage₁ storage₂ : FileStorage TimeBlock} {latest : TimeBlock}
    (h₁ : storage₁.IsLatest H.endian latest) (h₂ : storage₂.IsLatest H.endian latest)
    {blocks₁ blocks₂ : List TimeBlock} (hdistinct : (blocks₁.map TimeBlock.time).Nodup)
    (hperm : blocks₁.Perm blocks₂) :
    ∃ storage₁' storage₂' tip, handleBlocks H storage₁ blocks₁ = .ok storage₁' ∧
      handleBlocks H storage₂ blocks₂ = .ok storage₂' ∧
      storage₁'.IsLatest H.endian tip ∧ storage₂'.IsLatest H.endian tip ∧
      tip ∈ latest :: blocks₁.filter (verifySignature H) ∧
      ∀ block ∈ latest :: blocks₁.filter (verifySignature H), block.time ≤ tip.time := by
  obtain ⟨storage₁', tip, hhandle₁, htip₁, hnewest₁⟩ := exists_tip_handleBlocks h₁ blocks₁
  obtain ⟨storage₂', tip', hhandle₂, htip₂, hnewest₂⟩ := exists_tip_handleBlocks h₂ blocks₂
  have hdistinct' : ((blocks₁.filter (verifySignature H)).map TimeBlock.time).Nodup :=
    hdistinct.sublist ((List.filter_sublist).map TimeBlock.time)
  have hsame : tip = tip' := by
    rw [newest_cons_perm (hperm.filter _) hdistinct', hnewest₂] at hnewest₁
    exact (Option.some.inj hnewest₁).symm
  subst hsame
  exact ⟨storage₁', storage₂', tip, hhandle₁, hhandle₂, htip₁, htip₂, mem_of_newest hnewest₁,
    fun block hblock => time_le_of_newest hnewest₁ hblock⟩

/-- Of two blocks, one of them signed, received in both orders by two nodes. -/
theorem timeChain_agreement_two :
    ∃ storage storage₁ storage₂ tip,
      (FileStorage.empty : FileStorage TimeBlock).storeBlock .little TimeBlock.empty .ok
        = .ok (true, storage) ∧
      handleBlocks tagHost storage
        [Node.receivedTimeBlock (zeros 32), { TimeBlock.empty with time := 1 }]
        = .ok storage₁ ∧
      handleBlocks tagHost storage
        [{ TimeBlock.empty with time := 1 }, Node.receivedTimeBlock (zeros 32)]
        = .ok storage₂ ∧
      storage₁.IsLatest .little tip ∧ storage₂.IsLatest .little tip := by
  have hlen := TimeBlock.length_serialize_le .little TimeBlock.empty
  obtain ⟨r, storage, hstore⟩ := exists_storeBlock FileStorage.empty .ok hlen
  obtain rfl : r = true := (storeBlock_cases hstore).1
  have hlatest : storage.IsLatest tagHost.endian TimeBlock.empty := isLatest_storeBlock hstore
  have hperm : List.Perm
      [Node.receivedTimeBlock (zeros 32), { TimeBlock.empty with time := 1 }]
      [{ TimeBlock.empty with time := 1 }, Node.receivedTimeBlock (zeros 32)] :=
    List.Perm.swap _ _ []
  obtain ⟨storage₁, storage₂, tip, h₁, h₂, htip₁, htip₂, -⟩ :=
    timeChain_agreement hlatest hlatest (by decide) hperm
  exact ⟨storage, storage₁, storage₂, tip, hstore, h₁, h₂, htip₁, htip₂⟩

end TimeChainConsensus

/-! ## The value chain -/

namespace ValueChainConsensus

variable (H : Host)

/-- The blocks are received one after the other, and no file operation fails. -/
def handleBlocks (timeStorage : FileStorage TimeBlock) (storage : FileStorage ValueBlock)
    (transactionPool : List Transaction) (blocks : List ValueBlock) :
    Except Fault (FileStorage ValueBlock × List Transaction) :=
  blocks.foldlM (fun s block => handleBlock H timeStorage s.1 s.2 block .ok)
    (storage, transactionPool)

variable {H} {timeStorage : FileStorage TimeBlock}

/-- A valid block becomes the latest one. -/
theorem isLatest_of_handleBlock {storage storage' : FileStorage ValueBlock}
    {pool pool' : List Transaction} {block : ValueBlock}
    (hvalid : validateBlock H timeStorage block = .ok true)
    (h : handleBlock H timeStorage storage pool block .ok = .ok (storage', pool')) :
    storage'.IsLatest H.endian block := by
  obtain ⟨valid, hv, h⟩ := bind_eq_ok.mp h
  obtain rfl : true = valid := Except.ok.inj (hvalid.symm.trans hv)
  obtain ⟨⟨ok, storage''⟩, hstore, h⟩ := bind_eq_ok.mp h
  obtain rfl : ok = true := (storeBlock_cases hstore).1
  cases h
  exact isLatest_storeBlock hstore

/-- **Where the value chain is** after valid blocks: at the last of them. -/
theorem getLatestBlock_handleBlocks {storage storage' : FileStorage ValueBlock}
    {pool pool' : List Transaction} {blocks : List ValueBlock}
    (hvalid : ∀ block ∈ blocks, validateBlock H timeStorage block = .ok true)
    (h : handleBlocks H timeStorage storage pool blocks = .ok (storage', pool')) :
    (blocks = [] ∧ storage' = storage) ∨
      ∃ block, blocks.getLast? = some block ∧ storage'.IsLatest H.endian block := by
  induction blocks using List.reverseRecOn with
  | nil =>
      cases h
      exact .inl ⟨rfl, rfl⟩
  | append_singleton blocks block _ =>
      rw [handleBlocks, List.foldlM_append] at h
      obtain ⟨⟨s, p⟩, -, h⟩ := bind_eq_ok.mp h
      obtain ⟨⟨s', p'⟩, hstep, h⟩ := bind_eq_ok.mp h
      cases h
      have hlast : block ∈ blocks ++ [block] := by simp
      exact .inr ⟨block, by simp, isLatest_of_handleBlock (hvalid block hlast) hstep⟩

/-- **When two value chains agree** that have received the same valid blocks: there were none,
or both received the same block last. -/
theorem valueChain_agreement_iff {storage storage₁ storage₂ : FileStorage ValueBlock}
    {pool₁ pool₂ pool₁' pool₂' : List Transaction} {blocks₁ blocks₂ : List ValueBlock}
    (hvalid : ∀ block ∈ blocks₁, validateBlock H timeStorage block = .ok true)
    (hperm : blocks₁.Perm blocks₂)
    (h₁ : handleBlocks H timeStorage storage pool₁ blocks₁ = .ok (storage₁, pool₁'))
    (h₂ : handleBlocks H timeStorage storage pool₂ blocks₂ = .ok (storage₂, pool₂')) :
    storage₁.getLatestBlock H.endian = storage₂.getLatestBlock H.endian ↔
      blocks₁.getLast? = blocks₂.getLast? := by
  have hvalid₂ : ∀ block ∈ blocks₂, validateBlock H timeStorage block = .ok true :=
    fun block hblock => hvalid block (hperm.mem_iff.mpr hblock)
  rcases getLatestBlock_handleBlocks hvalid h₁ with ⟨rfl, rfl⟩ | ⟨block₁, hlast₁, htip₁⟩
  · obtain rfl := hperm.nil_eq
    cases h₂
    exact iff_of_true rfl rfl
  · rcases getLatestBlock_handleBlocks hvalid₂ h₂ with ⟨rfl, rfl⟩ | ⟨block₂, hlast₂, htip₂⟩
    · obtain rfl := hperm.eq_nil
      cases hlast₁
    · rw [hlast₁, hlast₂, htip₁, htip₂]
      simp

/-- A block received on genesis. -/
def blockAt (time : TimePoint) : ValueBlock :=
  Node.receivedValueBlock valueChainGenesisHash timeChainGenesisHash time

/-- Both nodes have started, and the blocks are valid; so they are handled in both orders. -/
theorem exists_handleBlocks (blocks blocks' : List ValueBlock)
    (h : (Node.start tagHost shippedGenesis).any (fun s =>
      decide (∀ block ∈ blocks, validateBlock tagHost s.timeStorage block = .ok true) &&
        (handleBlocks tagHost s.timeStorage s.valueStorage [] blocks).toOption.isSome &&
        (handleBlocks tagHost s.timeStorage s.valueStorage [] blocks').toOption.isSome) = true) :
    ∃ s storage₁ storage₂ pool₁ pool₂, Node.start tagHost shippedGenesis = some s ∧
      (∀ block ∈ blocks, validateBlock tagHost s.timeStorage block = .ok true) ∧
      handleBlocks tagHost s.timeStorage s.valueStorage [] blocks = .ok (storage₁, pool₁) ∧
      handleBlocks tagHost s.timeStorage s.valueStorage [] blocks' = .ok (storage₂, pool₂) := by
  obtain ⟨s, hstart, h⟩ := (Option.any_eq_true _ _).mp h
  rw [Bool.and_eq_true, Bool.and_eq_true] at h
  obtain ⟨⟨hvalid, h₁⟩, h₂⟩ := h
  obtain ⟨⟨storage₁, pool₁⟩, h₁⟩ := Option.isSome_iff_exists.mp h₁
  obtain ⟨⟨storage₂, pool₂⟩, h₂⟩ := Option.isSome_iff_exists.mp h₂
  exact ⟨s, storage₁, storage₂, pool₁, pool₂, hstart, of_decide_eq_true hvalid,
    toOption_eq_some h₁, toOption_eq_some h₂⟩

/-- Of three blocks in two orders, with the same block last. -/
theorem valueChain_agreement_three :
    ∃ s storage₁ storage₂ pool₁ pool₂, Node.start tagHost shippedGenesis = some s ∧
      handleBlocks tagHost s.timeStorage s.valueStorage [] [blockAt 1, blockAt 2, blockAt 3]
        = .ok (storage₁, pool₁) ∧
      handleBlocks tagHost s.timeStorage s.valueStorage [] [blockAt 2, blockAt 1, blockAt 3]
        = .ok (storage₂, pool₂) ∧
      storage₁.getLatestBlock .little = storage₂.getLatestBlock .little := by
  obtain ⟨s, storage₁, storage₂, pool₁, pool₂, hstart, hvalid, h₁, h₂⟩ :=
    exists_handleBlocks [blockAt 1, blockAt 2, blockAt 3] [blockAt 2, blockAt 1, blockAt 3]
      (by decide +kernel)
  exact ⟨s, storage₁, storage₂, pool₁, pool₂, hstart, h₁, h₂,
    (valueChain_agreement_iff hvalid (List.Perm.swap _ _ _) h₁ h₂).mpr rfl⟩

/-- **Two blocks in two orders**: each node is at the block that it has received last. -/
theorem not_valueChain_agreement :
    ∃ s storage₁ storage₂ pool₁ pool₂, Node.start tagHost shippedGenesis = some s ∧
      (∀ block ∈ [blockAt 1, blockAt 2],
        validateBlock tagHost s.timeStorage block = .ok true) ∧
      handleBlocks tagHost s.timeStorage s.valueStorage [] [blockAt 1, blockAt 2]
        = .ok (storage₁, pool₁) ∧
      handleBlocks tagHost s.timeStorage s.valueStorage [] [blockAt 2, blockAt 1]
        = .ok (storage₂, pool₂) ∧
      storage₁.getLatestBlock .little ≠ storage₂.getLatestBlock .little := by
  obtain ⟨s, storage₁, storage₂, pool₁, pool₂, hstart, hvalid, h₁, h₂⟩ :=
    exists_handleBlocks [blockAt 1, blockAt 2] [blockAt 2, blockAt 1] (by decide +kernel)
  refine ⟨s, storage₁, storage₂, pool₁, pool₂, hstart, hvalid, h₁, h₂, fun hsame => ?_⟩
  have hvalid₂ : ∀ block ∈ [blockAt 2, blockAt 1],
      validateBlock tagHost s.timeStorage block = .ok true := fun block hblock =>
    hvalid block ((List.Perm.swap _ _ []).mem_iff.mp hblock)
  rcases getLatestBlock_handleBlocks hvalid h₁ with ⟨hnil, -⟩ | ⟨b₁, hlast₁, htip₁⟩
  · cases hnil
  rcases getLatestBlock_handleBlocks hvalid₂ h₂ with ⟨hnil, -⟩ | ⟨b₂, hlast₂, htip₂⟩
  · cases hnil
  obtain rfl : blockAt 2 = b₁ := Option.some.inj hlast₁
  obtain rfl : blockAt 1 = b₂ := Option.some.inj hlast₂
  have heq := htip₁.symm.trans (hsame.trans htip₂)
  have htime : (blockAt 2).time = (blockAt 1).time := by
    rw [Option.some.inj (Except.ok.inj heq)]
  exact absurd htime (by decide)

end ValueChainConsensus

end CoinPlatform
