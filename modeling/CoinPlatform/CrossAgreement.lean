/-
# Agreement between the two chains

Two nodes that have received the same time blocks are at the same latest time block, but they
need not have stored the same ones: a block that comes after a later one is refused.  A value
block may name any stored time block, so the nodes can differ about it.

* `blockExists_handleBlocks`: the time blocks stored are those that were later than every block
  received before them (`IsRecord`);
* `verifyTimeReference_agree_iff`: two nodes give the same verdict on a value block exactly when
  it lies in the future for both, or names a time block that both have or neither has;
* `not_verifyTimeReference_agree`: two time blocks in two orders, and a value block that one of
  the nodes refuses.
-/
import CoinPlatform.FrozenClock

open ByteOrder StdVector

namespace CoinPlatform

open FileStorage

/-! ## Records -/

/-- The block is later than the first one and than all that come before it. -/
def IsRecord (first : TimeBlock) (blocks : List TimeBlock) (block : TimeBlock) : Prop :=
  ∃ before after, blocks = before ++ block :: after ∧ ∀ b ∈ first :: before, b.time < block.time

theorem not_isRecord_nil (first block : TimeBlock) : ¬ IsRecord first [] block := by
  rintro ⟨before, after, h, -⟩
  exact absurd h.symm (List.append_ne_nil_of_right_ne_nil before (List.cons_ne_nil block after))

/-- The records among more blocks: those before, and the new block if it is one. -/
theorem isRecord_concat {first last block : TimeBlock} {blocks : List TimeBlock} :
    IsRecord first (blocks ++ [last]) block ↔
      IsRecord first blocks block ∨
        (block = last ∧ ∀ b ∈ first :: blocks, b.time < last.time) := by
  constructor
  · rintro ⟨before, after, h, hlater⟩
    rcases List.eq_nil_or_concat after with rfl | ⟨after, x, rfl⟩
    · obtain ⟨rfl, heq⟩ := List.append_inj' h rfl
      obtain rfl := (List.cons.inj heq).1
      exact .inr ⟨rfl, hlater⟩
    · rw [List.concat_eq_append, ← List.cons_append, ← List.append_assoc] at h
      obtain ⟨rfl, -⟩ := List.append_inj' h rfl
      exact .inl ⟨before, after, rfl, hlater⟩
  · rintro (⟨before, after, rfl, hlater⟩ | ⟨rfl, hlater⟩)
    · exact ⟨before, after ++ [last], by simp, hlater⟩
    · exact ⟨blocks, [], rfl, hlater⟩

/-- The newest of some blocks is the one to beat. -/
theorem TimeChainConsensus.time_lt_of_newest_iff {blocks : List TimeBlock} {tip : TimeBlock}
    (h : newest blocks = some tip) {time : TimePoint} :
    tip.time < time ↔ ∀ b ∈ blocks, b.time < time := by
  constructor
  · intro hlt b hb
    exact UInt64.lt_of_le_of_lt (time_le_of_newest h hb) hlt
  · exact fun hall => hall tip (mem_of_newest h)

/-! ## What is stored -/

namespace TimeChainConsensus

variable {H : Host}

/-- One more block is received after the others. -/
theorem handleBlocks_concat {storage storage' : FileStorage TimeBlock} {blocks : List TimeBlock}
    {block : TimeBlock} (h : handleBlocks H storage (blocks ++ [block]) = .ok storage') :
    ∃ mid, handleBlocks H storage blocks = .ok mid ∧
      handleBlock H mid block .ok = .ok storage' := by
  rw [handleBlocks, List.foldlM_append] at h
  obtain ⟨mid, hmid, h⟩ := bind_eq_ok.mp h
  obtain ⟨storage'', hstep, hend⟩ := bind_eq_ok.mp h
  obtain rfl := Except.ok.inj hend
  exact ⟨mid, hmid, hstep⟩

/-- A validly signed block is stored exactly if it is later than the latest one. -/
theorem blockExists_handleBlock {storage storage' : FileStorage TimeBlock}
    {latest block : TimeBlock} (hlatest : storage.IsLatest H.endian latest)
    (hsig : verifySignature H block = true)
    (h : handleBlock H storage block .ok = .ok storage') (k : Hash) :
    storage'.blockExists k = true ↔
      storage.blockExists k = true ∨ (latest.time < block.time ∧ block.hash = k) := by
  have hvalidate := validateBlock_of_isLatest hlatest block
  rw [hsig, Bool.and_true] at hvalidate
  by_cases hlt : latest.time < block.time
  · rw [decide_eq_true hlt] at hvalidate
    obtain ⟨r, storage'', hstore⟩ :=
      exists_storeBlock storage .ok (TimeBlock.length_serialize_le H.endian block)
    have hsame := (handleBlock_of_valid hvalidate hstore).symm.trans h
    obtain rfl := Except.ok.inj hsame
    rw [blockExists_storeBlock hstore, and_iff_right hlt]
    refine or_congr_right ?_
    rw [and_iff_left (by simp)]
    exact eq_comm
  · rw [decide_eq_false hlt] at hvalidate
    have hsame := (handleBlock_of_invalid hvalidate).symm.trans h
    obtain rfl := Except.ok.inj hsame
    rw [or_iff_left (fun hnew => hlt hnew.1)]

/-- A time chain that starts from an empty directory has the genesis block and no other. -/
theorem exists_genesis_of_initializeChain {G : GenesisBlocks}
    {directory storage : FileStorage TimeBlock}
    (hempty : ∀ filename, directory.files filename = none)
    (h : initializeChain H G directory .ok = .ok (true, storage)) :
    ∃ genesis, G.IsTimeGenesis H.endian genesis ∧ storage.IsLatest H.endian genesis ∧
      ∀ k, storage.blockExists k = true ↔ genesis.hash = k := by
  obtain ⟨genesis, hgenesis, -, hstore⟩ := initializeChain_of_empty hempty h
  refine ⟨genesis, hgenesis, isLatest_storeBlock hstore, fun k => ?_⟩
  have hnone : directory.blockExists k = false := by
    rw [blockExists, hempty]
    rfl
  rw [blockExists_storeBlock hstore, hnone, or_iff_right Bool.false_ne_true,
    and_iff_left (by simp)]
  exact eq_comm

/-- **What is stored** after validly signed blocks: what was there before, and the records. -/
theorem blockExists_handleBlocks {storage : FileStorage TimeBlock} {latest : TimeBlock}
    (hlatest : storage.IsLatest H.endian latest) {blocks : List TimeBlock}
    (hsigned : ∀ block ∈ blocks, verifySignature H block = true) :
    ∀ {storage' : FileStorage TimeBlock}, handleBlocks H storage blocks = .ok storage' →
      ∀ k, storage'.blockExists k = true ↔
        storage.blockExists k = true ∨ ∃ block, IsRecord latest blocks block ∧ block.hash = k := by
  induction blocks using List.reverseRecOn with
  | nil =>
      intro storage' h k
      obtain rfl := Except.ok.inj h
      rw [or_iff_left]
      rintro ⟨block, hrecord, -⟩
      exact not_isRecord_nil latest block hrecord
  | append_singleton blocks last ih =>
      intro storage' h k
      have hbefore : ∀ block ∈ blocks, verifySignature H block = true :=
        fun block hblock => hsigned block (List.mem_append_left _ hblock)
      have hlast : verifySignature H last = true := hsigned last (by simp)
      obtain ⟨mid, hmid, hstep⟩ := handleBlocks_concat h
      obtain ⟨mid', tip, hmid', htip, hnewest⟩ := exists_tip_handleBlocks hlatest blocks
      obtain rfl : mid = mid' := Except.ok.inj (hmid.symm.trans hmid')
      rw [List.filter_eq_self.mpr hbefore] at hnewest
      rw [blockExists_handleBlock htip hlast hstep, ih hbefore hmid,
        time_lt_of_newest_iff hnewest, or_assoc]
      refine or_congr_right ?_
      simp only [isRecord_concat, or_and_right, exists_or]
      refine or_congr_right ?_
      constructor
      · rintro ⟨hlater, hk⟩
        exact ⟨last, ⟨rfl, hlater⟩, hk⟩
      · rintro ⟨block, ⟨rfl, hlater⟩, hk⟩
        exact ⟨hlater, hk⟩

end TimeChainConsensus

/-! ## The verdict -/

namespace ValueChainConsensus

variable {H : Host} {G : GenesisBlocks}

/-- Beside a latest time block the reference is checked without an exception. -/
theorem verifyTimeReference_of_isLatest {timeStorage : FileStorage TimeBlock}
    {latest : TimeBlock} (hlatest : timeStorage.IsLatest H.endian latest) (block : ValueBlock) :
    verifyTimeReference H timeStorage block
      = .ok (timeStorage.blockExists block.timeBlockHash &&
        decide (block.time ≤ latest.time)) := by
  unfold verifyTimeReference TimeChain.blockExists
  rw [getCurrentTime_of_isLatest hlatest]
  cases timeStorage.blockExists block.timeBlockHash with
  | false => rfl
  | true =>
      by_cases hle : block.time ≤ latest.time
      · have hlt : ¬ latest.time < block.time := UInt64.not_lt.mpr hle
        simp [bind, Except.bind, pure, Except.pure, hle]
      · have hlt : latest.time < block.time := UInt64.not_le.mp hle
        simp [bind, Except.bind, pure, Except.pure, hlt]

/-- Two nodes at the same time differ about blocks that are not in the future exactly where one
of them has the time block and the other has not. -/
theorem verifyTimeReference_eq_iff {storage₁ storage₂ : FileStorage TimeBlock}
    {latest : TimeBlock} (h₁ : storage₁.IsLatest H.endian latest)
    (h₂ : storage₂.IsLatest H.endian latest) (block : ValueBlock) :
    verifyTimeReference H storage₁ block = verifyTimeReference H storage₂ block ↔
      latest.time < block.time ∨
        storage₁.blockExists block.timeBlockHash = storage₂.blockExists block.timeBlockHash := by
  rw [verifyTimeReference_of_isLatest h₁, verifyTimeReference_of_isLatest h₂, Except.ok.injEq]
  by_cases hle : block.time ≤ latest.time
  · rw [decide_eq_true hle, Bool.and_true, Bool.and_true, or_iff_right (UInt64.not_lt.mpr hle)]
  · rw [decide_eq_false hle, Bool.and_false, Bool.and_false]
    exact iff_of_true rfl (.inl (UInt64.not_le.mp hle))

/-- **When two nodes agree about a value block.**  They have started from the same genesis block
and received the same validly signed time blocks, each in its own order: then they are at the
same time, each has stored the genesis block and the records of its order, and they give the
same verdict on a value block exactly when its time is in the future for both, or its time block
exists on both or on neither. -/
theorem verifyTimeReference_agree_iff {directory₁ directory₂ : FileStorage TimeBlock}
    {storage₁ storage₂ : FileStorage TimeBlock}
    (hempty₁ : ∀ filename, directory₁.files filename = none)
    (hempty₂ : ∀ filename, directory₂.files filename = none)
    (hstart₁ : TimeChainConsensus.initializeChain H G directory₁ .ok = .ok (true, storage₁))
    (hstart₂ : TimeChainConsensus.initializeChain H G directory₂ .ok = .ok (true, storage₂))
    {blocks₁ blocks₂ : List TimeBlock}
    (hsigned : ∀ block ∈ blocks₁, TimeChainConsensus.verifySignature H block = true)
    (hdistinct : (blocks₁.map TimeBlock.time).Nodup) (hperm : blocks₁.Perm blocks₂) :
    ∃ storage₁' storage₂' genesis latest, G.IsTimeGenesis H.endian genesis ∧
      TimeChainConsensus.handleBlocks H storage₁ blocks₁ = .ok storage₁' ∧
      TimeChainConsensus.handleBlocks H storage₂ blocks₂ = .ok storage₂' ∧
      storage₁'.IsLatest H.endian latest ∧ storage₂'.IsLatest H.endian latest ∧
      (∀ k, storage₁'.blockExists k = true ↔
        genesis.hash = k ∨ ∃ block, IsRecord genesis blocks₁ block ∧ block.hash = k) ∧
      (∀ k, storage₂'.blockExists k = true ↔
        genesis.hash = k ∨ ∃ block, IsRecord genesis blocks₂ block ∧ block.hash = k) ∧
      ∀ block, verifyTimeReference H storage₁' block = verifyTimeReference H storage₂' block ↔
        latest.time < block.time ∨
          storage₁'.blockExists block.timeBlockHash
            = storage₂'.blockExists block.timeBlockHash := by
  obtain ⟨genesis, hgenesis, hlatest₁, hexists₁⟩ :=
    TimeChainConsensus.exists_genesis_of_initializeChain hempty₁ hstart₁
  obtain ⟨genesis', hgenesis', hlatest₂, hexists₂⟩ :=
    TimeChainConsensus.exists_genesis_of_initializeChain hempty₂ hstart₂
  obtain rfl : genesis = genesis' := hgenesis.unique hgenesis'
  have hsigned₂ : ∀ block ∈ blocks₂, TimeChainConsensus.verifySignature H block = true :=
    fun block hblock => hsigned block (hperm.mem_iff.mpr hblock)
  obtain ⟨storage₁', latest, hhandle₁, htip₁, hnewest₁⟩ :=
    TimeChainConsensus.exists_tip_handleBlocks hlatest₁ blocks₁
  obtain ⟨storage₂', latest', hhandle₂, htip₂, hnewest₂⟩ :=
    TimeChainConsensus.exists_tip_handleBlocks hlatest₂ blocks₂
  -- all blocks are signed, so both nodes are at the newest of the same blocks
  rw [List.filter_eq_self.mpr hsigned] at hnewest₁
  rw [List.filter_eq_self.mpr hsigned₂, ← TimeChainConsensus.newest_cons_perm hperm hdistinct,
    hnewest₁] at hnewest₂
  obtain rfl : latest = latest' := Option.some.inj hnewest₂
  refine ⟨storage₁', storage₂', genesis, latest, hgenesis, hhandle₁, hhandle₂, htip₁, htip₂,
    ?_, ?_, verifyTimeReference_eq_iff htip₁ htip₂⟩
  · intro k
    rw [TimeChainConsensus.blockExists_handleBlocks hlatest₁ hsigned hhandle₁, hexists₁]
  · intro k
    rw [TimeChainConsensus.blockExists_handleBlocks hlatest₂ hsigned₂ hhandle₂, hexists₂]

/-! ## Two time blocks in two orders -/

/-- A time block that is later than genesis. -/
def earlierBlock : TimeBlock := Node.receivedTimeBlockAt 2000000000000000000

def laterBlock : TimeBlock := Node.receivedTimeBlockAt 2000000000000000001

/-- A value block that names the earlier one. -/
def referringBlock : ValueBlock := { ValueBlock.empty with timeBlockHash := earlierBlock.hash }

theorem verifySignature_twoBlocks : ∀ block ∈ [earlierBlock, laterBlock],
    TimeChainConsensus.verifySignature tagHost block = true := by
  intro block hblock
  rcases List.mem_pair.mp hblock with rfl | rfl
  · exact Node.verifySignature_receivedTimeBlockAt _
  · exact Node.verifySignature_receivedTimeBlockAt _

theorem verifyTimeReference_agree_iff_two :
    ∃ storage storage₁ storage₂ latest,
      TimeChainConsensus.initializeChain tagHost shippedGenesis FileStorage.empty .ok
        = .ok (true, storage) ∧
      TimeChainConsensus.handleBlocks tagHost storage [earlierBlock, laterBlock] = .ok storage₁ ∧
      TimeChainConsensus.handleBlocks tagHost storage [laterBlock, earlierBlock] = .ok storage₂ ∧
      storage₁.IsLatest .little latest ∧ storage₂.IsLatest .little latest := by
  obtain ⟨storage, hstart⟩ := TimeChainConsensus.exists_initializeChain_tagHost
  have hdistinct : ([earlierBlock, laterBlock].map TimeBlock.time).Nodup := by decide
  obtain ⟨storage₁, storage₂, genesis, latest, -, h₁, h₂, htip₁, htip₂, -⟩ :=
    verifyTimeReference_agree_iff (fun _ => rfl) (fun _ => rfl) hstart hstart
      verifySignature_twoBlocks hdistinct (List.Perm.swap laterBlock earlierBlock [])
  exact ⟨storage, storage₁, storage₂, latest, hstart, h₁, h₂, htip₁, htip₂⟩

/-- **The nodes differ**: the one that has received the later block first refuses the earlier
one, and with it the value block that names it. -/
theorem not_verifyTimeReference_agree :
    ∃ storage storage₁ storage₂,
      TimeChainConsensus.initializeChain tagHost shippedGenesis FileStorage.empty .ok
        = .ok (true, storage) ∧
      (∀ block ∈ [earlierBlock, laterBlock],
        TimeChainConsensus.verifySignature tagHost block = true) ∧
      earlierBlock.time ≠ laterBlock.time ∧
      TimeChainConsensus.handleBlocks tagHost storage [earlierBlock, laterBlock] = .ok storage₁ ∧
      TimeChainConsensus.handleBlocks tagHost storage [laterBlock, earlierBlock] = .ok storage₂ ∧
      verifyTimeReference tagHost storage₁ referringBlock = .ok true ∧
      verifyTimeReference tagHost storage₂ referringBlock = .ok false := by
  have hcheck : (TimeChainConsensus.initializeChain tagHost shippedGenesis FileStorage.empty
      .ok).toOption.any (fun r => r.1 &&
        (TimeChainConsensus.handleBlocks tagHost r.2
          [earlierBlock, laterBlock]).toOption.any (fun storage₁ =>
            (TimeChainConsensus.handleBlocks tagHost r.2
              [laterBlock, earlierBlock]).toOption.any (fun storage₂ =>
                (verifyTimeReference tagHost storage₁ referringBlock).toOption == some true &&
                  (verifyTimeReference tagHost storage₂ referringBlock).toOption
                    == some false))) = true := by
    decide +kernel
  obtain ⟨⟨ok, storage⟩, hstart, hcheck⟩ := (Option.any_eq_true _ _).mp hcheck
  obtain ⟨hok, hcheck⟩ := Bool.and_eq_true_iff.mp hcheck
  obtain rfl : ok = true := hok
  obtain ⟨storage₁, h₁, hcheck⟩ := (Option.any_eq_true _ _).mp hcheck
  obtain ⟨storage₂, h₂, hcheck⟩ := (Option.any_eq_true _ _).mp hcheck
  obtain ⟨hyes, hno⟩ := Bool.and_eq_true_iff.mp hcheck
  exact ⟨storage, storage₁, storage₂, toOption_eq_some hstart, verifySignature_twoBlocks,
    by decide, toOption_eq_some h₁, toOption_eq_some h₂, toOption_eq_some (eq_of_beq hyes),
    toOption_eq_some (eq_of_beq hno)⟩

end ValueChainConsensus

end CoinPlatform
