/-
# Recovery

A process can stop anywhere inside `store_block`.  The next one opens the directory again and
calls `initialize`, which keeps the latest block if it can be read and else starts the chain
over from genesis.  A copy that was cut off leaves a `latest.block` that cannot be read, so
the chain survives every stop but this one.
-/
import CoinPlatform.StoreRefinement
import CoinPlatform.ValueChainConsensus

open ByteOrder StdVector

namespace CoinPlatform

namespace FileStorage

variable {B : Type} [BlockType B]

/-! ## Stopping and starting again -/

/-- Where the process stops inside `store_block`: before the file of the block is opened, with
some bytes of the block written to it, or with some bytes copied to `latest.block`. -/
inductive StopPoint where
  | opening
  | writing (written : ℕ)
  | copying (copied : ℕ)
  deriving DecidableEq

/-- The failure that leaves the same files. -/
def StopPoint.outcome : StopPoint → WriteOutcome
  | .opening => .openFailed
  | .writing written => .writeFailed written
  | .copying copied => .copyFailed (some copied)

/-- The directory that a process leaves when it stops inside `store_block`. -/
def stopAt (e : Endian) (s : FileStorage B) (block : B) (point : StopPoint) :
    Except Fault (FileStorage B) := do
  let (_, s) ← s.storeBlock e block point.outcome
  return s

/-- The copy to `latest.block` is cut off. -/
def StopPoint.CutsLatest (e : Endian) (block : B) (point : StopPoint) : Prop :=
  ∃ copied, point = .copying copied ∧ copied < (BlockType.serialize e block).length

/-- What `initialize` does on both chains, with the genesis block of the chain: nothing when
the latest block can be read, and else the genesis block is loaded and stored. -/
def initializeFrom (e : Endian) (genesisBlockData : Bytes) (genesisHash : Hash)
    (s : FileStorage B) (io : WriteOutcome) : Except Fault (Bool × FileStorage B) := do
  match ← s.getLatestBlock e with
  | some _ => return (true, s)
  | none =>
    let (ok, genesisBlock) ← BlockType.deserialize e BlockType.empty genesisBlockData
    if !ok then return (false, s)
    if BlockType.getHash genesisBlock ≠ genesisHash then return (false, s)
    s.storeBlock e genesisBlock io

/-- The next start succeeds, and the latest block is the previous one or the one that was
being stored. -/
def Recovers (e : Endian) (initializeChain : FileStorage B → Except Fault (Bool × FileStorage B))
    (stopped : FileStorage B) (latest block : B) : Prop :=
  ∃ s, initializeChain stopped.reopen = .ok (true, s) ∧ (s.IsLatest e latest ∨ s.IsLatest e block)

variable {e : Endian}

section Stop

variable {s stopped : FileStorage B} {block latest : B} {point : StopPoint}

/-- A stop outside the copy leaves the latest block, or has finished. -/
theorem isLatest_stopAt [RejectsTruncated B] (hlatest : s.IsLatest e latest)
    (h : stopAt e s block point = .ok stopped) (hcut : ¬ point.CutsLatest e block) :
    stopped.IsLatest e latest ∨ stopped.IsLatest e block := by
  obtain ⟨⟨r, s'⟩, hstore, h⟩ := bind_eq_ok.mp h
  cases h
  cases point with
  | opening => exact .inl ((getLatestBlock_of_latestFile_none hstore rfl).trans hlatest)
  | writing written => exact .inl ((getLatestBlock_of_latestFile_none hstore rfl).trans hlatest)
  | copying copied =>
      right
      have hall : (BlockType.serialize e block).take copied = BlockType.serialize e block :=
        List.take_of_length_le (Nat.le_of_not_lt fun hlt => hcut ⟨copied, rfl, hlt⟩)
      have hread := getLatestBlock_of_latestFile hstore rfl
      simp only [hall, readPart_serialize] at hread
      exact hread

theorem exists_stopAt (s : FileStorage B) {block : B} (point : StopPoint)
    (hlen : (BlockType.serialize e block).length ≤ maxSize) :
    ∃ stopped, stopAt e s block point = .ok stopped := by
  obtain ⟨r, stopped, hstore⟩ := exists_storeBlock s point.outcome hlen
  exact ⟨stopped, bind_eq_ok.mpr ⟨(r, stopped), hstore, rfl⟩⟩

/-- A stop inside the copy leaves no latest block. -/
theorem getLatestBlock_stopAt_of_cutsLatest [RejectsTruncated B]
    (h : stopAt e s block point = .ok stopped) (hcut : point.CutsLatest e block) :
    stopped.getLatestBlock e = .ok none := by
  obtain ⟨⟨r, s'⟩, hstore, h⟩ := bind_eq_ok.mp h
  cases h
  obtain ⟨copied, rfl, hlt⟩ := hcut
  have hne : (BlockType.serialize e block).take copied ≠ BlockType.serialize e block := by
    intro heq
    have hlength := congrArg List.length heq
    rw [List.length_take] at hlength
    omega
  rw [getLatestBlock_of_latestFile hstore rfl, readPart, if_neg hne]

end Stop

section Start

variable {genesisBlockData : Bytes} {genesisHash : Hash} {s s' : FileStorage B}

theorem initializeFrom_of_isLatest {b : B} {io : WriteOutcome} (hb : s.IsLatest e b) :
    initializeFrom e genesisBlockData genesisHash s io = .ok (true, s) := by
  unfold initializeFrom
  rw [hb]
  rfl

/-- Whatever the directory holds, a start leaves it as it is or stores the genesis block. -/
theorem initializeFrom_cases {io : WriteOutcome} {ok : Bool}
    (h : initializeFrom e genesisBlockData genesisHash s io = .ok (ok, s')) :
    s' = s ∨ ∃ g r, BlockType.deserialize e BlockType.empty genesisBlockData = .ok (true, g) ∧
      s.storeBlock e g io = .ok (r, s') := by
  obtain ⟨o, -, h⟩ := bind_eq_ok.mp h
  cases o with
  | some latest =>
      cases h
      exact .inl rfl
  | none =>
      obtain ⟨⟨decoded, g⟩, hdec, h⟩ := bind_eq_ok.mp h
      cases decoded with
      | false =>
          cases h
          exact .inl rfl
      | true =>
          simp only [Bool.not_true, Bool.false_eq_true, if_false] at h
          split at h
          · cases h
            exact .inl rfl
          · exact .inr ⟨g, ok, hdec, h⟩

/-- Without a latest block the chain starts over. -/
theorem initializeFrom_of_none {io : WriteOutcome} (hnone : s.getLatestBlock e = .ok none) :
    initializeFrom e genesisBlockData genesisHash s io = .ok (true, s') ↔
      ∃ g, BlockType.deserialize e BlockType.empty genesisBlockData = .ok (true, g) ∧
        BlockType.getHash g = genesisHash ∧ s.storeBlock e g io = .ok (true, s') := by
  unfold initializeFrom
  rw [hnone]
  constructor
  · intro h
    obtain ⟨_, hread, h⟩ := bind_eq_ok.mp h
    cases hread
    obtain ⟨⟨ok, g⟩, hdec, h⟩ := bind_eq_ok.mp h
    cases ok with
    | false => cases h
    | true =>
        simp only [Bool.not_true, Bool.false_eq_true, if_false] at h
        split at h
        · cases h
        · rename_i hhash
          exact ⟨g, hdec, not_not.mp hhash, h⟩
  · rintro ⟨g, hdec, hhash, hstore⟩
    refine bind_eq_ok.mpr ⟨none, rfl, bind_eq_ok.mpr ⟨(true, g), hdec, ?_⟩⟩
    simp only [Bool.not_true, Bool.false_eq_true, if_false]
    rw [if_neg (not_not.mpr hhash)]
    exact hstore

theorem getLatestBlock_of_empty (hempty : ∀ filename, s.files filename = none) :
    s.getLatestBlock e = .ok none := by
  simp [getLatestBlock, hempty, pure, Except.pure]

/-- An empty directory gets the genesis block. -/
theorem initializeFrom_of_empty {io : WriteOutcome}
    (hempty : ∀ filename, s.files filename = none)
    (h : initializeFrom e genesisBlockData genesisHash s io = .ok (true, s')) :
    ∃ g, BlockType.deserialize e BlockType.empty genesisBlockData = .ok (true, g) ∧
      BlockType.getHash g = genesisHash ∧ s.storeBlock e g io = .ok (true, s') :=
  (initializeFrom_of_none (getLatestBlock_of_empty hempty)).mp h

/-- The genesis block of a chain is a part of its data, so it can be stored. -/
theorem exists_storeBlock_genesis (t : FileStorage B) {g : B}
    (hlen : genesisBlockData.length ≤ maxSize)
    (hdec : BlockType.deserialize e BlockType.empty genesisBlockData = .ok (true, g)) :
    ∃ t', t.storeBlock e g .ok = .ok (true, t') := by
  have hpre := BlockType.prefix_of_deserialize e _ g _ hlen hdec
  obtain ⟨r, t', hstore⟩ := exists_storeBlock (e := e) t .ok (hpre.length_le.trans hlen)
  obtain rfl : r = true := (storeBlock_cases hstore).1
  exact ⟨t', hstore⟩

end Start

/-- **When a chain survives a stop**: the copy is not cut off, or the chain was at its genesis
block anyway. -/
theorem recovers_initializeFrom_iff [RejectsTruncated B] {genesisBlockData : Bytes}
    {genesisHash : Hash} (hlen : genesisBlockData.length ≤ maxSize)
    (hhash : ∀ g : B, BlockType.deserialize e BlockType.empty genesisBlockData = .ok (true, g) →
      BlockType.getHash g = genesisHash)
    {s stopped : FileStorage B} {latest block : B} {point : StopPoint}
    (hlatest : s.IsLatest e latest) (h : stopAt e s block point = .ok stopped) :
    Recovers e (fun t => initializeFrom e genesisBlockData genesisHash t .ok)
        stopped latest block ↔
      (point.CutsLatest e block →
        BlockType.deserialize e BlockType.empty genesisBlockData = .ok (true, latest) ∨
        BlockType.deserialize e BlockType.empty genesisBlockData = .ok (true, block)) := by
  rw [Recovers, reopen_eq]
  by_cases hcut : point.CutsLatest e block
  · have hnone := getLatestBlock_stopAt_of_cutsLatest h hcut
    simp only [initializeFrom_of_none hnone, hcut, true_implies]
    constructor
    · rintro ⟨s', ⟨g, hg, -, hstore⟩, hs'⟩
      have hgenesis := isLatest_storeBlock hstore
      rcases hs' with hs' | hs'
      · exact .inl (hgenesis.unique hs' ▸ hg)
      · exact .inr (hgenesis.unique hs' ▸ hg)
    · rintro (hg | hg)
      · obtain ⟨s', hstore⟩ := exists_storeBlock_genesis stopped hlen hg
        exact ⟨s', ⟨latest, hg, hhash latest hg, hstore⟩, .inl (isLatest_storeBlock hstore)⟩
      · obtain ⟨s', hstore⟩ := exists_storeBlock_genesis stopped hlen hg
        exact ⟨s', ⟨block, hg, hhash block hg, hstore⟩, .inr (isLatest_storeBlock hstore)⟩
  · refine iff_of_true ?_ (fun hcut' => absurd hcut' hcut)
    rcases isLatest_stopAt hlatest h hcut with hs | hs
    · exact ⟨stopped, initializeFrom_of_isLatest hs, .inl hs⟩
    · exact ⟨stopped, initializeFrom_of_isLatest hs, .inr hs⟩

end FileStorage

open FileStorage

/-! ## The two chains -/

namespace TimeChainConsensus

variable {H : Host} {G : GenesisBlocks}

theorem initializeChain_eq (s : FileStorage TimeBlock) (io : WriteOutcome) :
    initializeChain H G s io
      = initializeFrom H.endian G.timeChainGenesisBlockData G.timeChainGenesisHash s io := by
  refine bind_congr fun latest => ?_
  cases latest <;> rfl

theorem initializeChain_of_empty {storage storage' : FileStorage TimeBlock} {io : WriteOutcome}
    (hempty : ∀ filename, storage.files filename = none)
    (h : initializeChain H G storage io = .ok (true, storage')) :
    ∃ genesisBlock, G.IsTimeGenesis H.endian genesisBlock ∧
      genesisBlock.hash = G.timeChainGenesisHash ∧
      storage.storeBlock H.endian genesisBlock io = .ok (true, storage') := by
  rw [initializeChain_eq] at h
  exact initializeFrom_of_empty hempty h

/-- The next start of the time chain brings back one of the two blocks. -/
def Recovers (H : Host) (G : GenesisBlocks) (stopped : FileStorage TimeBlock)
    (latest block : TimeBlock) : Prop :=
  FileStorage.Recovers H.endian (fun s => initializeChain H G s .ok) stopped latest block

theorem recovers_iff (hlen : G.timeChainGenesisBlockData.length ≤ maxSize)
    (hhash : ∀ g, G.IsTimeGenesis H.endian g → g.hash = G.timeChainGenesisHash)
    {s stopped : FileStorage TimeBlock} {latest block : TimeBlock} {point : StopPoint}
    (hlatest : s.IsLatest H.endian latest)
    (h : stopAt H.endian s block point = .ok stopped) :
    Recovers H G stopped latest block ↔ (point.CutsLatest H.endian block →
      G.IsTimeGenesis H.endian latest ∨ G.IsTimeGenesis H.endian block) := by
  unfold Recovers
  simp only [initializeChain_eq]
  exact recovers_initializeFrom_iff hlen hhash hlatest h

end TimeChainConsensus

namespace ValueChainConsensus

variable {H : Host} {G : GenesisBlocks}

theorem initializeChain_eq (s : FileStorage ValueBlock) (io : WriteOutcome) :
    initializeChain H G s io
      = initializeFrom H.endian G.valueChainGenesisBlockData G.valueChainGenesisHash s io := by
  refine bind_congr fun latest => ?_
  cases latest <;> rfl

theorem initializeChain_of_empty {storage storage' : FileStorage ValueBlock} {io : WriteOutcome}
    (hempty : ∀ filename, storage.files filename = none)
    (h : initializeChain H G storage io = .ok (true, storage')) :
    ∃ genesisBlock, G.IsValueGenesis H.endian genesisBlock ∧
      genesisBlock.hash = G.valueChainGenesisHash ∧
      storage.storeBlock H.endian genesisBlock io = .ok (true, storage') := by
  rw [initializeChain_eq] at h
  exact initializeFrom_of_empty hempty h

/-- The next start of the value chain brings back one of the two blocks. -/
def Recovers (H : Host) (G : GenesisBlocks) (stopped : FileStorage ValueBlock)
    (latest block : ValueBlock) : Prop :=
  FileStorage.Recovers H.endian (fun s => initializeChain H G s .ok) stopped latest block

theorem recovers_iff (hlen : G.valueChainGenesisBlockData.length ≤ maxSize)
    (hhash : ∀ g, G.IsValueGenesis H.endian g → g.hash = G.valueChainGenesisHash)
    {s stopped : FileStorage ValueBlock} {latest block : ValueBlock} {point : StopPoint}
    (hlatest : s.IsLatest H.endian latest)
    (h : stopAt H.endian s block point = .ok stopped) :
    Recovers H G stopped latest block ↔ (point.CutsLatest H.endian block →
      G.IsValueGenesis H.endian latest ∨ G.IsValueGenesis H.endian block) := by
  unfold Recovers
  simp only [initializeChain_eq]
  exact recovers_initializeFrom_iff hlen hhash hlatest h

end ValueChainConsensus

/-! ## The genesis blocks of the repository -/

theorem length_genesisBlockData_le :
    shippedGenesis.timeChainGenesisBlockData.length ≤ maxSize ∧
      shippedGenesis.valueChainGenesisBlockData.length ≤ maxSize := by
  constructor <;> decide +kernel

/-- The genesis block of the time chain has the hash it is checked against. -/
theorem hash_of_isTimeGenesis {e : Endian} {g : TimeBlock}
    (h : shippedGenesis.IsTimeGenesis e g) : g.hash = shippedGenesis.timeChainGenesisHash := by
  have hcheck : (TimeBlock.empty.deserialize e timeChainGenesisBlockData).toOption.all
      (fun r => decide (r.2.hash = timeChainGenesisHash)) = true := by
    cases e <;> decide +kernel
  have hread : TimeBlock.empty.deserialize e timeChainGenesisBlockData = .ok (true, g) := h
  rw [hread] at hcheck
  exact of_decide_eq_true hcheck

/-- So has that of the value chain, on a machine that can read it. -/
theorem hash_of_isValueGenesis {e : Endian} {g : ValueBlock}
    (h : shippedGenesis.IsValueGenesis e g) : g.hash = shippedGenesis.valueChainGenesisHash := by
  have hcheck : (ValueBlock.empty.deserialize e valueChainGenesisBlockData).toOption.all
      (fun r => decide (r.1 = true → r.2.hash = valueChainGenesisHash)) = true := by
    cases e <;> decide +kernel
  have hread : ValueBlock.empty.deserialize e valueChainGenesisBlockData = .ok (true, g) := h
  rw [hread] at hcheck
  exact of_decide_eq_true hcheck rfl

/-- **When a chain of the repository survives a stop**: the process did not stop with
`latest.block` cut off, or the chain was at its genesis block anyway. -/
theorem recovers_iff_of_stopAt (H : Host) :
    (∀ {s stopped : FileStorage TimeBlock} {latest block : TimeBlock} {point : StopPoint},
      s.IsLatest H.endian latest → stopAt H.endian s block point = .ok stopped →
      (TimeChainConsensus.Recovers H shippedGenesis stopped latest block ↔
        (point.CutsLatest H.endian block → shippedGenesis.IsTimeGenesis H.endian latest ∨
          shippedGenesis.IsTimeGenesis H.endian block))) ∧
    (∀ {s stopped : FileStorage ValueBlock} {latest block : ValueBlock} {point : StopPoint},
      s.IsLatest H.endian latest → stopAt H.endian s block point = .ok stopped →
      (ValueChainConsensus.Recovers H shippedGenesis stopped latest block ↔
        (point.CutsLatest H.endian block → shippedGenesis.IsValueGenesis H.endian latest ∨
          shippedGenesis.IsValueGenesis H.endian block))) :=
  ⟨TimeChainConsensus.recovers_iff length_genesisBlockData_le.1 fun _ => hash_of_isTimeGenesis,
    ValueChainConsensus.recovers_iff length_genesisBlockData_le.2
      fun _ => hash_of_isValueGenesis⟩

/-- A directory whose latest block is not the genesis block, and the next block to store. -/
theorem exists_isLatest_empty (point : StopPoint) :
    ∃ s stopped : FileStorage TimeBlock, s.IsLatest .little TimeBlock.empty ∧
      stopAt .little s { TimeBlock.empty with time := 1 } point = .ok stopped := by
  have hlen := TimeBlock.length_serialize_le .little
  obtain ⟨r, s, hs⟩ := exists_storeBlock FileStorage.empty .ok (hlen TimeBlock.empty)
  obtain ⟨stopped, hstop⟩ := exists_stopAt s point (hlen { TimeBlock.empty with time := 1 })
  exact ⟨s, stopped, isLatest_storeBlock hs, hstop⟩

/-- A stop while the file of the block is written. -/
theorem recovers_of_stopAt_writing :
    ∃ s stopped : FileStorage TimeBlock, s.IsLatest .little TimeBlock.empty ∧
      stopAt .little s { TimeBlock.empty with time := 1 } (.writing 5) = .ok stopped ∧
      TimeChainConsensus.Recovers tagHost shippedGenesis stopped TimeBlock.empty
        { TimeBlock.empty with time := 1 } := by
  obtain ⟨s, stopped, hlatest, hstop⟩ := exists_isLatest_empty (.writing 5)
  refine ⟨s, stopped, hlatest, hstop, ?_⟩
  refine ((recovers_iff_of_stopAt tagHost).1 hlatest hstop).mpr ?_
  rintro ⟨copied, hpoint, -⟩
  cases hpoint

/-- **A stop right after the copy has opened `latest.block`** takes the chain back to its
genesis block. -/
theorem not_recovers_of_stopAt_copying :
    ∃ s stopped : FileStorage TimeBlock, s.IsLatest .little TimeBlock.empty ∧
      stopAt .little s { TimeBlock.empty with time := 1 } (.copying 0) = .ok stopped ∧
      ¬ TimeChainConsensus.Recovers tagHost shippedGenesis stopped TimeBlock.empty
        { TimeBlock.empty with time := 1 } := by
  obtain ⟨s, stopped, hlatest, hstop⟩ := exists_isLatest_empty (.copying 0)
  refine ⟨s, stopped, hlatest, hstop, fun hrecovers => ?_⟩
  have hcut : (StopPoint.copying 0).CutsLatest .little { TimeBlock.empty with time := 1 } := by
    refine ⟨0, rfl, ?_⟩
    change 0 < (TimeBlock.serialize .little _).length
    rw [TimeBlock.length_serialize]
    decide
  have hgenesis := (TimeChainConsensus.recovers_iff (H := tagHost) (G := shippedGenesis)
    length_genesisBlockData_le.1 (fun _ => hash_of_isTimeGenesis) hlatest hstop).mp hrecovers hcut
  have hne : ∀ b : TimeBlock, b.hash = zeros 32 → ¬ shippedGenesis.IsTimeGenesis .little b := by
    intro b hb hg
    have hhash := hash_of_isTimeGenesis hg
    rw [hb] at hhash
    exact absurd hhash (by decide)
  rcases hgenesis with hg | hg
  · exact hne _ rfl hg
  · exact hne _ rfl hg

end CoinPlatform
