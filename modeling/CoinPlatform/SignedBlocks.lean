/-
# Stored blocks are signed

What can be read from the stores was put there by an initialization, by a producer or by the
network thread.  A producer signs its block before it stores it, with nothing but the signature
and the hash set afterwards, and the network thread checks the signature of a block before it
stores it; so a block that is read is genesis or validly signed.

`Reachable` are the states of the whole life of a node: it starts from empty directories,
initializes either chain at any time, takes steps, and is started again.
`signed_of_reachable` is about all of them, whatever the file operations do.
-/
import CoinPlatform.Recovery
import CoinPlatform.StoredBlocks

open ByteOrder StdVector

namespace CoinPlatform

open FileStorage

namespace Node

/-- The states in the life of a node. -/
inductive Reachable (H : Host) (G : GenesisBlocks) : State → Prop
  | empty {s : State} (htime : ∀ filename, s.timeStorage.files filename = none)
      (hvalue : ∀ filename, s.valueStorage.files filename = none) (htimeLoop : s.timeLoop = .idle)
      (hvalueLoop : s.valueLoop = .idle) (hnetwork : s.network = .idle) : Reachable H G s
  | initializeTime {s : State} {io : WriteOutcome} {ok : Bool}
      {storage : FileStorage TimeBlock} (hs : Reachable H G s)
      (h : TimeChainConsensus.initializeChain H G s.timeStorage io = .ok (ok, storage)) :
      Reachable H G { s with timeStorage := storage }
  | initializeValue {s : State} {io : WriteOutcome} {ok : Bool}
      {storage : FileStorage ValueBlock} (hs : Reachable H G s)
      (h : ValueChainConsensus.initializeChain H G s.valueStorage io = .ok (ok, storage)) :
      Reachable H G { s with valueStorage := storage }
  | step {s t : State} {a : Action} (keys : NodeKeys H) (hs : Reachable H G s)
      (h : step H keys a s = some t) : Reachable H G t
  -- the pool and what the threads were doing are lost, the files stay
  | restart {s : State} (hs : Reachable H G s) : Reachable H G
      { s with transactionPool := [], timeLoop := .idle, valueLoop := .idle, network := .idle }

variable {H : Host} {G : GenesisBlocks} {keys : NodeKeys H}

/-! ## Starts and runs are part of it -/

theorem reachable_of_start {s : State} (h : start H G = some s) : Reachable H G s := by
  unfold start at h
  split at h
  · rename_i timeStorage valueStorage htime hvalue
    cases h
    obtain ⟨timeDirectory, htime⟩ : ∃ directory, TimeChainConsensus.initializeChain H G
        ⟨directory, fun _ => none⟩ .ok = .ok (true, timeStorage) := ⟨_, htime⟩
    obtain ⟨valueDirectory, hvalue⟩ : ∃ directory, ValueChainConsensus.initializeChain H G
        ⟨directory, fun _ => none⟩ .ok = .ok (true, valueStorage) := ⟨_, hvalue⟩
    have hempty : Reachable H G ⟨⟨timeDirectory, fun _ => none⟩,
        ⟨valueDirectory, fun _ => none⟩, [], .idle, .idle, .idle⟩ :=
      .empty (fun _ => rfl) (fun _ => rfl) rfl rfl rfl
    exact .initializeValue (.initializeTime hempty htime) hvalue
  · cases h

theorem Reachable.run {as : List Action} {s t : State} (hs : Reachable H G s)
    (h : run H keys as s = some t) : Reachable H G t :=
  Transition.run_invariant (fun _ _ _ hs _ h => .step keys hs h) h
    (Transition.along_of_forall (C := fun _ _ => True) (fun _ _ => trivial) as s) hs

/-! ## The invariant -/

/-- The block is the genesis block of its chain, or validly signed. -/
def TimeBlockSigned (H : Host) (G : GenesisBlocks) (block : TimeBlock) : Prop :=
  G.IsTimeGenesis H.endian block ∨ TimeChainConsensus.verifySignature H block = true

def ValueBlockSigned (H : Host) (G : GenesisBlocks) (block : ValueBlock) : Prop :=
  G.IsValueGenesis H.endian block ∨ ValueChainConsensus.verifySignature H block = true

/-- Every block that can be read or is about to be stored is genesis or validly signed. -/
structure BlocksSigned (H : Host) (G : GenesisBlocks) (s : State) : Prop where
  time : TimeBlocks H (TimeBlockSigned H G) s
  value : ValueBlocks H (ValueBlockSigned H G) (fun _ => True) s
  receivedTime : ∀ block, s.network = .storingTime block → TimeBlockSigned H G block
  receivedValue : ∀ block, s.network = .storingValue block → ValueBlockSigned H G block

section Start

variable {B : Type} [BlockType B] {e : Endian} {storage storage' : FileStorage B}

theorem not_readable_of_empty (hempty : ∀ filename, storage.files filename = none) (b : B) :
    ¬ storage.Readable e b := by
  have hread : ∀ filename, storage.readBlockFromFile e filename ≠ .ok (some b) := by
    intro filename h
    obtain ⟨contents, hfile, -⟩ := readBlockFromFile_eq_some.mp h
    rw [hempty] at hfile
    cases hfile
  rintro (⟨k, hb⟩ | hb)
  · exact hread _ (stored_iff.mp hb)
  · exact hread _ (isLatest_iff.mp hb)

/-- An initialization adds nothing to read but the genesis block. -/
theorem readable_initializeFrom {genesisBlockData : Bytes} {genesisHash : Hash}
    {io : WriteOutcome} {ok : Bool}
    (h : initializeFrom e genesisBlockData genesisHash storage io = .ok (ok, storage')) {b : B}
    (hb : storage'.Readable e b) :
    storage.Readable e b ∨ BlockType.deserialize e BlockType.empty genesisBlockData
      = .ok (true, b) := by
  rcases initializeFrom_cases h with rfl | ⟨g, r, hdec, hstore⟩
  · exact .inl hb
  · rcases readable_of_storeBlock hstore hb with rfl | hbefore
    · exact .inr hdec
    · exact .inl hbefore

end Start

/-- **Every step keeps the signatures**: a producer signs, and the network thread checks. -/
theorem blocksSigned_step (hH : H.secp256k1.Correct) {s t : State} {a : Action}
    (hs : BlocksSigned H G s) (h : step H keys a s = some t) : BlocksSigned H G t := by
  refine ⟨?_, ?_, ?_, ?_⟩
  · refine timeBlocks_step (fun _ _ block hcreate => ?_) (fun _ block _ hnet => ?_) hs.time h
    · exact .inr (TimeChainConsensus.verifySignature_createBlock hH hcreate)
    · exact hs.receivedTime block hnet
  · refine valueBlocks_step (fun _ _ _ => trivial) (fun _ _ _ _ block _ hcreate => ?_)
      (fun _ block _ hnet => ?_) hs.value h
    · exact .inr (ValueChainConsensus.verifySignature_createBlock hH hcreate)
    · exact hs.receivedValue block hnet
  · intro block hblock
    rcases network_storingTime h hblock with hbefore | ⟨-, -, hvalid⟩
    · exact hs.receivedTime block hbefore
    · exact .inr (TimeChainConsensus.validateBlock_eq_true.mp hvalid).2
  · intro block hblock
    rcases network_storingValue h hblock with hbefore | ⟨-, -, -, hsig⟩
    · exact hs.receivedValue block hbefore
    · exact .inr hsig

theorem blocksSigned_of_reachable (hH : H.secp256k1.Correct) {s : State}
    (hs : Reachable H G s) : BlocksSigned H G s := by
  induction hs with
  | @empty s htime hvalue htimeLoop hvalueLoop hnetwork =>
      have hphases : BlocksSigned H G
          { s with timeLoop := .idle, valueLoop := .idle, network := .idle } := by
        refine ⟨⟨fun b hb => ?_, fun b hb => ?_⟩,
          ⟨fun b hb => ?_, fun b hb => ?_, fun _ _ => trivial⟩, fun b hb => ?_, fun b hb => ?_⟩
        · exact absurd hb (not_readable_of_empty htime b)
        · cases hb
        · exact absurd hb (not_readable_of_empty hvalue b)
        · cases hb
        · cases hb
        · cases hb
      rwa [← htimeLoop, ← hvalueLoop, ← hnetwork] at hphases
  | initializeTime hs h ih =>
      rw [TimeChainConsensus.initializeChain_eq] at h
      refine ⟨⟨fun b hb => ?_, ih.time.pending⟩, ?_, ih.receivedTime, ih.receivedValue⟩
      · rcases readable_initializeFrom h hb with hbefore | hgenesis
        · exact ih.time.readable b hbefore
        · exact .inl hgenesis
      · exact ⟨ih.value.readable, ih.value.pending, ih.value.gathered⟩
  | initializeValue hs h ih =>
      rw [ValueChainConsensus.initializeChain_eq] at h
      refine ⟨⟨ih.time.readable, ih.time.pending⟩,
        ⟨fun b hb => ?_, ih.value.pending, ih.value.gathered⟩, ih.receivedTime, ih.receivedValue⟩
      rcases readable_initializeFrom h hb with hbefore | hgenesis
      · exact ih.value.readable b hbefore
      · exact .inl hgenesis
  | step keys hs h ih => exact blocksSigned_step hH ih h
  | restart hs ih =>
      refine ⟨⟨ih.time.readable, fun b hb => ?_⟩,
        ⟨ih.value.readable, fun b hb => ?_, fun _ _ => trivial⟩, fun b hb => ?_, fun b hb => ?_⟩
      · cases hb
      · cases hb
      · cases hb
      · cases hb

/-- **Stored blocks are signed.**  At any time in the life of a node every block that can be
read, other than genesis, passes the signature check as it is read. -/
theorem signed_of_reachable (hH : H.secp256k1.Correct) {s : State} (hs : Reachable H G s) :
    (∀ block, s.timeStorage.Readable H.endian block →
      G.IsTimeGenesis H.endian block ∨ TimeChainConsensus.verifySignature H block = true) ∧
    ∀ block, s.valueStorage.Readable H.endian block →
      G.IsValueGenesis H.endian block ∨ ValueChainConsensus.verifySignature H block = true := by
  have hsigned := blocksSigned_of_reachable hH hs
  exact ⟨hsigned.time.readable, hsigned.value.readable⟩

/-- After a received time block and a produced value block. -/
theorem signed_of_reachable_latest :
    tagHost.secp256k1.Correct ∧ ∃ s timeBlock valueBlock, Reachable tagHost shippedGenesis s ∧
      s.timeStorage.IsLatest .little timeBlock ∧ s.valueStorage.IsLatest .little valueBlock ∧
      (shippedGenesis.IsTimeGenesis .little timeBlock ∨
        TimeChainConsensus.verifySignature tagHost timeBlock = true) ∧
      (shippedGenesis.IsValueGenesis .little valueBlock ∨
        ValueChainConsensus.verifySignature tagHost valueBlock = true) := by
  have hreaches : Reaches tagHost shippedGenesis tagKeys
      ([.receiveTime (receivedTimeBlock timeChainGenesisHash), .storeReceivedTime .ok,
        .addTransaction (payment paymentSignature)] ++ produceValueSteps .ok)
      (fun s => (s.timeStorage.getLatestBlock .little).toOption.join.isSome &&
        (s.valueStorage.getLatestBlock .little).toOption.join.isSome) = true := by decide +kernel
  obtain ⟨s₀, s, hstart, hrun, hlatest⟩ := exists_run_of_reaches hreaches
  rw [Bool.and_eq_true] at hlatest
  obtain ⟨timeBlock, htime⟩ := Option.isSome_iff_exists.mp hlatest.1
  obtain ⟨valueBlock, hvalue⟩ := Option.isSome_iff_exists.mp hlatest.2
  have hreadTime : s.timeStorage.IsLatest .little timeBlock :=
    toOption_eq_some (Option.join_eq_some_iff.mp htime)
  have hreadValue : s.valueStorage.IsLatest .little valueBlock :=
    toOption_eq_some (Option.join_eq_some_iff.mp hvalue)
  have hs : Reachable tagHost shippedGenesis s := (reachable_of_start hstart).run hrun
  have hsigned := signed_of_reachable tagSecp256k1_correct hs
  exact ⟨tagSecp256k1_correct, s, timeBlock, valueBlock, hs, hreadTime, hreadValue,
    hsigned.1 timeBlock (.inr hreadTime), hsigned.2 valueBlock (.inr hreadValue)⟩

end Node

end CoinPlatform
