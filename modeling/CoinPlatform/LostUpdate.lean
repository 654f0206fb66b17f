/-
# Producing while blocks arrive

`produce_block` reads the latest block and stores its own block later, and each of the two is
locked by itself.  A received block may be stored between them: the produced block is then
linked to the one that was the latest at the read, and takes its place as the latest block
beside it.

* `upToDate_step`: what a producer has read stays true until a received block is copied over
  `latest.block`.
* `linksToLatest_run`: in every run without such a step, every produced block is linked to the
  block it follows.
* `not_linksToLatest_run`: one block received at the wrong moment is passed over.
-/
import CoinPlatform.Ancestry
import CoinPlatform.StorageAnswers

open ByteOrder StdVector

namespace CoinPlatform

open FileStorage

/-- What is known of the hash of the latest block survives storing a block that has this hash,
or that is not copied to `latest.block` as a whole. -/
theorem FileStorage.getHash_latest_storeBlock {B : Type} [BlockType B]
    {e : Endian} {s s' : FileStorage B} {x : B} {io : WriteOutcome} {r : Bool} {k : Hash}
    (hs : ∀ latest, s.IsLatest e latest → BlockType.getHash latest = k)
    (hx : io.latestFile (BlockType.serialize e x) = some (BlockType.serialize e x) →
      BlockType.getHash x = k)
    (h : s.storeBlock e x io = .ok (r, s')) :
    ∀ latest, s'.IsLatest e latest → BlockType.getHash latest = k := by
  intro latest hlatest
  rcases isLatest_of_storeBlock h hlatest with ⟨rfl, hcopied⟩ | hlatest
  · exact hx hcopied
  · exact hs latest hlatest

namespace Node

variable {H : Host} {G : GenesisBlocks} {keys : NodeKeys H}

/-! ## The law and its condition -/

/-- The previous hash of the block that the time loop is producing. -/
def TimeLoop.previousHash? : TimeLoop → Option Hash
  | .idle => none
  | .storing block => some block.previousHash

/-- A produced block is linked to the block that is the latest one when it is stored. -/
def LinksToLatest (H : Host) (s : State) (a : Action) : Prop :=
  match a with
  | .storeProducedTime _ => ∀ block, s.timeLoop = .storing block →
    ∀ latest, s.timeStorage.IsLatest H.endian latest → block.previousHash = latest.hash
  | .storeProducedValue _ => ∀ block, s.valueLoop = .storing block →
    ∀ latest, s.valueStorage.IsLatest H.endian latest → block.previousHash = latest.hash
  | _ => True

/-- No received block with another hash is copied to `latest.block` between the two steps of a
producer. -/
def NotOvertaken (H : Host) (s : State) (a : Action) : Prop :=
  match a with
  | .storeReceivedTime io => ∀ block, s.network = .storingTime block →
    io.latestFile (block.serialize H.endian) = some (block.serialize H.endian) →
    ∀ k ∈ s.timeLoop.previousHash?, block.hash = k
  | .storeReceivedValue io => ∀ block, s.network = .storingValue block →
    io.latestFile (block.serialize H.endian) = some (block.serialize H.endian) →
    ∀ k ∈ s.valueLoop.previousHash?, block.hash = k
  | _ => True

instance (s : State) (a : Action) : Decidable (NotOvertaken H s a) := by
  apply Action.casesOn (motive := fun a => Decidable (NotOvertaken H s a)) a <;> intros <;>
    dsimp only [NotOvertaken] <;> infer_instance

/-- The invariant: what a producer has read is the hash of the latest block. -/
structure UpToDate (H : Host) (s : State) : Prop where
  time : ∀ k, s.timeLoop.previousHash? = some k →
    ∀ latest, s.timeStorage.IsLatest H.endian latest → latest.hash = k
  value : ∀ k, s.valueLoop.previousHash? = some k →
    ∀ latest, s.valueStorage.IsLatest H.endian latest → latest.hash = k

/-! ## One step -/

section Step

variable {s t : State} {a : Action}

/-- The previous hash of a block under production has just been read, or was read before. -/
theorem timeLoop_previousHash (h : step H keys a s = some t) {k : Hash}
    (hk : t.timeLoop.previousHash? = some k) :
    s.timeLoop.previousHash? = some k ∨
      ∃ latestBlock, s.timeStorage.getLatestBlock H.endian = .ok latestBlock ∧
        t.timeStorage = s.timeStorage ∧ k = latestBlockHash latestBlock := by
  cases step_cases h with
  | produceTime hphase hlatest hcreate =>
      obtain ⟨signature, -, rfl⟩ := TimeChainConsensus.createBlock_eq_ok hcreate
      cases hk
      exact .inr ⟨_, hlatest, rfl, rfl⟩
  | storeProducedTime hphase hstore => cases hk
  | _ => exact .inl hk

theorem linksToLatest_of_upToDate (hs : UpToDate H s) : LinksToLatest H s a := by
  cases a with
  | storeProducedTime io =>
      intro block hblock latest hlatest
      have hk : s.timeLoop.previousHash? = some block.previousHash := by rw [hblock]; rfl
      exact (hs.time _ hk latest hlatest).symm
  | storeProducedValue io =>
      intro block hblock latest hlatest
      have hk : s.valueLoop.previousHash? = some block.previousHash := by rw [hblock]; rfl
      exact (hs.value _ hk latest hlatest).symm
  | _ => trivial

theorem upToDate_time_step (hs : UpToDate H s) (hC : NotOvertaken H s a)
    (h : step H keys a s = some t) {k : Hash} (hk : t.timeLoop.previousHash? = some k) :
    ∀ latest, t.timeStorage.IsLatest H.endian latest → latest.hash = k := by
  rcases timeLoop_previousHash h hk with hk' | ⟨latestBlock, hread, hsame, rfl⟩
  · rcases timeStorage_cases h with heq | ⟨x, io, ok, hstore, ⟨rfl, -⟩ | ⟨rfl, hnet⟩⟩
    · rw [heq]
      exact hs.time k hk'
    · -- the producer has stored its block, so there is none left
      cases step_cases h with
      | storeProducedTime hphase hstore' => cases hk
    · exact getHash_latest_storeBlock (hs.time k hk') (fun hcopied => hC x hnet hcopied k hk')
        hstore
  · intro latest hlatest
    rw [hsame, IsLatest, hread] at hlatest
    cases hlatest
    rfl

theorem upToDate_value_step (hs : UpToDate H s) (hC : NotOvertaken H s a)
    (h : step H keys a s = some t) {k : Hash} (hk : t.valueLoop.previousHash? = some k) :
    ∀ latest, t.valueStorage.IsLatest H.endian latest → latest.hash = k := by
  rcases valueLoop_previousHash h hk with hk' | ⟨latestBlock, rfl, hread, rfl⟩
  · rcases valueStorage_cases h with heq | ⟨x, io, ok, hstore, ⟨rfl, -⟩ | ⟨rfl, hnet⟩⟩
    · rw [heq]
      exact hs.value k hk'
    · cases step_cases h with
      | storeProducedValue hphase hstore' => cases hk
    · exact getHash_latest_storeBlock (hs.value k hk') (fun hcopied => hC x hnet hcopied k hk')
        hstore
  · intro latest hlatest
    have hsame : t.valueStorage = s.valueStorage := by
      cases step_cases h with
      | readLatestValue hphase hlatest => rfl
    rw [hsame, IsLatest, hread] at hlatest
    cases hlatest
    rfl

/-- **What a producer has read stays true** as long as it is not overtaken. -/
theorem upToDate_step (hs : UpToDate H s) (hC : NotOvertaken H s a)
    (h : step H keys a s = some t) : UpToDate H t :=
  ⟨fun _ hk => upToDate_time_step hs hC h hk, fun _ hk => upToDate_value_step hs hC h hk⟩

end Step

/-! ## Runs -/

/-- **No update is lost where no producer is overtaken.**  From any state in which the two
loops are idle, every produced block is linked to the block it follows. -/
theorem linksToLatest_run {as : List Action} {s₀ : State} (htime : s₀.timeLoop = .idle)
    (hvalue : s₀.valueLoop = .idle) (hC : Along H keys (NotOvertaken H) as s₀) :
    Along H keys (LinksToLatest H) as s₀ := by
  refine Transition.Along.of_invariant (I := UpToDate H)
    (fun s a hs _ => linksToLatest_of_upToDate hs)
    (fun s a t hs hC h => upToDate_step hs hC h) hC ⟨fun k hk => ?_, fun k hk => ?_⟩
  · rw [htime] at hk
    cases hk
  · rw [hvalue] at hk
    cases hk

/-- A received block is stored before the producer reads. -/
theorem linksToLatest_run_received :
    ∃ s₀, start tagHost shippedGenesis = some s₀ ∧
      Along tagHost tagKeys (LinksToLatest tagHost)
        [.receiveTime (receivedTimeBlock timeChainGenesisHash), .storeReceivedTime .ok,
          .produceTime 0 3600000000000, .storeProducedTime .ok] s₀ := by
  have hconforms : Conforms tagHost shippedGenesis tagKeys (NotOvertaken tagHost)
      [.receiveTime (receivedTimeBlock timeChainGenesisHash), .storeReceivedTime .ok,
        .produceTime 0 3600000000000, .storeProducedTime .ok] (fun _ => true) = true := by
    decide +kernel
  obtain ⟨s₀, s, hstart, -, -, hC⟩ := exists_run_of_conforms hconforms
  obtain ⟨timeGenesis, valueGenesis, hs₀⟩ := started_of_start hstart
  exact ⟨s₀, hstart, linksToLatest_run hs₀.timeLoop hs₀.valueLoop hC⟩

/-- **A block received between the two steps** of the producer is passed over: the produced
block is linked to genesis. -/
theorem not_linksToLatest_run :
    ∃ s₀, start tagHost shippedGenesis = some s₀ ∧
      ¬ Along tagHost tagKeys (LinksToLatest tagHost)
        ([.produceTime 0 3600000000000, .receiveTime (receivedTimeBlock timeChainGenesisHash),
          .storeReceivedTime .ok] ++ [.storeProducedTime .ok]) s₀ := by
  have hreaches : Reaches tagHost shippedGenesis tagKeys
      [.produceTime 0 3600000000000, .receiveTime (receivedTimeBlock timeChainGenesisHash),
        .storeReceivedTime .ok]
      (fun s => decide (s.timeLoop.previousHash? = some timeChainGenesisHash ∧
        s.timeStorage.IsLatest .little (receivedTimeBlock timeChainGenesisHash))) = true := by
    decide +kernel
  obtain ⟨s₀, s, hstart, hrun, hp⟩ := exists_run_of_reaches hreaches
  obtain ⟨hprevious, hlatest⟩ := of_decide_eq_true hp
  refine ⟨s₀, hstart, fun halong => ?_⟩
  have hlinks := (halong.of_append hrun).1
  cases hloop : s.timeLoop with
  | idle =>
      rw [hloop] at hprevious
      cases hprevious
  | storing block =>
      rw [hloop] at hprevious
      have heq : block.previousHash = (receivedTimeBlock timeChainGenesisHash).hash :=
        hlinks block hloop _ hlatest
      rw [Option.some.inj hprevious] at heq
      exact absurd heq (by decide +kernel)

end Node

end CoinPlatform
