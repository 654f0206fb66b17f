/-
# Ancestry

A produced block is linked to the latest block of its chain.  A received one is linked to
whatever its previous hash says: no validator looks at it.

* `AncestorClosed`: every stored block but genesis has its parent in the store, and genesis is
  reached from the latest block.
* `ancestorClosed_run`: both chains stay closed as long as every received block that is
  stored is genesis or extends the store, and the name of no produced block is that of one of
  its ancestors.  A block extends the store if genesis is reached from its previous hash, by
  blocks none of which has its name.
* `not_ancestorClosed_run`: one signed block with an unknown previous hash becomes the latest
  block.
-/
import CoinPlatform.LinkedMap
import CoinPlatform.StoredBlocks

open ByteOrder StdVector LinkedMap

namespace CoinPlatform

/-! ## One chain -/

section Chain

variable {B : Type} [BlockType B] (e : Endian) (previousHash : B → Hash) (genesis : B)

/-- Every stored block but genesis names another stored block as its parent, and genesis is
reached from the latest block. -/
def AncestorClosed (s : FileStorage B) : Prop :=
  (∀ k b, s.Stored e k b → b ≠ genesis →
    ∃ p, s.Stored e (previousHash b) p ∧ BlockType.getHash p = previousHash b ∧ p ≠ b) ∧
  ∃ latest, s.IsLatest e latest ∧
    Linked previousHash genesis (s.Stored e) (BlockType.getHash latest)

/-- Genesis is reached from the previous hash of the block, without its own name. -/
def Extends (s : FileStorage B) (b : B) : Prop :=
  Linked previousHash genesis (Avoiding (s.Stored e) (BlockType.getHash b)) (previousHash b)

/-- The invariant of one chain: genesis is reached from every stored block, and the latest
block can be read. -/
structure Closed (s : FileStorage B) : Prop where
  named : ∀ k b, s.Stored e k b → BlockType.getHash b = k
  linked : ∀ k b, s.Stored e k b → Linked previousHash genesis (s.Stored e) k
  latest : ∃ latest, s.IsLatest e latest ∧
    Linked previousHash genesis (s.Stored e) (BlockType.getHash latest)

variable {e previousHash genesis} {s s' : FileStorage B}

theorem Closed.ancestorClosed (hs : Closed e previousHash genesis s) :
    AncestorClosed e previousHash genesis s := by
  refine ⟨fun k b hb hne => ?_, hs.latest⟩
  have hfun : ∀ k b b', s.Stored e k b → s.Stored e k b' → b = b' :=
    fun k b b' hb hb' => hb.unique hb'
  have hlinked := hs.linked k b hb
  obtain ⟨p, hp⟩ := (hlinked.parent_linked hfun hb hne).exists_node
  refine ⟨p, hp, hs.named _ p hp, ?_⟩
  -- a block that is its own parent would lead back to itself, and never to genesis
  rintro rfl
  have hk : previousHash p = k := by rw [← hs.named _ p hp, hs.named k p hb]
  exact hlinked.parent_ne hfun hb hne hk

/-- Storing genesis again, or a block that extends the store, keeps everything linked. -/
theorem linked_storeBlock {x : B} {r : Bool} (h : s.storeBlock e x .ok = .ok (r, s'))
    (hx : x = genesis ∨ Extends e previousHash genesis s x) {k : Hash}
    (hk : Linked previousHash genesis (s.Stored e) k) :
    Linked previousHash genesis (s'.Stored e) k :=
  hk.insert (FileStorage.stored_storeBlock h rfl)
    (fun _ _ hne hb => FileStorage.Stored.storeBlock_of_ne h hb hne) hx

theorem Closed.storeBlock {x : B} {r : Bool} (hs : Closed e previousHash genesis s)
    (h : s.storeBlock e x .ok = .ok (r, s'))
    (hx : x = genesis ∨ Extends e previousHash genesis s x) :
    Closed e previousHash genesis s' := by
  have hstored := FileStorage.stored_storeBlock h rfl
  have hlinked : Linked previousHash genesis (s'.Stored e) (BlockType.getHash x) := by
    rcases hx with rfl | hx
    · exact .root hstored
    · refine .link hstored (linked_storeBlock h (.inr hx) (hx.mono fun k b hb => hb.2))
  exact {
    named := by
      intro k b hb
      rcases FileStorage.stored_of_storeBlock h hb with ⟨hk, rfl, -⟩ | ⟨hb, -⟩
      · exact hk.symm
      · exact hs.named k b hb
    linked := by
      intro k b hb
      rcases FileStorage.stored_of_storeBlock h hb with ⟨rfl, rfl, -⟩ | ⟨hb, -⟩
      · exact hlinked
      · exact linked_storeBlock h hx (hs.linked k b hb)
    latest := ⟨x, FileStorage.isLatest_storeBlock h, hlinked⟩ }

/-- The hash a producer links to is linked. -/
theorem Closed.linked_latestBlockHash (hs : Closed e previousHash genesis s)
    {latestBlock : Option B} (h : s.getLatestBlock e = .ok latestBlock) :
    Linked previousHash genesis (s.Stored e) (latestBlockHash latestBlock) := by
  obtain ⟨latest, hlatest, hlinked⟩ := hs.latest
  obtain rfl : some latest = latestBlock := Except.ok.inj (hlatest.symm.trans h)
  exact hlinked

end Chain

namespace Node

variable {H : Host} {G : GenesisBlocks} {keys : NodeKeys H}

/-! ## The node -/

/-- What the validators do not check, when no file operation fails: a received block that is
stored is genesis or extends the store, and a produced block does if its parent is linked. -/
def ParentsChecked (H : Host) (timeGenesis : TimeBlock) (valueGenesis : ValueBlock) (s : State)
    (a : Action) : Prop :=
  match a with
  | .storeProducedTime io => io = .ok ∧ ∀ b, s.timeLoop = .storing b →
    Linked TimeBlock.previousHash timeGenesis (s.timeStorage.Stored H.endian) b.previousHash →
    Extends H.endian TimeBlock.previousHash timeGenesis s.timeStorage b
  | .storeReceivedTime io => io = .ok ∧ ∀ b, s.network = .storingTime b →
    b = timeGenesis ∨ Extends H.endian TimeBlock.previousHash timeGenesis s.timeStorage b
  | .storeProducedValue io => io = .ok ∧ ∀ b, s.valueLoop = .storing b →
    Linked ValueBlock.previousHash valueGenesis (s.valueStorage.Stored H.endian)
      b.previousHash →
    Extends H.endian ValueBlock.previousHash valueGenesis s.valueStorage b
  | .storeReceivedValue io => io = .ok ∧ ∀ b, s.network = .storingValue b →
    b = valueGenesis ∨ Extends H.endian ValueBlock.previousHash valueGenesis s.valueStorage b
  | _ => True

/-- The previous hash of the block that the value loop is producing, once it is read. -/
def ValueLoop.previousHash? : ValueLoop → Option Hash
  | .linked _ latestBlock => some (latestBlockHash latestBlock)
  | .timed _ latestBlock _ => some (latestBlockHash latestBlock)
  | .storing block => some block.previousHash
  | _ => none

/-- The previous hash of a block under production has just been read, or was read before. -/
theorem valueLoop_previousHash {a : Action} {s t : State} (h : step H keys a s = some t)
    {k : Hash} (hk : t.valueLoop.previousHash? = some k) :
    s.valueLoop.previousHash? = some k ∨
      ∃ latestBlock, a = .readLatestValue ∧
        s.valueStorage.getLatestBlock H.endian = .ok latestBlock ∧
        k = latestBlockHash latestBlock := by
  cases step_cases h with
  | produceValue hphase => cases hk
  | gatherNothing hphase hpool => cases hk
  | gather hphase hcoinbase => cases hk
  | readLatestValue hphase hlatest => cases hk; exact .inr ⟨_, rfl, hlatest, rfl⟩
  | readTime hphase htime => exact .inl (by rw [hphase]; exact hk)
  | readTimeHash hphase hhash hcreate =>
      obtain ⟨hprevious, -⟩ := ValueChainConsensus.fields_createBlock hcreate
      left
      rw [hphase, ← hk, ValueLoop.previousHash?, ValueLoop.previousHash?, hprevious]
  | storeProducedValue hphase hstore => cases hk
  | _ => exact .inl hk

/-- The invariant: both chains are closed, and the blocks under production are linked to
them. -/
structure ChainsClosed (H : Host) (timeGenesis : TimeBlock) (valueGenesis : ValueBlock)
    (s : State) : Prop where
  time : Closed H.endian TimeBlock.previousHash timeGenesis s.timeStorage
  value : Closed H.endian ValueBlock.previousHash valueGenesis s.valueStorage
  timePending : ∀ b, s.timeLoop = .storing b →
    Linked TimeBlock.previousHash timeGenesis (s.timeStorage.Stored H.endian) b.previousHash
  valuePending : ∀ k, s.valueLoop.previousHash? = some k →
    Linked ValueBlock.previousHash valueGenesis (s.valueStorage.Stored H.endian) k

section Step

variable {timeGenesis : TimeBlock} {valueGenesis : ValueBlock} {s t : State} {a : Action}

/-- The time chain stays closed, and what was linked stays linked. -/
theorem time_closed_step (hs : ChainsClosed H timeGenesis valueGenesis s)
    (hchecked : ParentsChecked H timeGenesis valueGenesis s a) (h : step H keys a s = some t) :
    Closed H.endian TimeBlock.previousHash timeGenesis t.timeStorage ∧
      ∀ k, Linked TimeBlock.previousHash timeGenesis (s.timeStorage.Stored H.endian) k →
        Linked TimeBlock.previousHash timeGenesis (t.timeStorage.Stored H.endian) k := by
  rcases timeStorage_cases h with heq | ⟨b, io, ok, hstore, ⟨rfl, hloop⟩ | ⟨rfl, hnet⟩⟩
  · rw [heq]
    exact ⟨hs.time, fun _ hk => hk⟩
  · obtain ⟨rfl, hcollision⟩ := hchecked
    have hext := hcollision b hloop (hs.timePending b hloop)
    exact ⟨hs.time.storeBlock hstore (.inr hext),
      fun k hk => linked_storeBlock hstore (.inr hext) hk⟩
  · obtain ⟨rfl, hparent⟩ := hchecked
    have hext := hparent b hnet
    exact ⟨hs.time.storeBlock hstore hext, fun k hk => linked_storeBlock hstore hext hk⟩

/-- The value chain stays closed, and what was linked stays linked. -/
theorem value_closed_step (hs : ChainsClosed H timeGenesis valueGenesis s)
    (hchecked : ParentsChecked H timeGenesis valueGenesis s a) (h : step H keys a s = some t) :
    Closed H.endian ValueBlock.previousHash valueGenesis t.valueStorage ∧
      ∀ k, Linked ValueBlock.previousHash valueGenesis (s.valueStorage.Stored H.endian) k →
        Linked ValueBlock.previousHash valueGenesis (t.valueStorage.Stored H.endian) k := by
  rcases valueStorage_cases h with heq | ⟨b, io, ok, hstore, ⟨rfl, hloop⟩ | ⟨rfl, hnet⟩⟩
  · rw [heq]
    exact ⟨hs.value, fun _ hk => hk⟩
  · obtain ⟨rfl, hcollision⟩ := hchecked
    have hpending := hs.valuePending b.previousHash (by rw [hloop]; rfl)
    have hext := hcollision b hloop hpending
    exact ⟨hs.value.storeBlock hstore (.inr hext),
      fun k hk => linked_storeBlock hstore (.inr hext) hk⟩
  · obtain ⟨rfl, hparent⟩ := hchecked
    have hext := hparent b hnet
    exact ⟨hs.value.storeBlock hstore hext, fun k hk => linked_storeBlock hstore hext hk⟩

theorem chainsClosed_step (hs : ChainsClosed H timeGenesis valueGenesis s)
    (hchecked : ParentsChecked H timeGenesis valueGenesis s a) (h : step H keys a s = some t) :
    ChainsClosed H timeGenesis valueGenesis t := by
  obtain ⟨htime, htimeMono⟩ := time_closed_step hs hchecked h
  obtain ⟨hvalue, hvalueMono⟩ := value_closed_step hs hchecked h
  -- a parent was the latest block when it was read, and has stayed linked since
  refine ⟨htime, hvalue, fun b hb => htimeMono _ ?_, fun k hk => hvalueMono k ?_⟩
  · rcases timeLoop_storing h hb with hb | ⟨_, _, latestBlock, -, hlatest, hcreate⟩
    · exact hs.timePending b hb
    · obtain ⟨signature, -, rfl⟩ := TimeChainConsensus.createBlock_eq_ok hcreate
      exact hs.time.linked_latestBlockHash hlatest
  · rcases valueLoop_previousHash h hk with hk | ⟨latestBlock, -, hlatest, rfl⟩
    · exact hs.valuePending k hk
    · exact hs.value.linked_latestBlockHash hlatest

end Step

theorem Started.chainsClosed {s : State} {timeGenesis : TimeBlock} {valueGenesis : ValueBlock}
    (hs : Started H G s timeGenesis valueGenesis) :
    ChainsClosed H timeGenesis valueGenesis s := by
  have htime := (hs.timeStored _ _).mpr ⟨rfl, rfl⟩
  have hvalue := (hs.valueStored _ _).mpr ⟨rfl, rfl⟩
  refine ⟨⟨hs.namedByHash.1, ?_, timeGenesis, hs.timeLatest, .root htime⟩,
    ⟨hs.namedByHash.2, ?_, valueGenesis, hs.valueLatest, .root hvalue⟩, ?_, ?_⟩
  · intro k b hb
    obtain ⟨rfl, rfl⟩ := (hs.timeStored k b).mp hb
    exact .root hb
  · intro k b hb
    obtain ⟨rfl, rfl⟩ := (hs.valueStored k b).mp hb
    exact .root hb
  · intro b hb
    rw [hs.timeLoop] at hb
    cases hb
  · intro k hk
    rw [hs.valueLoop] at hk
    cases hk

/-- **Ancestors stay in the store, where the parents are checked.**  In every run without
failing file operations whose received blocks extend their chain, every stored block but
genesis has its parent in the store, and genesis is reached from the latest block. -/
theorem ancestorClosed_run {as : List Action} {s₀ s : State} {timeGenesis : TimeBlock}
    {valueGenesis : ValueBlock} (htime : G.IsTimeGenesis H.endian timeGenesis)
    (hvalue : G.IsValueGenesis H.endian valueGenesis) (hstart : start H G = some s₀)
    (hrun : run H keys as s₀ = some s)
    (hchecked : Along H keys (ParentsChecked H timeGenesis valueGenesis) as s₀) :
    AncestorClosed H.endian TimeBlock.previousHash timeGenesis s.timeStorage ∧
      AncestorClosed H.endian ValueBlock.previousHash valueGenesis s.valueStorage := by
  obtain ⟨timeGenesis', valueGenesis', hs₀⟩ := started_of_start hstart
  obtain rfl : timeGenesis' = timeGenesis := by
    have heq := hs₀.isTimeGenesis.symm.trans htime
    simpa using heq
  obtain rfl : valueGenesis' = valueGenesis := by
    have heq := hs₀.isValueGenesis.symm.trans hvalue
    simpa using heq
  have hinv : ChainsClosed H timeGenesis' valueGenesis' s := Transition.run_invariant
    (fun s a t hs hC h => chainsClosed_step hs hC h) hrun hchecked hs₀.chainsClosed
  exact ⟨hinv.time.ancestorClosed, hinv.value.ancestorClosed⟩

/-! ## A block without a parent -/

/-- A block received on genesis is stored. -/
theorem ancestorClosed_run_received :
    ∃ timeGenesis valueGenesis s₀ s, start tagHost shippedGenesis = some s₀ ∧
      run tagHost tagKeys [.receiveTime (receivedTimeBlock timeChainGenesisHash),
        .storeReceivedTime .ok] s₀ = some s ∧
      AncestorClosed .little TimeBlock.previousHash timeGenesis s.timeStorage ∧
      AncestorClosed .little ValueBlock.previousHash valueGenesis s.valueStorage := by
  have hreaches : Reaches tagHost shippedGenesis tagKeys
      [.receiveTime (receivedTimeBlock timeChainGenesisHash), .storeReceivedTime .ok]
      (fun _ => true) = true := by decide +kernel
  obtain ⟨s₀, s, hstart, hrun, -⟩ := exists_run_of_reaches hreaches
  obtain ⟨timeGenesis, valueGenesis, hs₀⟩ := started_of_start hstart
  -- the way from the received block to genesis has no step
  have hname : timeChainGenesisHash ≠ (receivedTimeBlock timeChainGenesisHash).hash := by
    decide +kernel
  have hgenesis : s₀.timeStorage.Stored .little timeChainGenesisHash timeGenesis :=
    (hs₀.timeStored _ _).mpr ⟨hs₀.timeHash.symm, rfl⟩
  have hchecked : Along tagHost tagKeys (ParentsChecked tagHost timeGenesis valueGenesis)
      [.receiveTime (receivedTimeBlock timeChainGenesisHash), .storeReceivedTime .ok] s₀ := by
    refine ⟨trivial, fun t h => ⟨⟨rfl, fun b hb => ?_⟩, fun _ _ => trivial⟩⟩
    cases step_cases h with
    | rejectTime hphase hvalid =>
        rw [hs₀.network] at hb
        cases hb
    | receiveTime hphase hvalid =>
        cases hb
        refine .inr ?_
        rw [Extends, previousHash_receivedTimeBlock]
        exact .root ⟨hname, hgenesis⟩
  have hclosed : AncestorClosed tagHost.endian TimeBlock.previousHash timeGenesis s.timeStorage ∧
      AncestorClosed tagHost.endian ValueBlock.previousHash valueGenesis s.valueStorage :=
    ancestorClosed_run hs₀.isTimeGenesis hs₀.isValueGenesis hstart hrun hchecked
  exact ⟨timeGenesis, valueGenesis, s₀, s, hstart, hrun, hclosed⟩

/-- **A signed block whose previous hash names nothing** is stored and becomes the latest
block. -/
theorem not_ancestorClosed_run :
    ∃ timeGenesis s₀ s, shippedGenesis.IsTimeGenesis .little timeGenesis ∧
      start tagHost shippedGenesis = some s₀ ∧
      run tagHost tagKeys [.receiveTime (receivedTimeBlock (zeros 32)),
        .storeReceivedTime .ok] s₀ = some s ∧
      ¬ AncestorClosed .little TimeBlock.previousHash timeGenesis s.timeStorage := by
  have hreaches : Reaches tagHost shippedGenesis tagKeys
      [.receiveTime (receivedTimeBlock (zeros 32)), .storeReceivedTime .ok]
      (fun s => decide (
      s.timeStorage.Stored .little (receivedTimeBlock (zeros 32)).hash
        (receivedTimeBlock (zeros 32)) ∧
      s.timeStorage.getBlock .little (zeros 32) = .ok none)) = true := by decide +kernel
  obtain ⟨s₀, s, hstart, hrun, hp⟩ := exists_run_of_reaches hreaches
  obtain ⟨timeGenesis, valueGenesis, hs₀⟩ := started_of_start hstart
  refine ⟨timeGenesis, s₀, s, hs₀.isTimeGenesis, hstart, hrun, fun hclosed => ?_⟩
  obtain ⟨hstored, hnone⟩ := of_decide_eq_true hp
  have hne : receivedTimeBlock (zeros 32) ≠ timeGenesis := by
    intro heq
    have hhash : (receivedTimeBlock (zeros 32)).hash = timeChainGenesisHash := by
      rw [heq]
      exact hs₀.timeHash
    exact absurd hhash (by decide +kernel)
  obtain ⟨p, hp, -⟩ := hclosed.1 _ _ hstored hne
  rw [previousHash_receivedTimeBlock, FileStorage.Stored, hnone] at hp
  cases hp

end Node

end CoinPlatform
