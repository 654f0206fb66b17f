/-
# Content addressing

A block is stored under its hash field.  The constructors and `set_signature` compute that
field, so what a node produces is stored under the hash of its contents; the decoders copy
it from their input, and no validator computes it again.

* `contentAddressed_run`: as long as every received block that is accepted carries its own
  hash, and every pooled transaction that is gathered does, all stored blocks but genesis are
  content-addressed, with their transactions.
* `not_contentAddressed_run`: one signed block with the hash field of genesis takes the place
  of genesis in the store.
-/
import CoinPlatform.StoredBlocks

open ByteOrder StdVector

namespace CoinPlatform

instance (H : Host) (b : TimeBlock) : Decidable (b.HashCorrect H) :=
  inferInstanceAs (Decidable (_ = _))

instance (H : Host) (tx : Transaction) : Decidable (tx.HashCorrect H) :=
  inferInstanceAs (Decidable (_ = _))

instance (H : Host) (b : ValueBlock) : Decidable (b.HashCorrect H) :=
  inferInstanceAs (Decidable (_ = _))

instance (G : GenesisBlocks) (e : Endian) (b : TimeBlock) : Decidable (G.IsTimeGenesis e b) :=
  match h : TimeBlock.empty.deserialize e G.timeChainGenesisBlockData with
  | .ok (true, b') => decidable_of_iff (b' = b) (by simp [GenesisBlocks.IsTimeGenesis, h])
  | .ok (false, _) => isFalse (by simp [GenesisBlocks.IsTimeGenesis, h])
  | .error _ => isFalse (by simp [GenesisBlocks.IsTimeGenesis, h])

instance (G : GenesisBlocks) (e : Endian) (b : ValueBlock) : Decidable (G.IsValueGenesis e b) :=
  match h : ValueBlock.empty.deserialize e G.valueChainGenesisBlockData with
  | .ok (true, b') => decidable_of_iff (b' = b) (by simp [GenesisBlocks.IsValueGenesis, h])
  | .ok (false, _) => isFalse (by simp [GenesisBlocks.IsValueGenesis, h])
  | .error _ => isFalse (by simp [GenesisBlocks.IsValueGenesis, h])

/-- The hash fields of a value block and of its transactions are their hashes. -/
def ValueBlock.HashesCorrect (H : Host) (b : ValueBlock) : Prop :=
  b.HashCorrect H ∧ ∀ tx ∈ b.transactions, tx.HashCorrect H

instance (H : Host) (b : ValueBlock) : Decidable (b.HashesCorrect H) :=
  inferInstanceAs (Decidable (_ ∧ _))

namespace Node

/-- A stored block other than genesis is found under the hash of its contents, and so are
its transactions. -/
def ContentAddressed (H : Host) (G : GenesisBlocks) (s : State) : Prop :=
  (∀ k b, s.timeStorage.Stored H.endian k b → ¬ G.IsTimeGenesis H.endian b →
    k = b.hash ∧ b.hash = H.sha256 (b.getDataToSign H.endian ++ b.signature.toList)) ∧
  ∀ k b, s.valueStorage.Stored H.endian k b → ¬ G.IsValueGenesis H.endian b →
    (k = b.hash ∧ b.hash = H.sha256 (b.getDataToSign H.endian ++ b.signature.toList)) ∧
    ∀ tx ∈ b.transactions,
      tx.hash = H.sha256 (tx.getDataToSign H.endian ++ tx.signature.toList)

/-- What the validators and the pool do not check: an accepted block that is being stored is
genesis or carries its hashes, and so do the pooled transactions that are gathered. -/
def HashesChecked (H : Host) (G : GenesisBlocks) (s : State) (a : Action) : Prop :=
  match a with
  | .storeReceivedTime _ => ∀ b, s.network = .storingTime b →
    G.IsTimeGenesis H.endian b ∨ b.HashCorrect H
  | .storeReceivedValue _ => ∀ b, s.network = .storingValue b →
    G.IsValueGenesis H.endian b ∨ b.HashesCorrect H
  | .gather => ∀ tx ∈ s.transactionPool, tx.HashCorrect H
  | _ => True

instance (H : Host) (G : GenesisBlocks) (s : State) (a : Action) :
    Decidable (HashesChecked H G s a) := by
  apply Action.casesOn (motive := fun a => Decidable (HashesChecked H G s a)) a <;> intros <;>
    dsimp only [HashesChecked] <;> infer_instance

/-- The invariant: blocks that can be read or are about to be stored carry their hashes. -/
structure HashInvariant (H : Host) (G : GenesisBlocks) (s : State) : Prop where
  time : TimeBlocks H (fun b => G.IsTimeGenesis H.endian b ∨ b.HashCorrect H) s
  value : ValueBlocks H (fun b => G.IsValueGenesis H.endian b ∨ b.HashesCorrect H)
    (fun transactions => ∀ tx ∈ transactions, tx.HashCorrect H) s

variable {H : Host} {G : GenesisBlocks} {keys : NodeKeys H}

theorem Started.hashInvariant {s : State} {timeGenesis : TimeBlock} {valueGenesis : ValueBlock}
    (hs : Started H G s timeGenesis valueGenesis) : HashInvariant H G s := by
  refine ⟨⟨?_, ?_⟩, ⟨?_, ?_, ?_⟩⟩
  · intro b hb
    rw [hs.eq_of_readable_time hb]
    exact .inl hs.isTimeGenesis
  · intro b hb
    rw [hs.timeLoop] at hb
    cases hb
  · intro b hb
    rw [hs.eq_of_readable_value hb]
    exact .inl hs.isValueGenesis
  · intro b hb
    rw [hs.valueLoop] at hb
    cases hb
  · intro transactions htxs
    rw [hs.valueLoop] at htxs
    cases htxs

theorem hashInvariant_step {s t : State} {a : Action} (hs : HashInvariant H G s)
    (hchecked : HashesChecked H G s a) (h : step H keys a s = some t) :
    HashInvariant H G t := by
  obtain ⟨htime, hvalue⟩ := hs
  constructor
  · refine timeBlocks_step ?_ ?_ htime h
    · intro latestBlock currentTime b hb
      exact .inr (TimeChainConsensus.hashCorrect_createBlock hb)
    · rintro io b rfl hnet
      exact hchecked b hnet
  · refine valueBlocks_step ?_ ?_ ?_ hvalue h
    · intro coinbase ha hcoinbase tx htx
      subst ha
      rcases List.mem_cons.mp htx with rfl | htx
      · exact (ValueChainConsensus.coinbaseTransaction_eq_ok hcoinbase).2.2.2.2
      · exact hchecked tx htx
    · intro latestBlock timeBlockHash currentTime transactions b htxs hb
      obtain ⟨-, -, -, heq, -⟩ := ValueChainConsensus.fields_createBlock hb
      refine .inr ⟨ValueChainConsensus.hashCorrect_createBlock hb, ?_⟩
      rw [heq]
      exact htxs
    · rintro io b rfl hnet
      exact hchecked b hnet

/-- **Content addressing, where the hashes are right on entry.**  In every run whose accepted
blocks and gathered transactions carry their hashes, every stored block but genesis is found
under the hash of its contents, and its transactions carry theirs. -/
theorem contentAddressed_run {as : List Action} {s₀ s : State} (hstart : start H G = some s₀)
    (hrun : run H keys as s₀ = some s) (hchecked : Along H keys (HashesChecked H G) as s₀) :
    ContentAddressed H G s := by
  obtain ⟨timeGenesis, valueGenesis, hs₀⟩ := started_of_start hstart
  have hinv : HashInvariant H G s := Transition.run_invariant
    (fun s a t hs hC h => hashInvariant_step hs hC h) hrun hchecked hs₀.hashInvariant
  have hname := namedByHash_run hstart hrun
  constructor
  · intro k b hb hgenesis
    have hhash := (hinv.time.readable b (.inl ⟨k, hb⟩)).resolve_left hgenesis
    exact ⟨(hname.1 k b hb).symm, hhash⟩
  · intro k b hb hgenesis
    have hhashes := (hinv.value.readable b (.inl ⟨k, hb⟩)).resolve_left hgenesis
    exact ⟨⟨(hname.2 k b hb).symm, hhashes.1⟩, hhashes.2⟩

/-! ## A block that takes the place of genesis -/

/-- The time chain has a block after genesis, received with its own hash. -/
theorem contentAddressed_run_received :
    ∃ s₀ s, start tagHost shippedGenesis = some s₀ ∧
      run tagHost tagKeys
        [.receiveTime (receivedTimeBlock timeChainGenesisHash), .storeReceivedTime .ok] s₀
          = some s ∧
      ContentAddressed tagHost shippedGenesis s := by
  have hconforms : Conforms tagHost shippedGenesis tagKeys (HashesChecked tagHost shippedGenesis)
      [.receiveTime (receivedTimeBlock timeChainGenesisHash), .storeReceivedTime .ok]
      (fun _ => true) = true := by decide +kernel
  obtain ⟨s₀, s, hstart, hrun, -, hchecked⟩ := exists_run_of_conforms hconforms
  exact ⟨s₀, s, hstart, hrun, contentAddressed_run hstart hrun hchecked⟩

/-- **A signed block with the hash field of genesis replaces genesis**: it is accepted, stored
under that name, and its contents hash to something else. -/
theorem not_contentAddressed_run :
    ∃ s₀ s, start tagHost shippedGenesis = some s₀ ∧
      run tagHost tagKeys
        [.receiveTime { receivedTimeBlock (zeros 32) with hash := timeChainGenesisHash },
          .storeReceivedTime .ok] s₀ = some s ∧
      ¬ ContentAddressed tagHost shippedGenesis s := by
  set b : TimeBlock := { receivedTimeBlock (zeros 32) with hash := timeChainGenesisHash }
    with hb
  have hreaches : Reaches tagHost shippedGenesis tagKeys
      [.receiveTime b, .storeReceivedTime .ok]
      (fun s => decide (s.timeStorage.Stored .little timeChainGenesisHash b)) = true := by
    rw [hb]
    decide +kernel
  obtain ⟨s₀, s, hstart, hrun, hp⟩ := exists_run_of_reaches hreaches
  refine ⟨s₀, s, hstart, hrun, fun hca => ?_⟩
  have hbad : ¬ shippedGenesis.IsTimeGenesis .little b ∧ ¬ b.HashCorrect tagHost := by
    rw [hb]
    decide +kernel
  exact hbad.2 (hca.1 _ b (of_decide_eq_true hp) hbad.1).2

end Node

end CoinPlatform
