/-
# What the nodes would accept

A producer puts the transactions of its pool into its block without looking at them, and a
receiver of the block verifies each of them.  In a network of nodes that run this program the
pools hold generated transactions only, and these are signed.  So every block that a node stores
passes all the checks of every other node that has its time block: it is the encoding of the
messages alone that keeps the nodes apart.

* `verify_of_generated`: a generated transaction is validly signed.
* `acceptable_of_run`: every stored value block is genesis or would be accepted.
-/
import CoinPlatform.PaymentDelivery

open ByteOrder StdVector

namespace CoinPlatform

open Node

/-- A generated transaction is validly signed by its sender. -/
theorem verify_of_generated {H : Host} {keys : NodeKeys H} (hH : H.secp256k1.Correct)
    {recipientPrivateKey : PrivateKey} {tx : Transaction}
    (h : generateTransaction H keys recipientPrivateKey = .ok tx) : tx.verify H = true := by
  obtain ⟨recipientPublicKey, -, h⟩ := bind_eq_ok.mp h
  obtain ⟨signature, hsign, h⟩ := bind_eq_ok.mp h
  obtain rfl := Except.ok.inj h
  unfold Transaction.verify
  split
  · rfl
  · exact verifySignature_signMessage H hH keys.derived hsign

namespace Node

variable {H : Host} {G : GenesisBlocks} {keys : NodeKeys H} {as : List Action} {s₀ s : State}

/-- The block passes every check of a node that has its time block. -/
def Acceptable (H : Host) (block : ValueBlock) : Prop :=
  ∀ timeStorage currentTime, timeStorage.blockExists block.timeBlockHash = true →
    ValueChainConsensus.getCurrentTime H timeStorage = .ok currentTime →
    block.time ≤ currentTime → ValueChainConsensus.validateBlock H timeStorage block = .ok true

/-- A node that is given valid transactions only builds acceptable blocks. -/
theorem acceptable_of_added (hH : H.secp256k1.Correct) (hstart : start H G = some s₀)
    (hrun : run H keys as s₀ = some s) (hsolo : Along H keys Solo as s₀)
    (hadded : ∀ tx ∈ as.filterMap Action.added, tx.verify H = true) :
    (∀ tx ∈ s.transactionPool, tx.verify H = true) ∧
      ∀ block, s.valueStorage.Readable H.endian block →
        G.IsValueGenesis H.endian block ∨ Acceptable H block := by
  obtain ⟨timeGenesis, valueGenesis, r, -, hvalue, hown, hledger⟩ :=
    exists_chains_run hstart hrun hsolo
  rw [← hledger] at hadded
  refine ⟨fun tx htx => hadded tx (List.mem_append_right _ htx), fun block hblock => ?_⟩
  have hmem := mem_of_readable hown.valueStorage hblock
  rw [hown.valueChain.eq_cons_tail] at hmem
  rcases List.mem_cons.mp hmem with rfl | hmem
  · exact .inl hvalue
  · right
    obtain ⟨⟨coinbase, paid, hcoinbase, htxs⟩, latestBlock, timeBlockHash, currentTime, hcreate⟩ :=
      hown.valueChain.later block hmem
    intro timeStorage now hexists hnow htime
    refine ValueChainConsensus.validateBlock_eq_true.mpr ⟨⟨hexists, now, hnow, htime⟩, ?_, ?_⟩
    · intro tx htx
      rw [htxs] at htx
      rcases List.mem_cons.mp htx with rfl | htx
      · -- the coinbase transaction is not looked at
        have hcoin := ValueChainConsensus.isCoinbaseTransaction_coinbaseTransaction hcoinbase
        rw [Transaction.verify, if_pos hcoin]
      · refine hadded tx (List.mem_append_left _ (List.mem_append_left _ ?_))
        refine List.mem_flatMap.mpr ⟨block, hmem, ?_⟩
        rw [payments, htxs]
        exact htx
    · exact ValueChainConsensus.verifySignature_createBlock hH hcreate

end Node

namespace MessageNetwork

variable {H : Host} {ι : Type} [DecidableEq ι] {keyOf : ι → NodeKeys H} {s t : State ι}
  {a : Action ι}

/-- What comes to a pool was generated by a node. -/
theorem produced_of_mem_brought (h : Sound H keyOf s) (hstep : step H keyOf a s = some t) {j : ι}
    {tx : Transaction} (htx : tx ∈ brought H keyOf j a) :
    ∃ i, Produced H (keyOf i) (.transaction tx) := by
  cases step_cases hstep with
  | connect hne hlink => cases htx
  | broadcastTime hbroadcast => cases htx
  | broadcastValue hbroadcast => cases htx
  | @act i₀ a p hact =>
      rw [brought, project] at htx
      split at htx
      · rw [List.filterMap_cons, added_of_act hact] at htx
        cases htx
      · cases htx
  | @generate i₀ recipientPrivateKey p hgenerate =>
      rw [brought, project, filterMap_added_map, generated] at htx
      split at htx
      · refine ⟨j, recipientPrivateKey, ?_⟩
        exact toOption_eq_some (Option.mem_toList.mp htx)
      · cases htx
  | @deliver i₀ j₀ item rest p hlink hhandle =>
      rw [brought, project, filterMap_added_map] at htx
      cases item with
      | timeBlock block => cases htx
      | valueBlock block => cases htx
      | transaction tx' =>
          rw [delivered] at htx
          split at htx
          · obtain rfl := List.mem_singleton.mp htx
            exact ⟨i₀, h.front hlink tx rfl⟩
          · cases htx

/-- In every run of the network the pools hold valid transactions only, and every value block in a
store is genesis or acceptable. -/
theorem acceptable_of_run (hH : H.secp256k1.Correct) {G : GenesisBlocks} {as : List (Action ι)}
    {s₀ : State ι} (hstart : start H G ι = some s₀) (hrun : run H keyOf as s₀ = some s)
    (halong : Along H keyOf (Undisturbed H keyOf) as s₀) (j : ι) :
    (∀ tx ∈ (s.parties j).node.transactionPool, tx.verify H = true) ∧
      ∀ block, (s.parties j).node.valueStorage.Readable H.endian block →
        G.IsValueGenesis H.endian block ∨ Acceptable H block := by
  obtain ⟨hsound, -⟩ := sound_of_start keyOf hstart
  have hinv : Sound H keyOf s ∧ ∀ tx ∈ ledgerOf H keyOf j ([] ++ as), tx.verify H = true := by
    refine Transition.run_history (I := fun past s => Sound H keyOf s ∧
      ∀ tx ∈ ledgerOf H keyOf j past, tx.verify H = true) [] (fun past s a t hs hC hstep => ?_)
      hrun halong ⟨hsound, fun _ h => by cases h⟩
    refine ⟨sound_step hs.1 hC hstep, fun tx htx => ?_⟩
    rw [ledgerOf_concat] at htx
    rcases List.mem_append.mp htx with htx | htx
    · exact hs.2 tx htx
    · obtain ⟨i, recipientPrivateKey, hgenerate⟩ := produced_of_mem_brought hs.1 hstep htx
      exact verify_of_generated hH hgenerate
  obtain ⟨node₀, hnode₀, hrun', halong'⟩ := isolated hstart hrun halong j
  exact acceptable_of_added hH hnode₀ hrun' halong' hinv.2

end MessageNetwork

end CoinPlatform
