/-
# Issuance

A transaction with an all-zero sender creates coins: its signature is not checked.  The
producer puts one in front of the gathered transactions, 50 coins for itself.  Nothing keeps
further ones out: the pool takes transactions with any sender, and a receiver accepts a block
with any number of them.

* `fixedIssuance_run`: as long as no pooled transaction that is gathered has the zero sender,
  and every received block that is stored is of the form the producer builds, all blocks of
  the value store are of that form.
* `not_fixedIssuance_run`: one received transaction with the zero sender mints its amount.
-/
import CoinPlatform.StoredBlocks

open ByteOrder StdVector

namespace CoinPlatform

/-- One transaction of the block has the zero sender: the first, with 50 coins for the key of
the block. -/
def ValueBlock.IssuesOnce (b : ValueBlock) : Prop :=
  match b.transactions with
  | [] => False
  | coinbase :: rest =>
    coinbase.IsCoinbaseOf b ∧ ∀ tx ∈ rest, tx.isCoinbaseTransaction = false

instance (b : ValueBlock) : Decidable b.IssuesOnce := by
  unfold ValueBlock.IssuesOnce
  split <;> infer_instance

/-- The genesis block of the repository is of that form on every machine that can read it. -/
theorem issuesOnce_of_isValueGenesis {e : Endian} {b : ValueBlock}
    (h : shippedGenesis.IsValueGenesis e b) : b.IssuesOnce := by
  obtain ⟨coinbase, htxs, hcoinbase⟩ := exists_transactions_eq_of_isValueGenesis h
  simpa [ValueBlock.IssuesOnce, htxs] using hcoinbase

namespace Node

/-- Every block in the value store issues coins once. -/
def FixedIssuance (H : Host) (s : State) : Prop :=
  ∀ k b, s.valueStorage.Stored H.endian k b → b.IssuesOnce

/-- What intake and validation do not check: no gathered transaction has the zero sender, and
an accepted block that is being stored issues coins once. -/
def IssuanceChecked (s : State) (a : Action) : Prop :=
  match a with
  | .gather => ∀ tx ∈ s.transactionPool, tx.isCoinbaseTransaction = false
  | .storeReceivedValue _ => ∀ b, s.network = .storingValue b → b.IssuesOnce
  | _ => True

instance (s : State) (a : Action) : Decidable (IssuanceChecked s a) := by
  apply Action.casesOn (motive := fun a => Decidable (IssuanceChecked s a)) a <;> intros <;>
    dsimp only [IssuanceChecked] <;> infer_instance

variable {H : Host} {keys : NodeKeys H}

/-- The invariant: blocks that can be read or are about to be stored issue coins once, and a
block under construction starts with the coinbase transaction of the node. -/
def IssuanceInvariant (H : Host) (keys : NodeKeys H) (s : State) : Prop :=
  ValueBlocks H ValueBlock.IssuesOnce
    (fun transactions => ∃ coinbase rest, transactions = coinbase :: rest ∧
      ValueChainConsensus.coinbaseTransaction H keys = .ok coinbase ∧
      ∀ tx ∈ rest, tx.isCoinbaseTransaction = false) s

theorem issuanceInvariant_step {s t : State} {a : Action} (hs : IssuanceInvariant H keys s)
    (hchecked : IssuanceChecked s a) (h : step H keys a s = some t) :
    IssuanceInvariant H keys t := by
  refine valueBlocks_step ?_ ?_ ?_ hs h
  · intro coinbase ha hcoinbase
    subst ha
    exact ⟨coinbase, s.transactionPool, rfl, hcoinbase, hchecked⟩
  · rintro latestBlock timeBlockHash currentTime _ b ⟨coinbase, rest, rfl, hcoinbase, hrest⟩ hb
    obtain ⟨-, -, -, htxs, hkey⟩ := ValueChainConsensus.fields_createBlock hb
    obtain ⟨-, hrecipient, hamount, -⟩ := ValueChainConsensus.coinbaseTransaction_eq_ok hcoinbase
    -- the coinbase transaction and the block name the same key, that of the node
    simp only [ValueBlock.IssuesOnce, htxs]
    exact ⟨⟨ValueChainConsensus.isCoinbaseTransaction_coinbaseTransaction hcoinbase, hamount,
      hrecipient.trans hkey.symm⟩, hrest⟩
  · rintro io b rfl hnet
    exact hchecked b hnet

/-- **Issuance is fixed, where the zero sender is kept out.**  In every run whose gathered
transactions have senders, and whose received blocks issue coins once, every block in the
value store issues coins once. -/
theorem fixedIssuance_run {as : List Action} {s₀ s : State}
    (hstart : start H shippedGenesis = some s₀) (hrun : run H keys as s₀ = some s)
    (hchecked : Along H keys IssuanceChecked as s₀) : FixedIssuance H s := by
  obtain ⟨timeGenesis, valueGenesis, hs₀⟩ := started_of_start hstart
  have hinit : IssuanceInvariant H keys s₀ := by
    refine ⟨?_, ?_, ?_⟩
    · intro b hb
      rw [hs₀.eq_of_readable_value hb]
      exact issuesOnce_of_isValueGenesis hs₀.isValueGenesis
    · intro b hb
      rw [hs₀.valueLoop] at hb
      cases hb
    · intro transactions htxs
      rw [hs₀.valueLoop] at htxs
      cases htxs
  have hinv : IssuanceInvariant H keys s := Transition.run_invariant
    (fun s a t hs hC h => issuanceInvariant_step hs hC h) hrun hchecked hinit
  exact fun k b hb => hinv.readable b (.inl ⟨k, hb⟩)

/-! ## A transaction that mints coins -/

/-- A block with one transaction that has a sender. -/
theorem fixedIssuance_run_payment :
    ∃ s₀ s, start tagHost shippedGenesis = some s₀ ∧
      run tagHost tagKeys (.addTransaction (payment (zeros 64)) :: produceValueSteps .ok) s₀
        = some s ∧
      FixedIssuance tagHost s := by
  have hconforms : Conforms tagHost shippedGenesis tagKeys IssuanceChecked
      (.addTransaction (payment (zeros 64)) :: produceValueSteps .ok)
      (fun _ => true) = true := by decide +kernel
  obtain ⟨s₀, s, hstart, hrun, -, hchecked⟩ := exists_run_of_conforms hconforms
  exact ⟨s₀, s, hstart, hrun, fixedIssuance_run hstart hrun hchecked⟩

/-- **A received transaction with the zero sender** ends up in the store next to the coinbase
transaction of the block. -/
theorem not_fixedIssuance_run :
    ∃ s₀ s, start tagHost shippedGenesis = some s₀ ∧
      run tagHost tagKeys (.addTransaction (Transaction.new tagHost (zeros 32)
        (List.Vector.replicate 32 2) 1000000 []) :: produceValueSteps .ok) s₀ = some s ∧
      ¬ FixedIssuance tagHost s := by
  have hreaches : Reaches tagHost shippedGenesis tagKeys
      (.addTransaction (Transaction.new tagHost (zeros 32)
        (List.Vector.replicate 32 2) 1000000 []) :: produceValueSteps .ok)
      (fun s => (s.valueStorage.getLatestBlock .little).toOption.join.any (fun b =>
        decide (s.valueStorage.Stored .little b.hash b ∧ ¬ b.IssuesOnce))) = true := by
    decide +kernel
  obtain ⟨s₀, s, hstart, hrun, hp⟩ := exists_run_of_reaches hreaches
  refine ⟨s₀, s, hstart, hrun, fun hfixed => ?_⟩
  obtain ⟨b, -, hb⟩ := (Option.any_eq_true _ _).mp hp
  obtain ⟨hstored, htwice⟩ := of_decide_eq_true hb
  exact htwice (hfixed b.hash b hstored)

end Node

end CoinPlatform
