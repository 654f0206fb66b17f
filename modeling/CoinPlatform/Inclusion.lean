/-
# Double inclusion

Two transactions are the same payment when they have the same sender, not the zero one, and
the same recipient, amount, data and signature; the hash field does not matter.  Nothing in
the node looks for payments that are included already: the purge after a received block is
the only guard, and it compares all fields.

`noDoubleInclusion_run` says what that guard is worth.  Where no payment is replayed, that is

* an added transaction is not in the pool, in a running `produce_block` or in a stored block,
* the file of a received block is not opened, or the block is stored and its payments are
  different, not in another stored block and not in a running `produce_block`,
* the pool is not gathered between the store of a received block and the purge if it holds
  payments of that block, and the purge finds them with the same hash field,

no payment is included twice.
-/
import CoinPlatform.StoredBlocks

open ByteOrder StdVector

namespace CoinPlatform

/-- The same payment; transactions with the zero sender are none. -/
def Transaction.SamePayment (tx tx' : Transaction) : Prop :=
  tx.isCoinbaseTransaction = false ∧ tx.senderPublicKey = tx'.senderPublicKey ∧
    tx.recipientPublicKey = tx'.recipientPublicKey ∧ tx.amount = tx'.amount ∧
    tx.data = tx'.data ∧ tx.signature = tx'.signature

instance (tx tx' : Transaction) : Decidable (tx.SamePayment tx') :=
  inferInstanceAs (Decidable (_ ∧ _))

namespace Transaction

theorem SamePayment.isCoinbaseTransaction_right {tx tx' : Transaction}
    (h : tx.SamePayment tx') : tx'.isCoinbaseTransaction = false := by
  obtain ⟨hcoinbase, hsender, -⟩ := h
  rw [isCoinbaseTransaction, ← hsender]
  exact hcoinbase

theorem SamePayment.symm {tx tx' : Transaction} (h : tx.SamePayment tx') :
    tx'.SamePayment tx := by
  refine ⟨h.isCoinbaseTransaction_right, ?_⟩
  obtain ⟨-, hsender, hrecipient, hamount, hdata, hsignature⟩ := h
  exact ⟨hsender.symm, hrecipient.symm, hamount.symm, hdata.symm, hsignature.symm⟩

/-- No payment of one list is in the other. -/
def Apart (l l' : List Transaction) : Prop := ∀ tx ∈ l, ∀ tx' ∈ l', ¬ tx.SamePayment tx'

/-- The payments of the list are different. -/
def Distinct (l : List Transaction) : Prop := l.Pairwise fun tx tx' => ¬ tx.SamePayment tx'

theorem Apart.symm {l l' : List Transaction} (h : Apart l l') : Apart l' l :=
  fun tx htx tx' htx' hsame => h tx' htx' tx htx hsame.symm

theorem Apart.mono_right {l l' l'' : List Transaction} (h : Apart l l')
    (hsub : ∀ tx ∈ l'', tx ∈ l') : Apart l l'' :=
  fun tx htx tx' htx' => h tx htx tx' (hsub tx' htx')

theorem apart_nil (l : List Transaction) : Apart l [] := fun _ _ _ h => nomatch h

/-- A coinbase transaction is no payment. -/
theorem Apart.cons_right {l l' : List Transaction} {coinbase : Transaction} (h : Apart l l')
    (hcoinbase : coinbase.isCoinbaseTransaction = true) : Apart l (coinbase :: l') := by
  intro tx htx tx' htx' hsame
  rcases List.mem_cons.mp htx' with rfl | htx'
  · rw [hsame.isCoinbaseTransaction_right] at hcoinbase
    cases hcoinbase
  · exact h tx htx tx' htx' hsame

theorem Distinct.cons {l : List Transaction} {coinbase : Transaction} (h : Distinct l)
    (hcoinbase : coinbase.isCoinbaseTransaction = true) : Distinct (coinbase :: l) := by
  refine List.Pairwise.cons (fun tx _ hsame => ?_) h
  rw [hsame.1] at hcoinbase
  cases hcoinbase

theorem distinct_append {l l' : List Transaction} :
    Distinct (l ++ l') ↔ Distinct l ∧ Distinct l' ∧ Apart l l' :=
  List.pairwise_append

/-- In a list of different payments a payment has one position. -/
theorem Distinct.eq_of_samePayment {l : List Transaction} (h : Distinct l) {i j : ℕ}
    {tx tx' : Transaction} (hi : l[i]? = some tx) (hj : l[j]? = some tx')
    (hsame : tx.SamePayment tx') : i = j := by
  obtain ⟨hilen, rfl⟩ := List.getElem?_eq_some_iff.mp hi
  obtain ⟨hjlen, rfl⟩ := List.getElem?_eq_some_iff.mp hj
  have hpair := List.pairwise_iff_getElem.mp h
  rcases Nat.lt_trichotomy i j with hlt | heq | hlt
  · exact absurd hsame (hpair i j hilen hjlen hlt)
  · exact heq
  · exact absurd hsame.symm (hpair j i hjlen hilen hlt)

end Transaction

open Transaction

namespace Node

/-- No two positions in the stored value blocks hold the same payment. -/
def NoDoubleInclusion (H : Host) (s : State) : Prop :=
  ∀ k k' b b' (i j : ℕ) (tx tx' : Transaction), s.valueStorage.Stored H.endian k b →
    s.valueStorage.Stored H.endian k' b' → b.transactions[i]? = some tx →
    b'.transactions[j]? = some tx' → tx.SamePayment tx' → k = k' ∧ i = j

/-- Nothing is replayed in the step. -/
def NoReplay (H : Host) (s : State) (a : Action) : Prop :=
  match a with
  | .addTransaction tx =>
    Apart (s.valueLoop.transactions ++ s.transactionPool) [tx] ∧
      ∀ k b, s.valueStorage.Stored H.endian k b → Apart b.transactions [tx]
  | .storeReceivedValue io => ∀ block, s.network = .storingValue block →
    io = .openFailed ∨ (io.answer = true ∧ Distinct block.transactions ∧
      Apart block.transactions s.valueLoop.transactions ∧
      ∀ k b, s.valueStorage.Stored H.endian k b → k ≠ block.hash →
        Apart b.transactions block.transactions)
  | .gather => ∀ block, s.network = .purging block →
    Apart block.transactions s.transactionPool
  | .purge => ∀ block, s.network = .purging block →
    ∀ tx ∈ block.transactions, ∀ tx' ∈ s.transactionPool, tx.SamePayment tx' → tx = tx'
  | _ => True

/-- The invariant: the payments in the stored blocks, in a running `produce_block` and in the
pool are all different, except that the pool may still hold those of the block whose
transactions are about to be purged. -/
structure IncludedOnce (H : Host) (s : State) : Prop where
  distinct : ∀ k b, s.valueStorage.Stored H.endian k b → Distinct b.transactions
  apart : ∀ k k' b b', s.valueStorage.Stored H.endian k b →
    s.valueStorage.Stored H.endian k' b' → k ≠ k' → Apart b.transactions b'.transactions
  batchPool : Distinct (s.valueLoop.transactions ++ s.transactionPool)
  storedBatch : ∀ k b, s.valueStorage.Stored H.endian k b →
    Apart b.transactions s.valueLoop.transactions
  storedPool : ∀ k b, s.valueStorage.Stored H.endian k b →
    Apart b.transactions s.transactionPool ∨ s.network.purging? = some b

variable {H : Host} {G : GenesisBlocks} {keys : NodeKeys H}

theorem purging_of_purging? {s : State} {block : ValueBlock}
    (h : s.network.purging? = some block) : s.network = .purging block := by
  cases hnet : s.network with
  | purging b =>
      rw [hnet] at h
      cases h
      rfl
  | _ => rw [hnet] at h; cases h

/-- A step that stores nothing concerns the payments that are not stored yet. -/
theorem IncludedOnce.of_valueStorage_eq {s t : State} (hs : IncludedOnce H s)
    (hstorage : t.valueStorage = s.valueStorage)
    (hbatchPool : Distinct (t.valueLoop.transactions ++ t.transactionPool))
    (hbatch : ∀ k b, s.valueStorage.Stored H.endian k b →
      Apart b.transactions t.valueLoop.transactions)
    (hpool : ∀ k b, s.valueStorage.Stored H.endian k b →
      Apart b.transactions t.transactionPool ∨ t.network.purging? = some b) :
    IncludedOnce H t := by
  rw [← hstorage] at hbatch hpool
  exact {
    distinct := by rw [hstorage]; exact hs.distinct
    apart := by rw [hstorage]; exact hs.apart
    batchPool := hbatchPool
    storedBatch := hbatch
    storedPool := hpool }

/-- Storing a block of different payments that are in no other stored block. -/
theorem IncludedOnce.of_stored {s t : State} (hs : IncludedOnce H s) {block : ValueBlock}
    (hstored : ∀ k b, t.valueStorage.Stored H.endian k b → (k = block.hash ∧ b = block) ∨
      (s.valueStorage.Stored H.endian k b ∧ Apart b.transactions block.transactions))
    (hdistinct : Distinct block.transactions)
    (hbatchPool : Distinct (t.valueLoop.transactions ++ t.transactionPool))
    (hblockBatch : Apart block.transactions t.valueLoop.transactions)
    (hbatch : ∀ k b, s.valueStorage.Stored H.endian k b →
      Apart b.transactions t.valueLoop.transactions)
    (hblockPool : Apart block.transactions t.transactionPool ∨ t.network.purging? = some block)
    (hpool : ∀ k b, s.valueStorage.Stored H.endian k b →
      Apart b.transactions t.transactionPool ∨ t.network.purging? = some b) :
    IncludedOnce H t := by
  refine ⟨?_, ?_, hbatchPool, ?_, ?_⟩
  · intro k b hb
    rcases hstored k b hb with ⟨-, rfl⟩ | ⟨hb, -⟩
    · exact hdistinct
    · exact hs.distinct k b hb
  · intro k k' b b' hb hb' hne
    rcases hstored k b hb with ⟨rfl, rfl⟩ | ⟨hb, hapart⟩
    · rcases hstored k' b' hb' with ⟨rfl, -⟩ | ⟨-, hapart'⟩
      · exact absurd rfl hne
      · exact hapart'.symm
    · rcases hstored k' b' hb' with ⟨-, rfl⟩ | ⟨hb', -⟩
      · exact hapart
      · exact hs.apart k k' b b' hb hb' hne
  · intro k b hb
    rcases hstored k b hb with ⟨-, rfl⟩ | ⟨hb, -⟩
    · exact hblockBatch
    · exact hbatch k b hb
  · intro k b hb
    rcases hstored k b hb with ⟨-, rfl⟩ | ⟨hb, -⟩
    · exact hblockPool
    · exact hpool k b hb

/-- An added transaction that is neither open nor stored. -/
theorem IncludedOnce.addTransaction {s t : State} (hs : IncludedOnce H s) {tx : Transaction}
    (hnew : NoReplay H s (.addTransaction tx)) (hstorage : t.valueStorage = s.valueStorage)
    (hpool : t.transactionPool = s.transactionPool ++ [tx])
    (hbatch : t.valueLoop.transactions = s.valueLoop.transactions)
    (hpurging : t.network.purging? = s.network.purging?) : IncludedOnce H t := by
  obtain ⟨hopen, hstored⟩ := hnew
  apply hs.of_valueStorage_eq hstorage
  · rw [hpool, hbatch, ← List.append_assoc]
    exact distinct_append.mpr ⟨hs.batchPool, List.pairwise_singleton _ tx, hopen⟩
  · rw [hbatch]
    exact hs.storedBatch
  · rw [hpool, hpurging]
    intro k b hb
    refine (hs.storedPool k b hb).imp_left (fun hapart x hx y hy => ?_)
    rcases List.mem_append.mp hy with hy | hy
    · exact hapart x hx y hy
    · exact hstored k b hb x hx y hy

/-- The pool becomes the batch, when no stored block shares a payment with it. -/
theorem IncludedOnce.gather {s t : State} (hs : IncludedOnce H s) (hnew : NoReplay H s .gather)
    (hstorage : t.valueStorage = s.valueStorage) (hpool : t.transactionPool = [])
    (hbatch : (s.transactionPool = [] ∧ t.valueLoop.transactions = []) ∨
      ∃ coinbase, ValueChainConsensus.coinbaseTransaction H keys = .ok coinbase ∧
        t.valueLoop.transactions = coinbase :: s.transactionPool) : IncludedOnce H t := by
  obtain ⟨-, hdistinct, -⟩ := distinct_append.mp hs.batchPool
  have hgathered : ∀ k b, s.valueStorage.Stored H.endian k b →
      Apart b.transactions s.transactionPool := by
    intro k b hb
    rcases hs.storedPool k b hb with hapart | hpurge
    · exact hapart
    · exact hnew b (purging_of_purging? hpurge)
  have hnothing : ∀ k b, s.valueStorage.Stored H.endian k b →
      Apart b.transactions t.transactionPool ∨ t.network.purging? = some b := by
    rw [hpool]
    exact fun k b _ => .inl (apart_nil _)
  rcases hbatch with ⟨-, hbatch⟩ | ⟨coinbase, hcoinbase, hbatch⟩
  · apply hs.of_valueStorage_eq hstorage _ _ hnothing
    · rw [hpool, hbatch]
      exact List.Pairwise.nil
    · rw [hbatch]
      exact fun k b _ => apart_nil _
  · have hzero := ValueChainConsensus.isCoinbaseTransaction_coinbaseTransaction hcoinbase
    apply hs.of_valueStorage_eq hstorage _ _ hnothing
    · rw [hpool, hbatch, List.append_nil]
      exact hdistinct.cons hzero
    · rw [hbatch]
      exact fun k b hb => (hgathered k b hb).cons_right hzero

/-- The batch is stored: it was apart from the stored blocks and from the pool. -/
theorem IncludedOnce.storeProduced {s t : State} (hs : IncludedOnce H s) {io : WriteOutcome}
    {block : ValueBlock} {ok : Bool} (hphase : s.valueLoop = .storing block)
    (hstore : s.valueStorage.storeBlock H.endian block io = .ok (ok, t.valueStorage))
    (hpool : t.transactionPool = s.transactionPool) (hbatch : t.valueLoop.transactions = [])
    (hpurging : t.network.purging? = s.network.purging?) : IncludedOnce H t := by
  obtain ⟨hdistinct, hdistinctPool, hapart⟩ := distinct_append.mp hs.batchPool
  have hothers := hs.storedBatch
  rw [hphase] at hdistinct hapart hothers
  refine hs.of_stored (fun k b hb => ?_) hdistinct ?_ ?_ ?_ ?_ ?_
  · rcases FileStorage.stored_of_storeBlock hstore hb with ⟨hk, heq, -⟩ | ⟨hb, -⟩
    · exact .inl ⟨hk, heq⟩
    · exact .inr ⟨hb, hothers k b hb⟩
  · rw [hpool, hbatch]
    exact hdistinctPool
  · rw [hbatch]
    exact apart_nil _
  · rw [hbatch]
    exact fun k b _ => apart_nil _
  · rw [hpool]
    exact .inl hapart
  · rw [hpool, hpurging]
    exact hs.storedPool

/-- A received block is stored: from here to the purge the pool may share payments with it. -/
theorem IncludedOnce.storeReceived {s t : State} (hs : IncludedOnce H s) {io : WriteOutcome}
    {block : ValueBlock} {ok : Bool} (hnew : NoReplay H s (.storeReceivedValue io))
    (hphase : s.network = .storingValue block)
    (hstore : s.valueStorage.storeBlock H.endian block io = .ok (ok, t.valueStorage))
    (hpool : t.transactionPool = s.transactionPool)
    (hbatch : t.valueLoop.transactions = s.valueLoop.transactions)
    (hpurging : t.network.purging? = if ok then some block else none) : IncludedOnce H t := by
  -- the network thread was not purging while it was storing
  have hapart : ∀ k b, s.valueStorage.Stored H.endian k b →
      Apart b.transactions s.transactionPool := by
    intro k b hb
    rcases hs.storedPool k b hb with hapart | hpurge
    · exact hapart
    · rw [hphase] at hpurge
      cases hpurge
  rcases hnew block hphase with rfl | ⟨hanswer, hdistinct, hrunning, hothers⟩
  · -- the file has not been opened, and nothing has changed
    apply hs.of_valueStorage_eq (FileStorage.eq_of_storeBlock_openFailed hstore)
    · rw [hpool, hbatch]
      exact hs.batchPool
    · rw [hbatch]
      exact hs.storedBatch
    · rw [hpool]
      exact fun k b hb => .inl (hapart k b hb)
  · obtain rfl : ok = true := (FileStorage.storeBlock_cases hstore).1.trans hanswer
    refine hs.of_stored (fun k b hb => ?_) hdistinct ?_ ?_ ?_ (.inr hpurging) ?_
    · rcases FileStorage.stored_of_storeBlock hstore hb with ⟨hk, heq, -⟩ | ⟨hb, hne | hio⟩
      · exact .inl ⟨hk, heq⟩
      · exact .inr ⟨hb, hothers k b hb hne⟩
      · subst hio
        cases hanswer
    · rw [hpool, hbatch]
      exact hs.batchPool
    · rw [hbatch]
      exact hrunning
    · rw [hbatch]
      exact hs.storedBatch
    · rw [hpool]
      exact fun k b hb => .inl (hapart k b hb)

/-- The purge takes the payments of the block out of the pool. -/
theorem IncludedOnce.purge {s t : State} (hs : IncludedOnce H s) {block : ValueBlock}
    (hnew : NoReplay H s .purge) (hphase : s.network = .purging block)
    (hstorage : t.valueStorage = s.valueStorage)
    (hpool : t.transactionPool
      = s.transactionPool.filter (fun tx => decide (tx ∉ block.transactions)))
    (hbatch : t.valueLoop.transactions = s.valueLoop.transactions) : IncludedOnce H t := by
  obtain ⟨hdistinct, hdistinctPool, hapart⟩ := distinct_append.mp hs.batchPool
  have hsub : ∀ tx ∈ t.transactionPool, tx ∈ s.transactionPool ∧ tx ∉ block.transactions := by
    intro tx htx
    rw [hpool, List.mem_filter] at htx
    exact ⟨htx.1, of_decide_eq_true htx.2⟩
  apply hs.of_valueStorage_eq hstorage
  · rw [hbatch]
    refine distinct_append.mpr ⟨hdistinct, ?_, hapart.mono_right (fun tx htx => (hsub tx htx).1)⟩
    rw [hpool]
    exact hdistinctPool.filter _
  · rw [hbatch]
    exact hs.storedBatch
  · intro k b hb
    rcases hs.storedPool k b hb with hapart | hpurge
    · exact .inl (hapart.mono_right (fun tx htx => (hsub tx htx).1))
    · rw [hphase] at hpurge
      cases hpurge
      refine .inl (fun tx htx tx' htx' hsame => ?_)
      -- the purge compares all fields, so a copy with another hash field would stay
      obtain ⟨hin, hout⟩ := hsub tx' htx'
      exact hout (hnew block hphase tx htx tx' hin hsame ▸ htx)

/-- **Every step that replays nothing keeps the payments apart.** -/
theorem includedOnce_step {s t : State} {a : Action} (hs : IncludedOnce H s)
    (hnew : NoReplay H s a) (h : step H keys a s = some t) : IncludedOnce H t := by
  cases valueStep_of_step h with
  | unchanged hstorage hpool hbatch hpurging =>
      apply hs.of_valueStorage_eq hstorage
      · rw [hpool, hbatch]
        exact hs.batchPool
      · rw [hbatch]
        exact hs.storedBatch
      · rw [hpool, hpurging]
        exact hs.storedPool
  | addTransaction hstorage hpool hbatch hpurging =>
      exact hs.addTransaction hnew hstorage hpool hbatch hpurging
  | gather hstorage hempty hpool hbatch hpurging => exact hs.gather hnew hstorage hpool hbatch
  | storeProduced hphase hstore hpool hbatch hpurging =>
      exact hs.storeProduced hphase hstore hpool hbatch hpurging
  | storeReceived hphase hstore hpool hbatch hpurging =>
      exact hs.storeReceived hnew hphase hstore hpool hbatch hpurging
  | purge hphase hstorage hpool hbatch hpurging =>
      exact hs.purge hnew hphase hstorage hpool hbatch

/-- The genesis block of the repository holds no payment. -/
theorem apart_of_isValueGenesis {e : Endian} {b : ValueBlock}
    (h : shippedGenesis.IsValueGenesis e b) (l : List Transaction) : Apart b.transactions l := by
  obtain ⟨coinbase, htxs, hcoinbase⟩ := exists_transactions_eq_of_isValueGenesis h
  rw [htxs]
  exact ((apart_nil l).cons_right hcoinbase.zeroSender).symm

theorem Started.includedOnce {s : State} {timeGenesis : TimeBlock} {valueGenesis : ValueBlock}
    (hs : Started H shippedGenesis s timeGenesis valueGenesis) : IncludedOnce H s := by
  have hapart := apart_of_isValueGenesis hs.isValueGenesis
  have hdistinct : Distinct valueGenesis.transactions :=
    List.pairwise_of_forall_mem_list (fun tx htx tx' htx' => hapart _ tx htx tx' htx')
  exact {
    distinct := by
      intro k b hb
      obtain ⟨-, rfl⟩ := (hs.valueStored k b).mp hb
      exact hdistinct
    apart := by
      intro k k' b b' hb hb' hne
      obtain ⟨rfl, -⟩ := (hs.valueStored k b).mp hb
      obtain ⟨rfl, -⟩ := (hs.valueStored k' b').mp hb'
      exact absurd rfl hne
    batchPool := by rw [hs.valueLoop, hs.transactionPool]; exact List.Pairwise.nil
    storedBatch := by rw [hs.valueLoop]; exact fun k b _ => apart_nil _
    storedPool := by rw [hs.transactionPool]; exact fun k b _ => .inl (apart_nil _) }

/-- **No payment is included twice, where none is replayed.** -/
theorem noDoubleInclusion_run {as : List Action} {s₀ s : State}
    (hstart : start H shippedGenesis = some s₀) (hrun : run H keys as s₀ = some s)
    (hnew : Along H keys (NoReplay H) as s₀) : NoDoubleInclusion H s := by
  obtain ⟨timeGenesis, valueGenesis, hs₀⟩ := started_of_start hstart
  have hinv : IncludedOnce H s := Transition.run_invariant
    (fun s a t hs hC h => includedOnce_step hs hC h) hrun hnew hs₀.includedOnce
  intro k k' b b' i j tx tx' hb hb' hi hj hsame
  by_cases hk : k = k'
  · subst hk
    obtain rfl := hb.unique hb'
    exact ⟨rfl, (hinv.distinct k b hb).eq_of_samePayment hi hj hsame⟩
  · exact absurd hsame (hinv.apart k k' b b' hb hb' hk tx (List.mem_of_getElem? hi) tx'
      (List.mem_of_getElem? hj))

/-! ## A payment added twice -/

/-- While the network thread is idle, the steps of the value loop replay nothing. -/
theorem along_noReplay_of_idle {io : WriteOutcome} {as : List Action} {s : State}
    (has : ∀ a ∈ as, a ∈ produceValueSteps io) (hidle : s.network = .idle) :
    Along H keys (NoReplay H) as s := by
  induction as generalizing s with
  | nil => trivial
  | cons a as ih =>
      have ha := has a (List.mem_cons_self ..)
      simp only [produceValueSteps, List.mem_cons, List.not_mem_nil, or_false] at ha
      refine ⟨?_, fun t h => ih (fun b hb => has b (List.mem_cons_of_mem _ hb)) ?_⟩
      · rcases ha with rfl | rfl | rfl | rfl | rfl | rfl <;> simp [NoReplay, hidle]
      · rcases ha with rfl | rfl | rfl | rfl | rfl | rfl <;> cases step_cases h <;> exact hidle

/-- The steps that receive a block replay nothing either, when its payments are new to the stored
blocks and to a running `produce_block`, and the copies in the pool are exact. -/
theorem along_noReplay_of_fresh {block : ValueBlock} {as : List Action} {s : State}
    (hidle : s.network = .idle) (hdistinct : Distinct block.transactions)
    (hbatch : Apart block.transactions s.valueLoop.transactions)
    (hstored : ∀ k b, s.valueStorage.Stored H.endian k b → Apart b.transactions block.transactions)
    (hpool : ∀ tx ∈ block.transactions, ∀ tx' ∈ s.transactionPool, tx.SamePayment tx' → tx = tx')
    (hrest : ∀ t, t.network = .idle → Along H keys (NoReplay H) as t) :
    Along H keys (NoReplay H) (handleValueSteps block ++ as) s := by
  refine ⟨trivial, fun s₁ h₁ => ⟨trivial, fun s₂ h₂ => ?_⟩⟩
  cases step_cases h₁ with
  | rejectReference =>
      -- there is nothing to check
      cases step_cases h₂ with
      | rejectValue hphase => cases hidle.symm.trans hphase
      | checkValue hphase => cases hidle.symm.trans hphase
  | receiveValue =>
      cases step_cases h₂ with
      | rejectValue =>
          -- there is nothing to store
          refine ⟨fun block hphase => (nomatch hphase), fun s₃ h₃ => ?_⟩
          cases step_cases h₃ with
          | storeReceivedValue hphase => cases hphase
      | checkValue hphase =>
          cases hphase
          refine ⟨?_, fun s₃ h₃ => ?_⟩
          · intro block' hphase
            cases hphase
            exact .inr ⟨rfl, hdistinct, hbatch, fun k b hb _ => hstored k b hb⟩
          cases step_cases h₃ with
          | @storeReceivedValue _ _ ok _ hphase =>
              cases hphase
              refine ⟨?_, fun s₄ h₄ => ?_⟩
              · intro block' hpurging
                cases ok with
                | false => cases hpurging
                | true =>
                    cases hpurging
                    exact hpool
              cases step_cases h₄
              exact hrest _ rfl

/-- Two payments are added, a block with the first one is received, and the rest is produced. -/
def inclusionSteps : List Action :=
  .addTransaction (signedPayment 10 []) :: .addTransaction (signedPayment 20 [7]) ::
    (handleValueSteps (receivedPayments [signedPayment 10 []]) ++ produceValueSteps .ok)

theorem not_samePayment_signedPayment :
    ¬ (signedPayment 10 []).SamePayment (signedPayment 20 [7]) :=
  fun h => absurd h.2.2.2.1 (by decide)

/-- Nothing is replayed in that run: up to the received block only genesis is stored, and the purge
takes the first payment out of the pool before the second one is gathered. -/
theorem along_noReplay_inclusionSteps {s₀ : State} {timeGenesis : TimeBlock}
    {valueGenesis : ValueBlock}
    (hs₀ : Started tagHost shippedGenesis s₀ timeGenesis valueGenesis) :
    Along tagHost tagKeys (NoReplay tagHost) inclusionSteps s₀ := by
  have hgenesis : ∀ k b, s₀.valueStorage.Stored .little k b → ∀ l, Apart b.transactions l := by
    intro k b hb
    obtain ⟨-, rfl⟩ := (hs₀.valueStored k b).mp hb
    exact apart_of_isValueGenesis hs₀.isValueGenesis
  have hpool := hs₀.transactionPool
  have hbatch : s₀.valueLoop.transactions = [] := by
    rw [hs₀.valueLoop]
    rfl
  refine ⟨⟨?_, fun k b hb => hgenesis k b hb _⟩, fun s₁ h₁ => ?_⟩
  · rw [hbatch, hpool]
    exact fun tx htx => nomatch htx
  cases step_cases h₁
  refine ⟨⟨?_, fun k b hb => hgenesis k b hb _⟩, fun s₂ h₂ => ?_⟩
  · rw [hbatch, hpool]
    simpa [Apart] using not_samePayment_signedPayment
  cases step_cases h₂
  apply along_noReplay_of_fresh
  · exact hs₀.network
  · exact List.pairwise_singleton _ _
  · rw [hbatch]
    exact apart_nil _
  · exact fun k b hb => hgenesis k b hb _
  · intro tx htx tx' htx' hsame
    obtain rfl := List.mem_singleton.mp htx
    rw [hpool] at htx'
    simp only [List.nil_append, List.cons_append, List.mem_cons, List.not_mem_nil,
      or_false] at htx'
    rcases htx' with rfl | rfl
    · rfl
    · exact absurd hsame not_samePayment_signedPayment
  · exact fun t hidle => along_noReplay_of_idle (fun a ha => ha) hidle

theorem noDoubleInclusion_run_inclusionSteps :
    ∃ s₀ s, start tagHost shippedGenesis = some s₀ ∧
      run tagHost tagKeys inclusionSteps s₀ = some s ∧
      (s.valueStorage.getLatestBlock .little).toOption.join.map
        (fun b => b.transactions.drop 1) = some [signedPayment 20 [7]] ∧
      NoDoubleInclusion tagHost s := by
  have hreaches : Reaches tagHost shippedGenesis tagKeys inclusionSteps
      (fun s => decide ((s.valueStorage.getLatestBlock .little).toOption.join.map
        (fun b => b.transactions.drop 1) = some [signedPayment 20 [7]])) = true := by
    decide +kernel
  obtain ⟨s₀, s, hstart, hrun, hp⟩ := exists_run_of_reaches hreaches
  obtain ⟨timeGenesis, valueGenesis, hs₀⟩ := started_of_start hstart
  exact ⟨s₀, s, hstart, hrun, of_decide_eq_true hp,
    noDoubleInclusion_run hstart hrun (along_noReplay_inclusionSteps hs₀)⟩

/-- **A payment that arrives twice** is gathered twice, and stored twice in one block. -/
theorem not_noDoubleInclusion_run :
    ∃ s₀ s, start tagHost shippedGenesis = some s₀ ∧
      run tagHost tagKeys (.addTransaction (payment paymentSignature) ::
        .addTransaction (payment paymentSignature) :: produceValueSteps .ok) s₀ = some s ∧
      ¬ NoDoubleInclusion tagHost s := by
  have hreaches : Reaches tagHost shippedGenesis tagKeys
      (.addTransaction (payment paymentSignature) ::
        .addTransaction (payment paymentSignature) :: produceValueSteps .ok)
      (fun s => (s.valueStorage.getLatestBlock .little).toOption.join.any (fun b =>
        decide (s.valueStorage.Stored .little b.hash b ∧
          b.transactions[1]? = some (payment paymentSignature) ∧
          b.transactions[2]? = some (payment paymentSignature)))) = true := by
    decide +kernel
  obtain ⟨s₀, s, hstart, hrun, hp⟩ := exists_run_of_reaches hreaches
  have hsame : (payment paymentSignature).SamePayment (payment paymentSignature) := by
    decide +kernel
  refine ⟨s₀, s, hstart, hrun, fun honce => ?_⟩
  obtain ⟨b, -, hb⟩ := (Option.any_eq_true _ _).mp hp
  obtain ⟨hstored, hfirst, hsecond⟩ := of_decide_eq_true hb
  exact absurd (honce _ _ b b 1 2 _ _ hstored hstored hfirst hsecond hsame).2 (by decide)

end Node

end CoinPlatform
