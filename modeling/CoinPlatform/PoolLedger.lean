/-
# The ledger of the pool

The transaction pool is changed by three operations, on two threads: `add_transaction`, the
critical section of `gather_transactions`, and the critical section of `handle_block`, which
takes the transactions of a stored block out of it.  A ledger is kept beside the run: it follows
the operations on a queue with purge (`PurgeQueue`), with the stores of `handle_block` as
reasons.

* `PoolRecord.next`: what each step does to the ledger, and the batches and stores it records.
* `accounted_step`: after each step the pool is the queue of the ledger, and the recorded stores
  have happened to the value storage.
* `storeThenPurge_step`: a store that was answered with true is followed by the purge with the same
  block, and by nothing else of the network thread.
* `accounted_run`: in every run each transaction is pooled, in one batch, or purged by a block
  that was stored and contains it.
-/
import CoinPlatform.NodeStep
import CoinPlatform.PurgeQueue

open PurgeQueue Transition

namespace CoinPlatform

namespace Node

/-! ## The record -/

/-- A `store_block` of `handle_block` that was answered with true: the block, how the file
operations went, and the value storage before and after. -/
structure ReceivedStore (H : Host) where
  block : ValueBlock
  io : WriteOutcome
  before : FileStorage ValueBlock
  after : FileStorage ValueBlock
  answered : before.storeBlock H.endian block io = .ok (true, after)

/-- The ledger of the pool, the batches that `gather_transactions` has returned, and the stores
of `handle_block`. -/
structure PoolRecord (H : Host) where
  ledger : Ledger Transaction (ReceivedStore H)
  gathered : List (List Transaction)
  stored : List (ReceivedStore H)

def PoolRecord.empty {H : Host} : PoolRecord H := ⟨.empty, [], []⟩

variable (H : Host) (keys : NodeKeys H)

/-- The store of the received block, if it is answered with true. -/
def receivedStore? (s : State) (io : WriteOutcome) : Option (ReceivedStore H) :=
  match s.network with
  | .storingValue block =>
    match answered : s.valueStorage.storeBlock H.endian block io with
    | .ok (true, after) => some ⟨block, io, s.valueStorage, after, answered⟩
    | _ => none
  | _ => none

/-- The record after the step from `s` to `t`. -/
def PoolRecord.next (a : Action) (s t : State) (r : PoolRecord H) : PoolRecord H :=
  match a with
  | .addTransaction transaction => { r with ledger := r.ledger.add transaction }
  | .gather =>
    match t.valueLoop with
    | .gathered transactions =>
      { r with ledger := r.ledger.take, gathered := r.gathered ++ [transactions] }
    | _ => r
  | .storeReceivedValue io => { r with stored := r.stored ++ (receivedStore? H s io).toList }
  | .purge =>
    match r.stored.getLast? with
    | some store =>
      { r with ledger := r.ledger.drop (fun tx => decide (tx ∈ store.block.transactions)) store }
    | none => r
  | _ => r

/-- The transaction that is added to the pool. -/
def Action.added : Action → Option Transaction
  | .addTransaction transaction => some transaction
  | _ => none

/-- The node with its record. -/
abbrev recordStep := recording (step H keys) (PoolRecord.next H)

/-- The store is one of those actions, by the network thread on the value storage of the node. -/
def Happened (s₀ : State) (past : List Action) (store : ReceivedStore H) : Prop :=
  ∃ earlier later u v, past = earlier ++ .storeReceivedValue store.io :: later ∧
    run H keys earlier s₀ = some u ∧ step H keys (.storeReceivedValue store.io) u = some v ∧
    u.network = .storingValue store.block ∧ u.valueStorage = store.before ∧
    v.valueStorage = store.after

/-- What the record says of the pool after some actions: each added transaction has one entry, in
the order of addition; the pool is what waits; a batch is the coinbase transaction and what was
taken, in order; what was dropped was in a block that `handle_block` had stored; and the block
whose transactions are to be purged is the one stored last. -/
structure Accounted (s₀ : State) (past : List Action) (s : State) (r : PoolRecord H) : Prop where
  added : r.ledger.values = past.filterMap Action.added
  pooled : s.transactionPool = r.ledger.waiting
  count : r.gathered.length = r.ledger.batches
  gathered : ∀ n batch, r.gathered[n]? = some batch →
    ∃ coinbase, ValueChainConsensus.coinbaseTransaction H keys = .ok coinbase ∧
      batch = coinbase :: r.ledger.batch n
  stored : ∀ store ∈ r.stored, Happened H keys s₀ past store
  purged : ∀ entry ∈ r.ledger.entries, ∀ store, entry.fate = .dropped store →
    store ∈ r.stored ∧ entry.value ∈ store.block.transactions
  purging : ∀ block, s.network = .purging block →
    ∃ store, r.stored.getLast? = some store ∧ store.block = block

/-- What follows the store of a received block.  Unless it was answered with true, the call is
over.  Else the block can be retrieved, provided its file was written completely, and whatever the
other threads do before, the next step of the network thread is the purge: it takes exactly the
transactions of this block out of the pool. -/
def StoreThenPurge (io : WriteOutcome) (s t : State) : Prop :=
  ∃ block ok, s.network = .storingValue block ∧
    s.valueStorage.storeBlock H.endian block io = .ok (ok, t.valueStorage) ∧
    t.transactionPool = s.transactionPool ∧
    (ok = false → t.network = .idle) ∧
    (ok = true →
      (io.blockFile (block.serialize H.endian) = some (block.serialize H.endian) →
        t.valueStorage.Stored H.endian block.hash block) ∧
      ∀ bs u, run H keys bs t = some u → .purge ∉ bs →
        u.network = .purging block ∧ ∃ v, step H keys .purge u = some v ∧ v.network = .idle ∧
          v.transactionPool
            = u.transactionPool.filter (fun tx => decide (tx ∉ block.transactions)))

variable {H keys} {s₀ : State} {past : List Action} {s t : State} {r : PoolRecord H} {a : Action}

/-! ## One step -/

section Store

variable {io : WriteOutcome} {block : ValueBlock} {storage : FileStorage ValueBlock}

theorem receivedStore?_of_true (hphase : s.network = .storingValue block)
    (hstore : s.valueStorage.storeBlock H.endian block io = .ok (true, storage)) :
    receivedStore? H s io = some ⟨block, io, s.valueStorage, storage, hstore⟩ := by
  unfold receivedStore?
  rw [hphase]
  dsimp only
  split
  · rename_i after hafter
    obtain rfl : storage = after := (Prod.mk.inj (Except.ok.inj (hstore.symm.trans hafter))).2
    rfl
  · rename_i hnot
    exact absurd hstore (hnot storage)

theorem receivedStore?_of_false (hphase : s.network = .storingValue block)
    (hstore : s.valueStorage.storeBlock H.endian block io = .ok (false, storage)) :
    receivedStore? H s io = none := by
  unfold receivedStore?
  rw [hphase]
  dsimp only
  split
  · rename_i after hafter
    cases hstore.symm.trans hafter
  · rfl

end Store

theorem Happened.concat {store : ReceivedStore H} (h : Happened H keys s₀ past store)
    (a : Action) : Happened H keys s₀ (past ++ [a]) store := by
  obtain ⟨earlier, later, u, v, rfl, hstore⟩ := h
  exact ⟨earlier, later ++ [a], u, v, by rw [List.append_assoc, List.cons_append], hstore⟩

/-- A step that leaves the pool alone. -/
theorem Accounted.of_other (h : Accounted H keys s₀ past s r) (ha : a.added = none)
    (hpool : t.transactionPool = s.transactionPool)
    (hpurging : ∀ block, t.network = .purging block → s.network = .purging block) :
    Accounted H keys s₀ (past ++ [a]) t r where
  added := by rw [List.filterMap_append, ← h.added]; simp [ha]
  pooled := hpool.trans h.pooled
  count := h.count
  gathered := h.gathered
  stored := fun store hstore => (h.stored store hstore).concat a
  purged := h.purged
  purging := fun block hblock => h.purging block (hpurging block hblock)

theorem Accounted.addTransaction (h : Accounted H keys s₀ past s r) (transaction : Transaction) :
    Accounted H keys s₀ (past ++ [.addTransaction transaction])
      { s with transactionPool := s.transactionPool ++ [transaction] }
      { r with ledger := r.ledger.add transaction } where
  added := by rw [List.filterMap_append, ← h.added, Ledger.values_add]; rfl
  pooled := by rw [Ledger.waiting_add, ← h.pooled]
  count := h.count
  gathered := by
    intro n batch hn
    rw [Ledger.batch_add]
    exact h.gathered n batch hn
  stored := fun store hstore => (h.stored store hstore).concat _
  purged := fun entry hentry store hfate =>
    h.purged entry (Ledger.fate_of_add hentry hfate) store hfate
  purging := h.purging

/-- The whole pool goes into the next batch. -/
theorem Accounted.gather (h : Accounted H keys s₀ past s r) {coinbase : Transaction}
    (hcoinbase : ValueChainConsensus.coinbaseTransaction H keys = .ok coinbase) :
    Accounted H keys s₀ (past ++ [.gather])
      { s with transactionPool := [], valueLoop := .gathered (coinbase :: s.transactionPool) }
      { r with
        ledger := r.ledger.take
        gathered := r.gathered ++ [coinbase :: s.transactionPool] } where
  added := by
    rw [List.filterMap_append, ← h.added, Ledger.values_take]
    exact (List.append_nil _).symm
  pooled := by rw [Ledger.waiting_take]
  count := by rw [List.length_append, h.count]; rfl
  gathered := by
    intro n batch hn
    show ∃ c, _ ∧ batch = c :: r.ledger.take.batch n
    rcases Nat.lt_trichotomy n r.gathered.length with hlt | rfl | hgt
    · rw [List.getElem?_append_left hlt] at hn
      rw [Ledger.batch_take_of_lt r.ledger (h.count ▸ hlt)]
      exact h.gathered n batch hn
    · rw [List.getElem?_concat_length] at hn
      obtain rfl := Option.some.inj hn
      refine ⟨coinbase, hcoinbase, ?_⟩
      rw [h.count, Ledger.batch_take, ← h.pooled]
    · rw [List.getElem?_eq_none (by rw [List.length_append]; exact hgt)] at hn
      cases hn
  stored := fun store hstore => (h.stored store hstore).concat _
  purged := fun entry hentry store hfate =>
    h.purged entry (Ledger.fate_of_take hentry hfate) store hfate
  purging := h.purging

/-- The transactions of the block that was stored last are taken out of the pool, all copies of
each. -/
theorem Accounted.purge (h : Accounted H keys s₀ past s r) {block : ValueBlock}
    (hphase : s.network = .purging block) :
    Accounted H keys s₀ (past ++ [.purge])
      { s with
        transactionPool :=
          ValueChainConsensus.removeTransactions s.transactionPool block.transactions
        network := .idle }
      (r.next H .purge s t) := by
  obtain ⟨store, hlast, rfl⟩ := h.purging block hphase
  simp only [PoolRecord.next, hlast]
  constructor
  · rw [List.filterMap_append, ← h.added, Ledger.values_drop]
    exact (List.append_nil _).symm
  · rw [Ledger.waiting_drop, ← h.pooled, ValueChainConsensus.removeTransactions_eq_filter]
    simp only [decide_not]
  · exact h.count
  · intro n batch hn
    rw [Ledger.batch_drop]
    exact h.gathered n batch hn
  · exact fun store hstore => (h.stored store hstore).concat _
  · intro entry hentry store' hfate
    rcases Ledger.fate_of_drop hentry hfate with ⟨rfl, hmem⟩ | hold
    · exact ⟨List.mem_of_getLast? hlast, of_decide_eq_true hmem⟩
    · exact h.purged entry hold store' hfate
  · intro block hidle
    cases hidle

/-- A store that was answered with true is recorded before the purge. -/
theorem Accounted.storeReceived (h : Accounted H keys s₀ past s r)
    (hrun : run H keys past s₀ = some s) {io : WriteOutcome} {block : ValueBlock}
    {storage : FileStorage ValueBlock} (hphase : s.network = .storingValue block)
    (hstore : s.valueStorage.storeBlock H.endian block io = .ok (true, storage))
    (hstep : step H keys (.storeReceivedValue io) s
      = some { s with valueStorage := storage, network := .purging block }) :
    Accounted H keys s₀ (past ++ [.storeReceivedValue io])
      { s with valueStorage := storage, network := .purging block }
      (r.next H (.storeReceivedValue io) s t) := by
  simp only [PoolRecord.next, receivedStore?_of_true hphase hstore, Option.toList_some]
  constructor
  · rw [List.filterMap_append, ← h.added]
    exact (List.append_nil _).symm
  · exact h.pooled
  · exact h.count
  · exact h.gathered
  · intro store hmem
    rcases List.mem_append.mp hmem with hmem | hmem
    · exact (h.stored store hmem).concat _
    · obtain rfl := List.mem_singleton.mp hmem
      exact ⟨past, [], s, _, rfl, hrun, hstep, hphase, rfl, rfl⟩
  · intro entry hentry store' hfate
    obtain ⟨hmem, hvalue⟩ := h.purged entry hentry store' hfate
    exact ⟨List.mem_append_left _ hmem, hvalue⟩
  · intro block' hblock'
    obtain rfl : block = block' := NetworkThread.purging.inj hblock'
    exact ⟨_, List.getLast?_concat, rfl⟩

/-- **After each step the record accounts for the pool.** -/
theorem accounted_step (h : Accounted H keys s₀ past s r) (hrun : run H keys past s₀ = some s)
    (hstep : step H keys a s = some t) :
    Accounted H keys s₀ (past ++ [a]) t (r.next H a s t) := by
  cases step_cases hstep with
  | addTransaction transaction => exact h.addTransaction transaction
  | gatherNothing hphase hpool => exact h.of_other rfl hpool.symm (fun _ hb => hb)
  | gather hphase hcoinbase => exact h.gather hcoinbase
  | receiveTime hphase hvalid => exact h.of_other rfl rfl (fun _ hb => by cases hb)
  | storeReceivedTime hphase hstore => exact h.of_other rfl rfl (fun _ hb => by cases hb)
  | receiveValue hphase hexists => exact h.of_other rfl rfl (fun _ hb => by cases hb)
  | rejectValue hphase => exact h.of_other rfl rfl (fun _ hb => by cases hb)
  | checkValue hphase htime hpast htxs hsig =>
      exact h.of_other rfl rfl (fun _ hb => by cases hb)
  | @storeReceivedValue io block ok storage hphase hstore =>
      cases ok with
      | false =>
          simp only [PoolRecord.next, receivedStore?_of_false hphase hstore, Option.toList_none,
            List.append_nil]
          exact h.of_other rfl rfl (fun _ hb => by cases hb)
      | true => exact h.storeReceived hrun hphase hstore hstep
  | purge hphase => exact h.purge hphase
  | _ => exact h.of_other rfl rfl (fun _ hb => hb)

/-! ## From the store to the purge -/

/-- The network thread stays before its purge. -/
theorem purging_step {block : ValueBlock} (hphase : s.network = .purging block)
    (ha : a ≠ .purge) (h : step H keys a s = some t) : t.network = .purging block := by
  cases step_cases h with
  | purge hpurging => exact absurd rfl ha
  | receiveTime hidle hvalid => rw [hphase] at hidle; cases hidle
  | storeReceivedTime hstoring hstore => rw [hphase] at hstoring; cases hstoring
  | receiveValue hidle hexists => rw [hphase] at hidle; cases hidle
  | rejectValue hreferenced => rw [hphase] at hreferenced; cases hreferenced
  | checkValue hreferenced htime hpast htxs hsig => rw [hphase] at hreferenced; cases hreferenced
  | storeReceivedValue hstoring hstore => rw [hphase] at hstoring; cases hstoring
  | _ => exact hphase

theorem purging_run {block : ValueBlock} (hphase : s.network = .purging block)
    {bs : List Action} (hno : .purge ∉ bs) (hrun : run H keys bs s = some t) :
    t.network = .purging block := by
  induction bs generalizing s with
  | nil =>
      obtain rfl : s = t := Option.some.inj hrun
      exact hphase
  | cons a bs ih =>
      obtain ⟨m, hm, hrest⟩ := Option.bind_eq_some_iff.mp hrun
      have ha : a ≠ .purge := fun ha => hno (ha ▸ List.mem_cons_self ..)
      exact ih (purging_step hphase ha hm) (fun h => hno (List.mem_cons_of_mem _ h)) hrest

/-- The purge is possible then, and takes the transactions of the block out of the pool. -/
theorem exists_purge {block : ValueBlock} (hphase : s.network = .purging block) :
    ∃ t, step H keys .purge s = some t ∧ t.network = .idle ∧
      t.transactionPool
        = s.transactionPool.filter (fun tx => decide (tx ∉ block.transactions)) := by
  have hstep : step H keys .purge s = some { s with
      transactionPool :=
        ValueChainConsensus.removeTransactions s.transactionPool block.transactions
      network := .idle } := by
    simp only [step, hphase]
  exact ⟨_, hstep, rfl, ValueChainConsensus.removeTransactions_eq_filter _ _⟩

/-- **A stored block is purged with**: after the store comes the purge, whatever the other
threads do in between. -/
theorem storeThenPurge_step {io : WriteOutcome}
    (h : step H keys (.storeReceivedValue io) s = some t) : StoreThenPurge H keys io s t := by
  cases step_cases h with
  | @storeReceivedValue _ block ok storage hphase hstore =>
      refine ⟨block, ok, hphase, hstore, rfl, ?_, ?_⟩
      · rintro rfl
        rfl
      · rintro rfl
        refine ⟨fun hwhole => FileStorage.stored_storeBlock hstore hwhole, fun bs u hrun hno => ?_⟩
        have hpurging : u.network = .purging block := purging_run rfl hno hrun
        exact ⟨hpurging, exists_purge hpurging⟩

/-! ## Every run -/

theorem accounted_empty (hpool : s.transactionPool = []) (hidle : s.network = .idle) :
    Accounted H keys s [] s .empty where
  added := rfl
  pooled := hpool
  count := rfl
  gathered := fun _ _ h => by cases h
  stored := fun _ h => by cases h
  purged := fun _ h => by cases h
  purging := fun _ h => by rw [hidle] at h; cases h

/-- A start leaves the pool empty, and no thread in a call. -/
theorem pool_of_start {G : GenesisBlocks} {s₀ : State} (h : start H G = some s₀) :
    s₀.transactionPool = [] ∧ s₀.network = .idle := by
  unfold start at h
  split at h
  · cases h
    exact ⟨rfl, rfl⟩
  · cases h

/-- **The pool is a queue with purge**: every run has a record that accounts for its pool; a store
of a received block that was answered with true is followed by the purge with this block, and a
purge leaves the pool without the transactions of the block stored last, the others in order and
as often as they were there. -/
theorem accounted_run {G : GenesisBlocks} {as : List Action} {s₀ : State}
    (hstart : start H G = some s₀) (hrun : run H keys as s₀ = some s) :
    ∃ r, Transition.run (recordStep H keys) as (s₀, .empty) = some (s, r) ∧
      Accounted H keys s₀ as s r ∧
      (∀ io t, step H keys (.storeReceivedValue io) s = some t → StoreThenPurge H keys io s t) ∧
      ∀ t, step H keys .purge s = some t → ∃ store, r.stored.getLast? = some store ∧
        t.transactionPool
          = s.transactionPool.filter (fun tx => decide (tx ∉ store.block.transactions)) := by
  obtain ⟨hpool, hidle⟩ := pool_of_start hstart
  obtain ⟨r, hr⟩ : ∃ r,
      Transition.run (recordStep H keys) as (s₀, PoolRecord.empty) = some (s, r) :=
    exists_run_recording hrun PoolRecord.empty
  have hinv : run H keys as s₀ = some s ∧ Accounted H keys s₀ as s r := by
    refine run_history (C := fun _ _ => True)
      (I := fun past x => run H keys past s₀ = some x.1 ∧ Accounted H keys s₀ past x.1 x.2)
      [] (fun past x a y hx _ hy => ?_) hr (along_of_forall (fun _ _ => trivial) _ _)
      ⟨rfl, accounted_empty hpool hidle⟩
    obtain ⟨m, hm, rfl⟩ := Option.map_eq_some_iff.mp hy
    exact ⟨run_concat hx.1 hm, accounted_step hx.2 hx.1 hm⟩
  refine ⟨r, hr, hinv.2, fun io t ht => storeThenPurge_step ht, fun t ht => ?_⟩
  cases step_cases ht with
  | @purge block hphase =>
      obtain ⟨store, hlast, rfl⟩ := hinv.2.purging block hphase
      exact ⟨store, hlast, ValueChainConsensus.removeTransactions_eq_filter _ _⟩

/-- One payment is added twice and another one once; a block with the first is received and stored,
a third payment comes before the purge, and the rest of the pool is gathered. -/
def purgeSteps : List Action :=
  [.addTransaction (signedPayment 10 []), .addTransaction (signedPayment 20 [7]),
    .addTransaction (signedPayment 10 []),
    .receiveValue (receivedPayments [signedPayment 10 []]), .checkValue, .storeReceivedValue .ok,
    .addTransaction (signedPayment 30 []), .purge, .produceValue 0, .gather]

theorem accounted_run_purge :
    ∃ s₀ s, start tagHost shippedGenesis = some s₀ ∧ run tagHost tagKeys purgeSteps s₀ = some s ∧
      (s.valueLoop.transactions.drop 1 = [signedPayment 20 [7], signedPayment 30 []]) ∧
      ∃ r, Transition.run (recordStep tagHost tagKeys) purgeSteps (s₀, .empty) = some (s, r) ∧
        Accounted tagHost tagKeys s₀ purgeSteps s r := by
  have hreaches : Reaches tagHost shippedGenesis tagKeys purgeSteps
      (fun s => decide (s.valueLoop.transactions.drop 1
        = [signedPayment 20 [7], signedPayment 30 []])) = true := by decide +kernel
  obtain ⟨s₀, s, hstart, hrun, hp⟩ := exists_run_of_reaches hreaches
  obtain ⟨r, hr, haccounted, -⟩ := accounted_run hstart hrun
  exact ⟨s₀, s, hstart, hrun, of_decide_eq_true hp, r, hr, haccounted⟩

end Node

end CoinPlatform
