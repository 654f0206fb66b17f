/-
# Conservation of transactions

A transaction that was added is in the pool, in the hands of a running `produce_block`, or in
a block that can be retrieved from the value store.  Gathering empties the pool before the
block is stored, and nothing puts the transactions back: when the store of a produced block
fails before its file is complete, they are gone.  `handle_block` purges the pool only when
`store_block` has answered that the block is stored, but that is no proof of a complete file.

* `conserved_run`: as long as the file of every produced block, and of every received block that
  is answered to be stored, is written completely, and no store overwrites a block by a different
  one or by a part of itself, no transaction is lost.
* `not_conserved_run`: one failed open loses the whole batch.
-/
import CoinPlatform.StoredBlocks

open ByteOrder StdVector

namespace CoinPlatform

namespace Node

/-- Some block that can be retrieved contains the transaction. -/
def Included (H : Host) (s : State) (tx : Transaction) : Prop :=
  ∃ k b, s.valueStorage.Stored H.endian k b ∧ tx ∈ b.transactions

/-- Every transaction added in the past is in the pool or in a block that can be retrieved. -/
def Conserved (H : Host) (past : List Action) (s : State) : Prop :=
  ∀ tx, .addTransaction tx ∈ past → tx ∈ s.transactionPool ∨ Included H s tx

/-- The file of the block is written completely. -/
def FileWhole (H : Host) (block : ValueBlock) (io : WriteOutcome) : Prop :=
  io.blockFile (block.serialize H.endian) = some (block.serialize H.endian)

/-- Storing the block may take one away: the file is opened, and what can be retrieved under
the hash is another block, or is the block itself and is not written completely again. -/
def Overwrites (H : Host) (s : State) (block : ValueBlock) (io : WriteOutcome) : Prop :=
  io ≠ .openFailed ∧ ¬ ∀ b, s.valueStorage.Stored H.endian block.hash b →
    b = block ∧ FileWhole H block io

/-- What is not checked: the file of a produced block is written completely, and that of a
received block before the pool is purged; and no store overwrites another block or truncates the
same one. -/
def StoresKeep (H : Host) (s : State) (a : Action) : Prop :=
  match a with
  | .storeProducedValue io => ∀ block, s.valueLoop = .storing block →
    FileWhole H block io ∧ ¬ Overwrites H s block io
  | .storeReceivedValue io => ∀ block, s.network = .storingValue block →
    (io.answer = true → FileWhole H block io) ∧ ¬ Overwrites H s block io
  | _ => True

instance (H : Host) (block : ValueBlock) (io : WriteOutcome) : Decidable (FileWhole H block io) :=
  inferInstanceAs (Decidable (_ = _))

instance (H : Host) (s : State) (block : ValueBlock) (io : WriteOutcome) :
    Decidable (Overwrites H s block io) := by
  unfold Overwrites
  infer_instance

instance (H : Host) (s : State) (a : Action) : Decidable (StoresKeep H s a) := by
  apply Action.casesOn (motive := fun a => Decidable (StoresKeep H s a)) a <;> intros <;>
    dsimp only [StoresKeep] <;> infer_instance

variable {H : Host} {G : GenesisBlocks} {keys : NodeKeys H}

/-- A store that overwrites nothing keeps every block retrievable. -/
theorem stored_of_not_overwrites {s t : State} {x : ValueBlock} {io : WriteOutcome} {ok : Bool}
    (hstore : s.valueStorage.storeBlock H.endian x io = .ok (ok, t.valueStorage))
    (hkeep : ¬ Overwrites H s x io) {k : Hash} {b : ValueBlock}
    (hb : s.valueStorage.Stored H.endian k b) : t.valueStorage.Stored H.endian k b := by
  by_cases hopen : io = .openFailed
  · subst hopen
    rw [FileStorage.eq_of_storeBlock_openFailed hstore]
    exact hb
  · by_cases hk : k = x.hash
    · subst hk
      -- the file of the block itself is written again
      obtain ⟨rfl, hwhole⟩ := not_not.mp (fun hnot => hkeep ⟨hopen, hnot⟩) b hb
      exact FileStorage.stored_storeBlock hstore hwhole
    · exact hb.storeBlock_of_ne hstore hk

/-- The invariant: an added transaction is in the pool, out of it in a running
`produce_block`, or included; and the block being purged can be retrieved. -/
def ConservedInvariant (H : Host) (past : List Action) (s : State) : Prop :=
  (∀ tx, .addTransaction tx ∈ past →
    tx ∈ s.transactionPool ∨ tx ∈ s.valueLoop.transactions ∨ Included H s tx) ∧
  ∀ block, s.network.purging? = some block → s.valueStorage.Stored H.endian block.hash block

/-- Blocks that stay retrievable keep their transactions included. -/
theorem Included.mono {s t : State} {tx : Transaction} (h : Included H s tx)
    (hkeep : ∀ k b, s.valueStorage.Stored H.endian k b → t.valueStorage.Stored H.endian k b) :
    Included H t tx := by
  obtain ⟨k, b, hb, htx⟩ := h
  exact ⟨k, b, hkeep k b hb, htx⟩

section Step

variable {s t : State} {a : Action} {tx : Transaction}

/-- What can be retrieved stays so. -/
theorem stored_step (hkeep : StoresKeep H s a) (h : step H keys a s = some t) {k : Hash}
    {b : ValueBlock} (hb : s.valueStorage.Stored H.endian k b) :
    t.valueStorage.Stored H.endian k b := by
  rcases valueStorage_cases h with heq | ⟨x, io, ok, hstore, ⟨rfl, hphase⟩ | ⟨rfl, hphase⟩⟩
  · rwa [heq]
  · exact stored_of_not_overwrites hstore (hkeep x hphase).2 hb
  · exact stored_of_not_overwrites hstore (hkeep x hphase).2 hb

/-- A transaction in the pool stays there, is gathered, or is purged from it because it is
included. -/
theorem conserved_of_mem_pool
    (hpurge : ∀ block, s.network.purging? = some block →
      s.valueStorage.Stored H.endian block.hash block)
    (hkeep : StoresKeep H s a) (h : step H keys a s = some t) (hin : tx ∈ s.transactionPool) :
    tx ∈ t.transactionPool ∨ tx ∈ t.valueLoop.transactions ∨ Included H t tx := by
  cases valueStep_of_step h with
  | unchanged hstorage hpool hbatch hpurging =>
      rw [hpool]
      exact .inl hin
  | addTransaction hstorage hpool hbatch hpurging =>
      rw [hpool]
      exact .inl (List.mem_append_left _ hin)
  | gather hstorage hempty hpool hbatch hpurging =>
      rcases hbatch with ⟨hnil, -⟩ | ⟨coinbase, -, hbatch⟩
      · rw [hnil] at hin
        cases hin
      · rw [hbatch]
        exact .inr (.inl (List.mem_cons_of_mem _ hin))
  | storeProduced hphase hstore hpool hbatch hpurging =>
      rw [hpool]
      exact .inl hin
  | storeReceived hphase hstore hpool hbatch hpurging =>
      rw [hpool]
      exact .inl hin
  | @purge block hphase hstorage hpool hbatch hpurging =>
      by_cases htx : tx ∈ block.transactions
      · have hstored := stored_step hkeep h (hpurge block (by rw [hphase]; rfl))
        exact .inr (.inr ⟨block.hash, block, hstored, htx⟩)
      · rw [hpool]
        exact .inl (List.mem_filter.mpr ⟨hin, decide_eq_true htx⟩)

/-- A transaction in a running `produce_block` stays there until the block that holds it has been
written. -/
theorem conserved_of_mem_batch (hkeep : StoresKeep H s a) (h : step H keys a s = some t)
    (hin : tx ∈ s.valueLoop.transactions) :
    tx ∈ t.valueLoop.transactions ∨ Included H t tx := by
  cases valueStep_of_step h with
  | gather hstorage hempty hpool hbatch hpurging =>
      rw [hempty] at hin
      cases hin
  | @storeProduced io block ok hphase hstore hpool hbatch hpurging =>
      rw [hphase] at hin
      have hstored := FileStorage.stored_storeBlock hstore (hkeep block hphase).1
      exact .inr ⟨block.hash, block, hstored, hin⟩
  | unchanged hstorage hpool hbatch hpurging =>
      rw [hbatch]
      exact .inl hin
  | addTransaction hstorage hpool hbatch hpurging =>
      rw [hbatch]
      exact .inl hin
  | storeReceived hphase hstore hpool hbatch hpurging =>
      rw [hbatch]
      exact .inl hin
  | purge hphase hstorage hpool hbatch hpurging =>
      rw [hbatch]
      exact .inl hin

/-- The block that is purged has just been stored, or could be retrieved before. -/
theorem purging_stored_step
    (hpurge : ∀ block, s.network.purging? = some block →
      s.valueStorage.Stored H.endian block.hash block)
    (hkeep : StoresKeep H s a) (h : step H keys a s = some t) {block : ValueBlock}
    (hblock : t.network.purging? = some block) :
    t.valueStorage.Stored H.endian block.hash block := by
  have hbefore : t.network.purging? = s.network.purging? →
      t.valueStorage.Stored H.endian block.hash block :=
    fun hpurging => stored_step hkeep h (hpurge block (hpurging ▸ hblock))
  cases valueStep_of_step h with
  | unchanged hstorage hpool hbatch hpurging => exact hbefore hpurging
  | addTransaction hstorage hpool hbatch hpurging => exact hbefore hpurging
  | gather hstorage hempty hpool hbatch hpurging => exact hbefore hpurging
  | storeProduced hphase hstore hpool hbatch hpurging => exact hbefore hpurging
  | @storeReceived io _ ok hphase hstore hpool hbatch hpurging =>
      rw [hpurging] at hblock
      cases ok with
      | false => cases hblock
      | true =>
          cases hblock
          -- the purge follows a store that is answered to have succeeded
          have hanswer := (FileStorage.storeBlock_cases hstore).1.symm
          exact FileStorage.stored_storeBlock hstore ((hkeep block hphase).1 hanswer)
  | purge hphase hstorage hpool hbatch hpurging =>
      rw [hpurging] at hblock
      cases hblock

theorem mem_pool_of_addTransaction (h : step H keys (.addTransaction tx) s = some t) :
    tx ∈ t.transactionPool := by
  obtain rfl := Option.some.inj h
  exact List.mem_append_right _ (List.mem_singleton_self tx)

theorem conservedInvariant_step {past : List Action} (hs : ConservedInvariant H past s)
    (hkeep : StoresKeep H s a) (h : step H keys a s = some t) :
    ConservedInvariant H (past ++ [a]) t := by
  obtain ⟨hadded, hpurge⟩ := hs
  refine ⟨fun tx htx => ?_, fun block hblock => purging_stored_step hpurge hkeep h hblock⟩
  rcases List.mem_append.mp htx with htx | htx
  · rcases hadded tx htx with hin | hin | hin
    · exact conserved_of_mem_pool hpurge hkeep h hin
    · exact .inr (conserved_of_mem_batch hkeep h hin)
    · exact .inr (.inr (hin.mono (fun _ _ hb => stored_step hkeep h hb)))
  · -- the transaction is added in this step
    obtain rfl := (List.mem_singleton.mp htx).symm
    exact .inl (mem_pool_of_addTransaction h)

end Step

/-- **No transaction is lost, where the stores keep what they have.**  In every run whose
produced blocks, and received blocks before the purge, are written completely, and whose stores
overwrite nothing, every added transaction is in the pool or in a block that can be retrieved
whenever no `produce_block` of the value loop is running. -/
theorem conserved_run {as : List Action} {s₀ s : State} (hstart : start H G = some s₀)
    (hrun : run H keys as s₀ = some s) (hkeep : Along H keys (StoresKeep H) as s₀)
    (hidle : s.valueLoop = .idle) : Conserved H as s := by
  obtain ⟨timeGenesis, valueGenesis, hs₀⟩ := started_of_start hstart
  have hinit : ConservedInvariant H [] s₀ := by
    refine ⟨fun tx htx => (nomatch htx), fun b hb => ?_⟩
    rw [hs₀.network] at hb
    cases hb
  have hinv : ConservedInvariant H ([] ++ as) s := Transition.run_history []
    (fun past s a t hs hC h => conservedInvariant_step hs hC h) hrun hkeep hinit
  intro tx htx
  rcases hinv.1 tx htx with hin | hin | hin
  · exact .inl hin
  · rw [hidle] at hin
    cases hin
  · exact .inr hin

/-! ## A failed store -/

/-- A payment that is gathered and stored. -/
theorem conserved_run_payment :
    ∃ s₀ s, start tagHost shippedGenesis = some s₀ ∧
      run tagHost tagKeys (.addTransaction (payment paymentSignature) ::
        produceValueSteps .ok) s₀ = some s ∧
      s.valueLoop = .idle ∧
      Conserved tagHost (.addTransaction (payment paymentSignature) ::
        produceValueSteps .ok) s := by
  have hconforms : Conforms tagHost shippedGenesis tagKeys (StoresKeep tagHost)
      (.addTransaction (payment paymentSignature) :: produceValueSteps .ok)
      (fun s => decide (s.valueLoop = .idle)) = true := by decide +kernel
  obtain ⟨s₀, s, hstart, hrun, hp, hkeep⟩ := exists_run_of_conforms hconforms
  have hidle : s.valueLoop = .idle := of_decide_eq_true hp
  exact ⟨s₀, s, hstart, hrun, hidle, conserved_run hstart hrun hkeep hidle⟩

/-- No store of the run opens its file. -/
def StoresFail (_ : State) (a : Action) : Prop :=
  match a with
  | .storeProducedValue io => io = .openFailed
  | .storeReceivedValue io => io = .openFailed
  | _ => True

instance (s : State) (a : Action) : Decidable (StoresFail s a) := by
  apply Action.casesOn (motive := fun a => Decidable (StoresFail s a)) a <;> intros <;>
    dsimp only [StoresFail] <;> infer_instance

/-- A run whose stores fail leaves the value storage as it was. -/
theorem valueStorage_of_storesFail {as : List Action} {s₀ s : State}
    (hrun : run H keys as s₀ = some s) (hfail : Along H keys StoresFail as s₀) :
    s.valueStorage = s₀.valueStorage := by
  refine Transition.run_invariant (I := fun s => s.valueStorage = s₀.valueStorage) ?_ hrun
    hfail rfl
  intro s a t hs hC h
  rcases valueStorage_cases h with heq | ⟨x, io, ok, hstore, ⟨rfl, -⟩ | ⟨rfl, -⟩⟩
  · rw [heq, hs]
  · cases (show io = .openFailed from hC)
    rw [FileStorage.eq_of_storeBlock_openFailed hstore, hs]
  · cases (show io = .openFailed from hC)
    rw [FileStorage.eq_of_storeBlock_openFailed hstore, hs]

/-- **A failed store loses the batch**: the payment has left the pool, and the store holds the
genesis block only. -/
theorem not_conserved_run :
    ∃ s₀ s, start tagHost shippedGenesis = some s₀ ∧
      run tagHost tagKeys (.addTransaction (payment paymentSignature) ::
        produceValueSteps .openFailed) s₀ = some s ∧
      s.valueLoop = .idle ∧
      ¬ Conserved tagHost (.addTransaction (payment paymentSignature) ::
        produceValueSteps .openFailed) s := by
  have hconforms : Conforms tagHost shippedGenesis tagKeys StoresFail
      (.addTransaction (payment paymentSignature) :: produceValueSteps .openFailed)
      (fun s => decide (s.valueLoop = .idle ∧ s.transactionPool = [] ∧
        ∀ b, s.valueStorage.IsLatest .little b →
          payment paymentSignature ∉ b.transactions)) = true := by
    decide +kernel
  obtain ⟨s₀, s, hstart, hrun, hp, hfail⟩ := exists_run_of_conforms hconforms
  obtain ⟨hidle, hpool, hlatest⟩ := of_decide_eq_true hp
  refine ⟨s₀, s, hstart, hrun, hidle, fun hconserved => ?_⟩
  obtain ⟨timeGenesis, valueGenesis, hs₀⟩ := started_of_start hstart
  -- the store is as it was: genesis is the only block, and it lacks the payment
  have hstorage := valueStorage_of_storesFail hrun hfail
  rcases hconserved _ (List.mem_cons_self ..) with hin | ⟨k, b, hb, hin⟩
  · rw [hpool] at hin
    cases hin
  · rw [hstorage] at hb hlatest
    obtain ⟨-, rfl⟩ := (hs₀.valueStored k b).mp hb
    exact hlatest _ hs₀.valueLatest hin

end Node

end CoinPlatform
