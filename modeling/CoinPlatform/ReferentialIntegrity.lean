/-
# References from the value chain into the time chain

Every value block in the value store names a time block that exists in the time store.  Three
threads write the two stores, and no two of their storage calls are atomic together, so the
invariant `ReferencesExist` is also about the blocks and hashes that are on their way: what has
been found in the time store once is never lost there, and while the stores of time blocks
succeed there is always a latest one to name.

* `referencesExist_step`: the invariant is kept by every step whose store of a time block, if it
  is one, succeeds;
* `timeBlockHash_exists_run`: so every run from empty directories keeps it.
-/
import CoinPlatform.TimeReference
import CoinPlatform.ValueAgreement

open ByteOrder StdVector

namespace CoinPlatform

open FileStorage

namespace Node

variable {H : Host} {G : GenesisBlocks} {keys : NodeKeys H}

/-- The value block the network thread is handling, once its time block has been found. -/
def NetworkThread.referring? : NetworkThread → Option ValueBlock
  | .referenced block => some block
  | .storingValue block => some block
  | _ => none

/-- The time block that is named exists. -/
def References (s : State) (block : ValueBlock) : Prop :=
  s.timeStorage.blockExists block.timeBlockHash = true

/-- No file operation fails while a time block is stored. -/
def TimeStoresSucceed (_ : State) (a : Action) : Prop :=
  match a with
  | .storeProducedTime io => io = .ok
  | .storeReceivedTime io => io = .ok
  | _ => True

instance (s : State) (a : Action) : Decidable (TimeStoresSucceed s a) := by
  apply Action.casesOn (motive := fun a => Decidable (TimeStoresSucceed s a)) a <;> intros <;>
    dsimp only [TimeStoresSucceed] <;> infer_instance

/-- The invariant: there is a latest time block, which exists under its hash, and every value
block that can be read or is about to be stored names an existing one. -/
structure ReferencesExist (H : Host) (s : State) : Prop where
  latest : ∃ latest, s.timeStorage.IsLatest H.endian latest
  latestExists : LatestExists H s
  readable : ∀ block, s.valueStorage.Readable H.endian block → References s block
  produced : ∀ block, s.valueLoop = .storing block → References s block
  received : ∀ block, s.network.referring? = some block → References s block

section Step

variable {s t : State} {a : Action}

/-- A time block that exists is never lost. -/
theorem References.step {block : ValueBlock} (hs : References s block)
    (h : step H keys a s = some t) : References t block := by
  rcases timeStorage_cases h with heq | ⟨x, io, ok, hstore, -⟩
  · rwa [References, heq]
  · exact (blockExists_storeBlock hstore _).mpr (.inl hs)

/-- A block that is stored without failure is the latest one, so there always is one. -/
theorem exists_isLatest_step (hs : ∃ latest, s.timeStorage.IsLatest H.endian latest)
    (hC : TimeStoresSucceed s a) (h : step H keys a s = some t) :
    ∃ latest, t.timeStorage.IsLatest H.endian latest := by
  rcases timeStorage_cases h with heq | ⟨x, io, ok, hstore, ⟨rfl, -⟩ | ⟨rfl, -⟩⟩
  · rwa [heq]
  · obtain rfl : io = .ok := hC
    exact ⟨x, isLatest_storeBlock hstore⟩
  · obtain rfl : io = .ok := hC
    exact ⟨x, isLatest_storeBlock hstore⟩

/-- A block the network thread is handling has just been found to name an existing time block,
or was there before. -/
theorem network_referring (h : step H keys a s = some t) {block : ValueBlock}
    (hblock : t.network.referring? = some block) :
    s.network.referring? = some block ∨ References s block := by
  cases step_cases h with
  | receiveValue hphase hexists =>
      cases hblock
      exact .inr hexists
  | checkValue hphase htime hpast htxs hsig => exact .inl (by rw [hphase]; exact hblock)
  | receiveTime hphase hvalid => cases hblock
  | storeReceivedTime hphase hstore => cases hblock
  | rejectValue hphase => cases hblock
  | storeReceivedValue hphase hstore =>
      change (if _ then NetworkThread.purging _ else NetworkThread.idle).referring? = _ at hblock
      split at hblock <;> cases hblock
  | purge hphase => cases hblock
  | _ => exact .inl hblock

/-- The value loop names the latest time block: there is one, so its hash is not the zero hash
that stands for none. -/
theorem references_createBlock (hlatest : ∃ latest, s.timeStorage.IsLatest H.endian latest)
    (hexists : LatestExists H s) {transactions : List Transaction}
    {latestBlock : Option ValueBlock} {currentTime : TimePoint} {timeBlockHash : Hash}
    {block : ValueBlock}
    (hhash : TimeChain.getLatestBlockHash H.endian s.timeStorage = .ok timeBlockHash)
    (hcreate : ValueChainConsensus.createBlock H keys latestBlock timeBlockHash currentTime
      transactions = .ok block) : References s block := by
  obtain ⟨latest, hlatest⟩ := hlatest
  obtain ⟨o, hread, hhash⟩ := bind_eq_ok.mp hhash
  obtain rfl : some latest = o := Except.ok.inj (hlatest.symm.trans hread)
  obtain rfl : latest.hash = timeBlockHash := Except.ok.inj hhash
  obtain ⟨-, hname, -, -, -⟩ := ValueChainConsensus.fields_createBlock hcreate
  rw [References, hname]
  exact hexists latest hlatest

/-- **Every step keeps the references**, if it does not fail to store a time block. -/
theorem referencesExist_step (hs : ReferencesExist H s) (hC : TimeStoresSucceed s a)
    (h : step H keys a s = some t) : ReferencesExist H t := by
  refine ⟨exists_isLatest_step hs.latest hC h, latestExists_step hs.latestExists h, ?_, ?_, ?_⟩
  · intro block hblock
    apply References.step _ h
    rcases valueStorage_cases h with heq | ⟨x, io, ok, hstore, hx⟩
    · exact hs.readable block (heq ▸ hblock)
    · rcases readable_of_storeBlock hstore hblock with rfl | hbefore
      · rcases hx with ⟨-, hloop⟩ | ⟨-, hnet⟩
        · exact hs.produced block hloop
        · exact hs.received block (by rw [hnet]; rfl)
      · exact hs.readable block hbefore
  · intro block hblock
    apply References.step _ h
    rcases valueLoop_storing h hblock with hbefore |
        ⟨transactions, latestBlock, currentTime, timeBlockHash, -, -, hhash, hcreate⟩
    · exact hs.produced block hbefore
    · exact references_createBlock hs.latest hs.latestExists hhash hcreate
  · intro block hblock
    apply References.step _ h
    rcases network_referring h hblock with hbefore | hfound
    · exact hs.received block hbefore
    · exact hfound

end Step

theorem Started.referencesExist {s : State} {timeGenesis : TimeBlock} {valueGenesis : ValueBlock}
    (hs : Started H shippedGenesis s timeGenesis valueGenesis) : ReferencesExist H s := by
  have hgenesis : s.timeStorage.blockExists timeGenesis.hash = true :=
    ((hs.timeStored _ _).mpr ⟨rfl, rfl⟩).blockExists
  refine ⟨⟨timeGenesis, hs.timeLatest⟩, ?_, ?_, ?_, ?_⟩
  · intro latest hlatest
    obtain rfl := hlatest.unique hs.timeLatest
    exact hgenesis
  · intro block hblock
    obtain rfl := hs.eq_of_readable_value hblock
    obtain ⟨hname, -⟩ := date_of_isValueGenesis hs.isTimeGenesis hs.isValueGenesis
    rw [References, hname]
    exact hgenesis
  · intro block hblock
    rw [hs.valueLoop] at hblock
    cases hblock
  · intro block hblock
    rw [hs.network] at hblock
    cases hblock

/-- **The value chain refers to existing time blocks only.**  In every run from empty directories
in which no store of a time block fails, every value block that can be read, genesis included,
names a time block that exists. -/
theorem timeBlockHash_exists_run {as : List Action} {s₀ s : State}
    (hstart : start H shippedGenesis = some s₀) (hrun : run H keys as s₀ = some s)
    (hC : Along H keys TimeStoresSucceed as s₀) {block : ValueBlock}
    (hblock : s.valueStorage.Readable H.endian block) :
    s.timeStorage.blockExists block.timeBlockHash = true := by
  obtain ⟨timeGenesis, valueGenesis, hs₀⟩ := started_of_start hstart
  have hinv : ReferencesExist H s := Transition.run_invariant
    (fun s a t hs hC h => referencesExist_step hs hC h) hrun hC hs₀.referencesExist
  exact hinv.readable block hblock

/-- A time block is received while the value loop is producing. -/
theorem timeBlockHash_exists_run_received :
    ∃ s₀ s block, start tagHost shippedGenesis = some s₀ ∧
      run tagHost tagKeys [.addTransaction (payment paymentSignature), .produceValue 0, .gather,
        .readLatestValue, .readTime, .receiveTime (receivedTimeBlock timeChainGenesisHash),
        .storeReceivedTime .ok, .readTimeHash, .storeProducedValue .ok] s₀ = some s ∧
      s.valueStorage.IsLatest .little block ∧
      s.timeStorage.blockExists block.timeBlockHash = true := by
  have hconforms : Conforms tagHost shippedGenesis tagKeys TimeStoresSucceed
      [.addTransaction (payment paymentSignature), .produceValue 0, .gather, .readLatestValue,
        .readTime, .receiveTime (receivedTimeBlock timeChainGenesisHash), .storeReceivedTime .ok,
        .readTimeHash, .storeProducedValue .ok]
      (fun s => (s.valueStorage.getLatestBlock .little).toOption.join.isSome) = true := by
    decide +kernel
  obtain ⟨s₀, s, hstart, hrun, hlatest, hC⟩ := exists_run_of_conforms hconforms
  obtain ⟨block, hblock⟩ := Option.isSome_iff_exists.mp hlatest
  have hread : s.valueStorage.IsLatest .little block :=
    toOption_eq_some (Option.join_eq_some_iff.mp hblock)
  exact ⟨s₀, s, block, hstart, hrun, hread, timeBlockHash_exists_run hstart hrun hC (.inr hread)⟩

end Node

end CoinPlatform
