/-
# Time references

A value block says when it was made, and names the time block that says so.  The producer reads
the time and the hash of the latest time block one after the other, and a receiver asks of the
two only that the time block exists and that the time has passed.

* `Dated`: the time block under a hash has a time.
* `referencesDated_step`: the references are kept by every step that stores no time block over
  one of another time, reads no hash that does not belong to the time read before, and stores
  no received block with another time than that of its time block.
* `datedValueBlocks_run`: in every run of such steps all references are true.
* `not_datedValueBlocks_run`: a received block with a time of its own, and a time block that
  arrives between the two reads.
-/
import CoinPlatform.StorageAnswers
import CoinPlatform.StoredBlocks

open ByteOrder StdVector

namespace CoinPlatform

open FileStorage

/-! ## Dates -/

/-- The time block under the hash has the time. -/
def Dated (e : Endian) (s : FileStorage TimeBlock) (h : Hash) (time : TimePoint) : Prop :=
  ∃ timeBlock, s.Stored e h timeBlock ∧ timeBlock.time = time

/-- No time block is replaced by one of another time, or lost. -/
def KeepsDates (e : Endian) (s : FileStorage TimeBlock) (x : TimeBlock) (io : WriteOutcome) :
    Prop :=
  io ≠ .openFailed → ∀ timeBlock, s.Stored e x.hash timeBlock →
    io.blockFile (x.serialize e) = some (x.serialize e) ∧ x.time = timeBlock.time

theorem exists_stored_iff {B : Type} [BlockType B] {e : Endian} {s : FileStorage B} {h : Hash}
    {p : B → Prop} : (¬ ∀ b, s.Stored e h b → ¬ p b) ↔ ∃ b, s.Stored e h b ∧ p b := by
  simp

theorem exists_isLatest_iff {B : Type} [BlockType B] {e : Endian} {s : FileStorage B}
    {p : B → Prop} : (¬ ∀ b, s.IsLatest e b → ¬ p b) ↔ ∃ b, s.IsLatest e b ∧ p b := by
  simp

instance {B : Type} [BlockType B] (e : Endian) (s : FileStorage B) (p : B → Prop)
    [DecidablePred p] : Decidable (∃ b, s.IsLatest e b ∧ p b) :=
  decidable_of_iff _ exists_isLatest_iff

instance (e : Endian) (s : FileStorage TimeBlock) (h : Hash) (time : TimePoint) :
    Decidable (Dated e s h time) :=
  decidable_of_iff _ exists_stored_iff

instance (e : Endian) (s : FileStorage TimeBlock) (x : TimeBlock) (io : WriteOutcome) :
    Decidable (KeepsDates e s x io) :=
  inferInstanceAs (Decidable (_ → _))

section Storing

variable {e : Endian} {s s' : FileStorage TimeBlock} {x : TimeBlock} {io : WriteOutcome} {r : Bool}

theorem Dated.storeBlock {h : Hash} {time : TimePoint} (hs : Dated e s h time)
    (hx : KeepsDates e s x io) (hstore : s.storeBlock e x io = .ok (r, s')) :
    Dated e s' h time := by
  obtain ⟨timeBlock, htb, rfl⟩ := hs
  by_cases hh : h = x.hash
  · subst hh
    by_cases hopen : io = .openFailed
    · subst hopen
      rw [eq_of_storeBlock_openFailed hstore]
      exact ⟨timeBlock, htb, rfl⟩
    · obtain ⟨hwritten, htime⟩ := hx hopen timeBlock htb
      exact ⟨x, stored_storeBlock hstore hwritten, htime⟩
  · exact ⟨timeBlock, htb.storeBlock_of_ne hstore hh, rfl⟩

/-- The latest time block is found under its hash, with its time. -/
def LatestDated (e : Endian) (s : FileStorage TimeBlock) : Prop :=
  ∀ latest, s.IsLatest e latest → Dated e s latest.hash latest.time

theorem LatestDated.storeBlock (hs : LatestDated e s) (hx : KeepsDates e s x io)
    (hstore : s.storeBlock e x io = .ok (r, s')) : LatestDated e s' := by
  intro latest hlatest
  rcases isLatest_of_storeBlock hstore hlatest with ⟨rfl, hwritten⟩ | hlatest
  · have hwhole := WriteOutcome.blockFile_of_latestFile hwritten
    exact ⟨latest, stored_storeBlock hstore hwhole, rfl⟩
  · exact (hs latest hlatest).storeBlock hx hstore

end Storing

namespace Node

variable {H : Host} {keys : NodeKeys H}

/-! ## The node -/

/-- The references of the stored value blocks are true. -/
def DatedValueBlocks (H : Host) (s : State) : Prop :=
  ∀ k block, s.valueStorage.Stored H.endian k block →
    Dated H.endian s.timeStorage block.timeBlockHash block.time

/-- The time that the value loop has read for its block. -/
def ValueLoop.currentTime? : ValueLoop → Option TimePoint
  | .timed _ _ currentTime => some currentTime
  | _ => none

/-- What the node does not check of the times it stores. -/
def DatesChecked (H : Host) (s : State) (a : Action) : Prop :=
  match a with
  | .storeProducedTime io => ∀ block, s.timeLoop = .storing block →
    KeepsDates H.endian s.timeStorage block io
  | .storeReceivedTime io => ∀ block, s.network = .storingTime block →
    KeepsDates H.endian s.timeStorage block io
  | .readTimeHash => ∀ currentTime ∈ s.valueLoop.currentTime?,
    ∃ latest, s.timeStorage.IsLatest H.endian latest ∧ latest.time = currentTime
  | .storeReceivedValue io => ∀ block, s.network = .storingValue block →
    io.blockFile (block.serialize H.endian) = some (block.serialize H.endian) →
    Dated H.endian s.timeStorage block.timeBlockHash block.time
  | _ => True

instance (s : State) (a : Action) : Decidable (DatesChecked H s a) := by
  apply Action.casesOn (motive := fun a => Decidable (DatesChecked H s a)) a <;> intros <;>
    dsimp only [DatesChecked] <;> infer_instance

/-- The invariant: the references of stored and pending value blocks are true, and the latest
time block is found under its hash. -/
structure ReferencesDated (H : Host) (s : State) : Prop where
  stored : DatedValueBlocks H s
  pending : ∀ block, s.valueLoop = .storing block →
    Dated H.endian s.timeStorage block.timeBlockHash block.time
  latest : LatestDated H.endian s.timeStorage

section Step

variable {s t : State} {a : Action}

/-- What has a date keeps it. -/
theorem dated_step (hs : LatestDated H.endian s.timeStorage) (hC : DatesChecked H s a)
    (h : step H keys a s = some t) :
    LatestDated H.endian t.timeStorage ∧
      ∀ k time, Dated H.endian s.timeStorage k time → Dated H.endian t.timeStorage k time := by
  rcases timeStorage_cases h with heq | ⟨x, io, ok, hstore, ⟨rfl, hloop⟩ | ⟨rfl, hnet⟩⟩
  · rw [heq]
    exact ⟨hs, fun _ _ hk => hk⟩
  · have hx := hC x hloop
    exact ⟨hs.storeBlock hx hstore, fun _ _ hk => hk.storeBlock hx hstore⟩
  · have hx := hC x hnet
    exact ⟨hs.storeBlock hx hstore, fun _ _ hk => hk.storeBlock hx hstore⟩

/-- The value loop builds its block on a time and a hash that belong together. -/
theorem dated_createBlock (hs : LatestDated H.endian s.timeStorage)
    {transactions : List Transaction} {latestBlock : Option ValueBlock} {currentTime : TimePoint}
    {timeBlockHash : Hash} {block : ValueBlock}
    (hlatest : ∃ latest, s.timeStorage.IsLatest H.endian latest ∧ latest.time = currentTime)
    (hhash : TimeChain.getLatestBlockHash H.endian s.timeStorage = .ok timeBlockHash)
    (hcreate : ValueChainConsensus.createBlock H keys latestBlock timeBlockHash currentTime
      transactions = .ok block) :
    Dated H.endian s.timeStorage block.timeBlockHash block.time := by
  obtain ⟨latest, hlatest, rfl⟩ := hlatest
  obtain ⟨o, hread, hhash⟩ := bind_eq_ok.mp hhash
  obtain rfl : some latest = o := Except.ok.inj (hlatest.symm.trans hread)
  obtain rfl : latest.hash = timeBlockHash := Except.ok.inj hhash
  obtain ⟨-, hname, htime, -, -⟩ := ValueChainConsensus.fields_createBlock hcreate
  rw [hname, htime]
  exact hs latest hlatest

/-- **Every step that is checked keeps the references.** -/
theorem referencesDated_step (hs : ReferencesDated H s) (hC : DatesChecked H s a)
    (h : step H keys a s = some t) : ReferencesDated H t := by
  obtain ⟨hlatest, hmono⟩ := dated_step hs.latest hC h
  -- a true reference stays true, so only the blocks that are new in this step matter
  refine ⟨?_, ?_, hlatest⟩
  · intro k block hb
    apply hmono
    rcases valueStorage_cases h with heq | ⟨x, io, ok, hstore, hx⟩
    · exact hs.stored k block (heq ▸ hb)
    · rcases stored_of_storeBlock hstore hb with ⟨-, rfl, hwritten⟩ | ⟨hb, -⟩
      · rcases hx with ⟨-, hloop⟩ | ⟨rfl, hnet⟩
        · exact hs.pending block hloop
        · exact hC block hnet hwritten
      · exact hs.stored k block hb
  · intro block hb
    apply hmono
    rcases valueLoop_storing h hb with hb |
        ⟨transactions, latestBlock, currentTime, timeBlockHash, rfl, hphase, hhash, hcreate⟩
    · exact hs.pending block hb
    · exact dated_createBlock hs.latest (hC currentTime (by rw [hphase]; rfl)) hhash hcreate

end Step

/-! ## Runs -/

/-- The genesis block of the value chain names that of the time chain. -/
theorem date_of_isValueGenesis {e : Endian} {timeGenesis : TimeBlock} {valueGenesis : ValueBlock}
    (htime : shippedGenesis.IsTimeGenesis e timeGenesis)
    (hvalue : shippedGenesis.IsValueGenesis e valueGenesis) :
    valueGenesis.timeBlockHash = timeGenesis.hash ∧ valueGenesis.time = timeGenesis.time := by
  have hcheck : (TimeBlock.empty.deserialize e timeChainGenesisBlockData).toOption.all (fun r =>
      (ValueBlock.empty.deserialize e valueChainGenesisBlockData).toOption.all (fun r' =>
        decide (r'.1 = true →
          r'.2.timeBlockHash = r.2.hash ∧ r'.2.time = r.2.time))) = true := by
    cases e <;> decide +kernel
  have hreadTime :
      TimeBlock.empty.deserialize e timeChainGenesisBlockData = .ok (true, timeGenesis) := htime
  have hreadValue :
      ValueBlock.empty.deserialize e valueChainGenesisBlockData = .ok (true, valueGenesis) :=
    hvalue
  rw [hreadTime, hreadValue] at hcheck
  exact of_decide_eq_true hcheck rfl

theorem Started.referencesDated {s : State} {timeGenesis : TimeBlock} {valueGenesis : ValueBlock}
    (hs : Started H shippedGenesis s timeGenesis valueGenesis) : ReferencesDated H s := by
  obtain ⟨hname, htime⟩ := date_of_isValueGenesis hs.isTimeGenesis hs.isValueGenesis
  have hgenesis : s.timeStorage.Stored H.endian timeGenesis.hash timeGenesis :=
    (hs.timeStored _ _).mpr ⟨rfl, rfl⟩
  constructor
  · intro k block hb
    obtain ⟨rfl, rfl⟩ := (hs.valueStored k block).mp hb
    exact ⟨timeGenesis, by rw [hname]; exact hgenesis, htime.symm⟩
  · intro block hb
    rw [hs.valueLoop] at hb
    cases hb
  · intro latest hlatest
    obtain rfl := hlatest.unique hs.timeLatest
    exact ⟨_, hgenesis, rfl⟩

/-- **Time references are true where they are checked.**  In every run of checked steps the
time of every stored value block is that of the time block it names. -/
theorem datedValueBlocks_run {as : List Action} {s₀ s : State}
    (hstart : start H shippedGenesis = some s₀) (hrun : run H keys as s₀ = some s)
    (hC : Along H keys (DatesChecked H) as s₀) : DatedValueBlocks H s := by
  obtain ⟨timeGenesis, valueGenesis, hs₀⟩ := started_of_start hstart
  have hinv : ReferencesDated H s := Transition.run_invariant
    (fun s a t hs hC h => referencesDated_step hs hC h) hrun hC hs₀.referencesDated
  exact hinv.stored

/-- A time block is received before the value loop reads the time. -/
theorem datedValueBlocks_run_received :
    ∃ s₀ s, start tagHost shippedGenesis = some s₀ ∧
      run tagHost tagKeys ([.receiveTime (receivedTimeBlock timeChainGenesisHash),
        .storeReceivedTime .ok, .addTransaction (payment paymentSignature)]
        ++ produceValueSteps .ok) s₀ = some s ∧
      DatedValueBlocks tagHost s := by
  have hconforms : Conforms tagHost shippedGenesis tagKeys (DatesChecked tagHost)
      ([.receiveTime (receivedTimeBlock timeChainGenesisHash), .storeReceivedTime .ok,
        .addTransaction (payment paymentSignature)] ++ produceValueSteps .ok)
      (fun _ => true) = true := by decide +kernel
  obtain ⟨s₀, s, hstart, hrun, -, hC⟩ := exists_run_of_conforms hconforms
  exact ⟨s₀, s, hstart, hrun, datedValueBlocks_run hstart hrun hC⟩

/-- The latest value block is stored, and its time is not that of the time block it names. -/
def latestMisdated (H : Host) (s : State) : Bool :=
  decide (∃ b, s.valueStorage.IsLatest H.endian b ∧ s.valueStorage.Stored H.endian b.hash b ∧
    ¬ Dated H.endian s.timeStorage b.timeBlockHash b.time)

theorem not_datedValueBlocks_of_latestMisdated {s : State} (h : latestMisdated H s = true) :
    ¬ DatedValueBlocks H s := by
  obtain ⟨block, -, hstored, hdated⟩ := of_decide_eq_true h
  exact fun hs => hdated (hs block.hash block hstored)

/-- **Two false references**: a received block that names the genesis block, with a time long
before it; and a produced block, when a time block arrives between its two reads. -/
theorem not_datedValueBlocks_run :
    (∃ s₀ s, start tagHost shippedGenesis = some s₀ ∧
      run tagHost tagKeys
        (handleValueSteps (receivedValueBlock valueChainGenesisHash timeChainGenesisHash 1)) s₀
        = some s ∧
      ¬ DatedValueBlocks tagHost s) ∧
    ∃ s₀ s, start tagHost shippedGenesis = some s₀ ∧
      run tagHost tagKeys [.addTransaction (payment paymentSignature), .produceValue 0, .gather,
        .readLatestValue, .readTime, .receiveTime (receivedTimeBlock timeChainGenesisHash),
        .storeReceivedTime .ok, .readTimeHash, .storeProducedValue .ok] s₀ = some s ∧
      ¬ DatedValueBlocks tagHost s := by
  constructor
  · have hreaches : Reaches tagHost shippedGenesis tagKeys
        (handleValueSteps (receivedValueBlock valueChainGenesisHash timeChainGenesisHash 1))
        (latestMisdated tagHost) = true := by decide +kernel
    obtain ⟨s₀, s, hstart, hrun, hp⟩ := exists_run_of_reaches hreaches
    exact ⟨s₀, s, hstart, hrun, not_datedValueBlocks_of_latestMisdated hp⟩
  · have hreaches : Reaches tagHost shippedGenesis tagKeys
        [.addTransaction (payment paymentSignature), .produceValue 0, .gather, .readLatestValue,
          .readTime, .receiveTime (receivedTimeBlock timeChainGenesisHash),
          .storeReceivedTime .ok, .readTimeHash, .storeProducedValue .ok]
        (latestMisdated tagHost) = true := by decide +kernel
    obtain ⟨s₀, s, hstart, hrun, hp⟩ := exists_run_of_reaches hreaches
    exact ⟨s₀, s, hstart, hrun, not_datedValueBlocks_of_latestMisdated hp⟩

end Node

end CoinPlatform
