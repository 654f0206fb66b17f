/-
# The order of time

The time chain is the clock of the system: a receiver takes a time block only if its time is
greater than that of the latest one.  A producer takes its time from a clock that has
nothing to do with the chain, and does not compare.

* `validateBlock_produceBlock`: a receiver in the same state takes a produced block exactly
  when the clock reading is greater than the time of the latest block.
* `movesForward_run`: in every run in which the stored clock readings lie after the latest
  block, and before the block that the network thread has validated and not yet stored, the
  time of the latest block only increases.
-/
import CoinPlatform.StoredBlocks

open ByteOrder StdVector

namespace CoinPlatform

variable {H : Host} {G : GenesisBlocks} {keys : NodeKeys H}

/-- **Producer and receiver of time blocks** agree exactly on clock readings after the latest
block. -/
theorem TimeChainConsensus.validateBlock_produceBlock (hH : H.secp256k1.Correct)
    {storage storage' : FileStorage TimeBlock} {randomNumber : UInt64} {currentTime : TimePoint}
    {io : WriteOutcome} {block : TimeBlock}
    (h : produceBlock H keys storage randomNumber currentTime io = .ok (some block, storage')) :
    validateBlock H storage block = .ok true ↔
      ∀ latest, storage.IsLatest H.endian latest → latest.time < currentTime := by
  obtain ⟨-, -, latestBlock, hlatest, hcreate, -⟩ := produceBlock_eq_some h
  have htime : block.time = currentTime := by
    obtain ⟨signature, -, rfl⟩ := createBlock_eq_ok hcreate
    rfl
  rw [validateBlock_eq_true, htime]
  constructor
  · rintro ⟨⟨latest, hread, hlt⟩, -⟩ b hb
    rw [FileStorage.IsLatest, hread] at hb
    exact hlt b (Except.ok.inj hb)
  · intro hlt
    refine ⟨⟨latestBlock, hlatest, ?_⟩, verifySignature_createBlock hH hcreate⟩
    rintro b rfl
    exact hlt b hlatest

namespace Node

/-- The time of the latest block does not go back in the step. -/
def MovesForward (H : Host) (keys : NodeKeys H) (s : State) (a : Action) : Prop :=
  ∀ t, step H keys a s = some t → ∀ old new, s.timeStorage.IsLatest H.endian old →
    t.timeStorage.IsLatest H.endian new → new ≠ old → old.time < new.time

/-- A produced block lies after the latest one, and before a block that the network thread
has validated and is still to store. -/
structure InOrder (H : Host) (s : State) (block : TimeBlock) : Prop where
  latest : ∀ latest, s.timeStorage.IsLatest H.endian latest → latest.time < block.time
  pending : ∀ pending, s.network = .storingTime pending → block.time < pending.time

instance (s : State) (block : TimeBlock) : Decidable (InOrder H s block) :=
  decidable_of_iff ((∀ latest, s.timeStorage.IsLatest H.endian latest →
      latest.time < block.time) ∧
      ∀ pending, s.network = .storingTime pending → block.time < pending.time)
    ⟨fun ⟨hlatest, hpending⟩ => ⟨hlatest, hpending⟩, fun h => ⟨h.latest, h.pending⟩⟩

/-- What the time loop does not check: the clock reading it stores is in order. -/
def ClockInOrder (H : Host) (s : State) (a : Action) : Prop :=
  match a with
  | .storeProducedTime _ => ∀ block, s.timeLoop = .storing block → InOrder H s block
  | _ => True

instance (s : State) (a : Action) : Decidable (ClockInOrder H s a) := by
  apply Action.casesOn (motive := fun a => Decidable (ClockInOrder H s a)) a <;> intros <;>
    dsimp only [ClockInOrder] <;> infer_instance

/-- The invariant: a validated time block that is still to be stored lies after the latest
block. -/
def PendingAhead (H : Host) (s : State) : Prop :=
  ∀ pending latest, s.network = .storingTime pending →
    s.timeStorage.IsLatest H.endian latest → latest.time < pending.time

/-- Under the invariant a block that is stored lies after the latest one. -/
theorem movesForward_of_pendingAhead {s : State} {a : Action} (hs : PendingAhead H s)
    (hclock : ClockInOrder H s a) : MovesForward H keys s a := by
  intro t h old new hold hnew hne
  rcases timeStorage_cases h with heq | ⟨x, io, ok, hstore, hx⟩
  · rw [heq] at hnew
    exact absurd (hnew.unique hold) hne
  · rcases FileStorage.isLatest_of_storeBlock hstore hnew with ⟨rfl, -⟩ | hnew
    · rcases hx with ⟨rfl, hloop⟩ | ⟨rfl, hnet⟩
      · exact (hclock _ hloop).latest old hold
      · exact hs _ _ hnet hold
    · exact absurd (hnew.unique hold) hne

theorem pendingAhead_step {s t : State} {a : Action} (hs : PendingAhead H s)
    (hclock : ClockInOrder H s a) (h : step H keys a s = some t) : PendingAhead H t := by
  intro pending latest hnet hlatest
  rcases network_storingTime h hnet with hnet' | ⟨rfl, -, hvalid⟩
  · rcases timeStorage_cases h with heq | ⟨x, io, ok, hstore, hx⟩
    · exact hs pending latest hnet' (heq ▸ hlatest)
    · rcases hx with ⟨rfl, hloop⟩ | ⟨rfl, -⟩
      · rcases FileStorage.isLatest_of_storeBlock hstore hlatest with ⟨rfl, -⟩ | hold
        · exact (hclock _ hloop).pending pending hnet'
        · exact hs pending latest hnet' hold
      · -- the network thread has just stored its block, so it has none pending
        cases step_cases h with
        | storeReceivedTime hphase hstore' => cases hnet
  · have hsame : t.timeStorage = s.timeStorage := by
      rcases timeStorage_cases h with heq | ⟨_, _, _, -, ⟨ha, -⟩ | ⟨ha, -⟩⟩
      · exact heq
      · cases ha
      · cases ha
    -- the block has been validated in this step, against the latest block of this state
    obtain ⟨⟨read, hread, hlt⟩, -⟩ := TimeChainConsensus.validateBlock_eq_true.mp hvalid
    rw [hsame, FileStorage.IsLatest, hread] at hlatest
    exact hlt latest (Except.ok.inj hlatest)

/-- **Time moves forward, where the clock does.**  In every run whose stored clock readings
are in order, the time of the latest block only increases. -/
theorem movesForward_run {as : List Action} {s₀ : State} (hstart : start H G = some s₀)
    (hclock : Along H keys (ClockInOrder H) as s₀) :
    Along H keys (MovesForward H keys) as s₀ := by
  obtain ⟨timeGenesis, valueGenesis, hs₀⟩ := started_of_start hstart
  refine Transition.Along.of_invariant (I := PendingAhead H)
    (fun s a hs hC => movesForward_of_pendingAhead hs hC)
    (fun s a t hs hC h => pendingAhead_step hs hC h) hclock ?_
  intro pending latest hnet
  rw [hs₀.network] at hnet
  cases hnet

/-- One block produced when the clock shows a later date than genesis. -/
theorem movesForward_run_later :
    ∃ s₀, start tagHost shippedGenesis = some s₀ ∧
      Along tagHost tagKeys (MovesForward tagHost tagKeys)
        [.produceTime 0 1800000000000000000, .storeProducedTime .ok] s₀ := by
  have hconforms : Conforms tagHost shippedGenesis tagKeys (ClockInOrder tagHost)
      [.produceTime 0 1800000000000000000, .storeProducedTime .ok]
      (fun _ => true) = true := by decide +kernel
  obtain ⟨s₀, s, hstart, -, -, hclock⟩ := exists_run_of_conforms hconforms
  exact ⟨s₀, hstart, movesForward_run hstart hclock⟩

/-- The time of the latest block, if one can be read. -/
def latestTime (H : Host) (s : State) : Option TimePoint :=
  match s.timeStorage.getLatestBlock H.endian with
  | .ok (some latest) => some latest.time
  | _ => none

theorem exists_isLatest_of_latestTime {s : State} {time : TimePoint}
    (h : latestTime H s = some time) :
    ∃ latest, s.timeStorage.IsLatest H.endian latest ∧ latest.time = time := by
  unfold latestTime at h
  split at h
  · rename_i latest hread
    exact ⟨latest, hread, Option.some.inj h⟩
  · cases h

/-- **A steady clock counts from the boot of the machine**: an hour after it, the produced
block takes the chain back by decades. -/
theorem not_movesForward_run :
    ∃ s₀, start tagHost shippedGenesis = some s₀ ∧
      ¬ Along tagHost tagKeys (MovesForward tagHost tagKeys)
        [.produceTime 0 3600000000000, .storeProducedTime .ok] s₀ := by
  have hbefore : Reaches tagHost shippedGenesis tagKeys
      [.produceTime 0 3600000000000]
      (fun s => decide (latestTime tagHost s = some 1730467980000000000)) = true := by
    decide +kernel
  obtain ⟨s₀, s, hstart, hs, hold⟩ := exists_run_of_reaches hbefore
  have hafter : Reaches tagHost shippedGenesis tagKeys
      [.produceTime 0 3600000000000, .storeProducedTime .ok]
      (fun s => decide (latestTime tagHost s = some 3600000000000)) = true := by decide +kernel
  obtain ⟨s₀', t, hstart', ht, hnew⟩ := exists_run_of_reaches hafter
  obtain rfl : s₀ = s₀' := Option.some.inj (hstart.symm.trans hstart')
  obtain ⟨old, hold, holdTime⟩ := exists_isLatest_of_latestTime (of_decide_eq_true hold)
  obtain ⟨new, hnew, hnewTime⟩ := exists_isLatest_of_latestTime (of_decide_eq_true hnew)
  refine ⟨s₀, hstart, fun halong => ?_⟩
  have hparts : Along tagHost tagKeys (MovesForward tagHost tagKeys)
      ([.produceTime 0 3600000000000] ++ [.storeProducedTime .ok]) s₀ := halong
  have hstep : step tagHost tagKeys (.storeProducedTime .ok) s = some t :=
    Transition.step_of_run_append hs ht
  have hlt : old.time < new.time := by
    refine (hparts.of_append hs).1 t hstep old new hold hnew ?_
    rintro rfl
    rw [holdTime] at hnewTime
    exact absurd hnewTime (by decide)
  rw [holdTime, hnewTime] at hlt
  exact absurd hlt (by decide)

end Node

namespace TimeChainConsensus

/-- A receiver in the same state takes the first block of a clock that shows the date. -/
theorem validateBlock_produceBlock_later :
    ∃ s₀ storage block, Node.start tagHost shippedGenesis = some s₀ ∧
      produceBlock tagHost tagKeys s₀.timeStorage 0 1800000000000000000 .ok
        = .ok (some block, storage) ∧
      (validateBlock tagHost s₀.timeStorage block = .ok true ↔
        ∀ latest, s₀.timeStorage.IsLatest .little latest →
          latest.time < 1800000000000000000) := by
  have h : (Node.start tagHost shippedGenesis).any (fun s₀ =>
      (produceBlock tagHost tagKeys s₀.timeStorage 0 1800000000000000000 .ok).toOption.any
        (fun r => r.1.isSome)) = true := by decide +kernel
  obtain ⟨s₀, hstart, h⟩ := (Option.any_eq_true _ _).mp h
  obtain ⟨⟨o, storage⟩, hproduce, h⟩ := (Option.any_eq_true _ _).mp h
  obtain ⟨block, rfl⟩ := Option.isSome_iff_exists.mp h
  have hproduced := toOption_eq_some hproduce
  exact ⟨s₀, storage, block, hstart, hproduced,
    validateBlock_produceBlock tagSecp256k1_correct hproduced⟩

/-- **The first block an hour after the boot of the machine** is refused by a receiver in the
same state. -/
theorem not_validateBlock_produceBlock :
    ∃ s₀ storage block, Node.start tagHost shippedGenesis = some s₀ ∧
      produceBlock tagHost tagKeys s₀.timeStorage 0 3600000000000 .ok
        = .ok (some block, storage) ∧
      validateBlock tagHost s₀.timeStorage block = .ok false := by
  have h : (Node.start tagHost shippedGenesis).any (fun s₀ =>
      (produceBlock tagHost tagKeys s₀.timeStorage 0 3600000000000 .ok).toOption.any (fun r =>
        r.1.any (fun block =>
          decide (validateBlock tagHost s₀.timeStorage block = .ok false)))) = true := by
    decide +kernel
  obtain ⟨s₀, hstart, h⟩ := (Option.any_eq_true _ _).mp h
  obtain ⟨⟨o, storage⟩, hproduce, h⟩ := (Option.any_eq_true _ _).mp h
  obtain ⟨block, rfl, hrefused⟩ := (Option.any_eq_true _ _).mp h
  exact ⟨s₀, storage, block, hstart, toOption_eq_some hproduce, of_decide_eq_true hrefused⟩

end TimeChainConsensus

end CoinPlatform
