/-
# References advance

The value loop reads the time of the latest time block first, and its hash in a second step, with
steps of the time loop before, between and after the two.  `Advancing` follows these readings
along the value chain: a block has its time from a time block that is not before the one that
the block before it names, and names a time block that is not before the one it has its time
from.

* `advancing_step`: every step of a node on its own keeps this, for the stored blocks and for
  the one under production.
* `referencesAdvance_run`: so the value chain of such a node follows its time chain in order.
-/
import CoinPlatform.SoloChains

open ByteOrder StdVector GrowingChain Transition

namespace CoinPlatform

namespace Node

open FileStorage

/-! ## Positions -/

/-- The time block at the position has the time. -/
def TimeAt (timeBlocks : List TimeBlock) (n : ℕ) (time : TimePoint) : Prop :=
  ∃ block, timeBlocks[n]? = some block ∧ block.time = time

/-- The time block at the position has the hash. -/
def HashAt (timeBlocks : List TimeBlock) (n : ℕ) (h : Hash) : Prop :=
  ∃ block, timeBlocks[n]? = some block ∧ block.hash = h

/-- The value blocks have their times and hashes from positions that advance along the time
chain; the last position read is `n`. -/
inductive Advancing (timeBlocks : List TimeBlock) : List ValueBlock → ℕ → Prop
  | nil : Advancing timeBlocks [] 0
  | concat {valueBlocks : List ValueBlock} {block : ValueBlock} {n q r : ℕ}
      (h : Advancing timeBlocks valueBlocks n) (hq : n ≤ q) (hr : q ≤ r)
      (htime : TimeAt timeBlocks q block.time) (hhash : HashAt timeBlocks r block.timeBlockHash) :
      Advancing timeBlocks (valueBlocks ++ [block]) r

variable {timeBlocks : List TimeBlock} {valueBlocks : List ValueBlock} {n q : ℕ}
  {time : TimePoint} {k : Hash}

/-- What is at a position stays there when the chain grows. -/
theorem getElem?_concat {block : TimeBlock} (h : timeBlocks[n]? = some block) (b : TimeBlock) :
    (timeBlocks ++ [b])[n]? = some block := by
  obtain ⟨hlt, -⟩ := List.getElem?_eq_some_iff.mp h
  rw [List.getElem?_append_left hlt, h]

theorem TimeAt.concat (h : TimeAt timeBlocks n time) (b : TimeBlock) :
    TimeAt (timeBlocks ++ [b]) n time := by
  obtain ⟨block, hblock, htime⟩ := h
  exact ⟨block, getElem?_concat hblock b, htime⟩

theorem HashAt.concat (h : HashAt timeBlocks n k) (b : TimeBlock) :
    HashAt (timeBlocks ++ [b]) n k := by
  obtain ⟨block, hblock, hhash⟩ := h
  exact ⟨block, getElem?_concat hblock b, hhash⟩

theorem TimeAt.lt_length (h : TimeAt timeBlocks n time) : n < timeBlocks.length := by
  obtain ⟨block, hblock, -⟩ := h
  exact (List.getElem?_eq_some_iff.mp hblock).1

theorem HashAt.lt_length (h : HashAt timeBlocks n k) : n < timeBlocks.length := by
  obtain ⟨block, hblock, -⟩ := h
  exact (List.getElem?_eq_some_iff.mp hblock).1

theorem Advancing.grow (h : Advancing timeBlocks valueBlocks n) (b : TimeBlock) :
    Advancing (timeBlocks ++ [b]) valueBlocks n := by
  induction h with
  | nil => exact .nil
  | concat h hq hr htime hhash ih => exact .concat ih hq hr (htime.concat b) (hhash.concat b)

/-- Nothing was read behind the end of the chain. -/
theorem Advancing.lt_length (h : Advancing timeBlocks valueBlocks n) (hne : timeBlocks ≠ []) :
    n < timeBlocks.length := by
  cases h with
  | nil => exact List.length_pos_of_ne_nil hne
  | concat h hq hr htime hhash => exact hhash.lt_length

/-- The last time block is at the last position. -/
theorem getElem?_of_getLast? {last : TimeBlock} (h : timeBlocks.getLast? = some last) :
    timeBlocks[timeBlocks.length - 1]? = some last := by
  rw [← List.getLast?_eq_getElem?, h]

/-! ## The invariant -/

/-- What the value loop has read for its block, at positions from `n` on. -/
def PendingReading (timeBlocks : List TimeBlock) (n : ℕ) : ValueLoop → Prop
  | .timed _ _ currentTime => ∃ q, n ≤ q ∧ TimeAt timeBlocks q currentTime
  | .storing block => ∃ q r, n ≤ q ∧ q ≤ r ∧ TimeAt timeBlocks q block.time ∧
      HashAt timeBlocks r block.timeBlockHash
  | _ => True

theorem PendingReading.grow {l : ValueLoop} (h : PendingReading timeBlocks n l) (b : TimeBlock) :
    PendingReading (timeBlocks ++ [b]) n l := by
  cases l with
  | timed transactions latestBlock currentTime =>
      obtain ⟨q, hq, htime⟩ := h
      exact ⟨q, hq, htime.concat b⟩
  | storing block =>
      obtain ⟨q, r, hq, hr, htime, hhash⟩ := h
      exact ⟨q, r, hq, hr, htime.concat b, hhash.concat b⟩
  | _ => trivial

/-- The references of the value chain and of the block under production advance along the time
chain. -/
def ReadingsAdvance (s : State) (r : Chains) : Prop :=
  ∃ n, Advancing r.timeBlocks r.valueBlocks.tail n ∧
    PendingReading r.timeBlocks n s.valueLoop

section Step

variable {H : Host} {keys : NodeKeys H} {timeGenesis : TimeBlock} {valueGenesis : ValueBlock}
  {s t : State} {r : Chains} {a : Action} {P : TimeBlock → Prop} {Q : ValueBlock → Prop}

/-- The loop reads the time at the end of the chain. -/
theorem timeAt_getCurrentTime (h : OwnChains H keys P Q timeGenesis valueGenesis s r)
    (hread : ValueChainConsensus.getCurrentTime H s.timeStorage = .ok time) :
    TimeAt r.timeBlocks (r.timeBlocks.length - 1) time := by
  obtain ⟨last, -, hlast⟩ := h.timeChain.exists_getLast
  have hlatest : s.timeStorage.IsLatest H.endian last := by
    have hrep := h.timeStorage.getLatestBlock
    rwa [LatestMap.latest_ofList, hlast] at hrep
  rw [ValueChainConsensus.getCurrentTime_of_isLatest hlatest] at hread
  exact ⟨last, getElem?_of_getLast? hlast, Except.ok.inj hread⟩

/-- And the hash. -/
theorem hashAt_getLatestBlockHash (h : OwnChains H keys P Q timeGenesis valueGenesis s r)
    (hread : TimeChain.getLatestBlockHash H.endian s.timeStorage = .ok k) :
    HashAt r.timeBlocks (r.timeBlocks.length - 1) k := by
  obtain ⟨last, -, hlast⟩ := h.timeChain.exists_getLast
  obtain ⟨latestBlock, hlatest, hhash⟩ := bind_eq_ok.mp hread
  refine ⟨last, getElem?_of_getLast? hlast, ?_⟩
  rw [← Except.ok.inj hhash]
  exact (latestBlockHash_of_represents h.timeStorage hlast hlatest).symm

/-- The value loop goes on, and neither chain grows. -/
theorem pendingReading_step (h : OwnChains H keys P Q timeGenesis valueGenesis s r)
    (hadv : Advancing r.timeBlocks r.valueBlocks.tail n)
    (hpending : PendingReading r.timeBlocks n s.valueLoop) (hstep : step H keys a s = some t) :
    PendingReading r.timeBlocks n t.valueLoop := by
  have hend : n ≤ r.timeBlocks.length - 1 :=
    Nat.le_sub_one_of_lt (hadv.lt_length h.timeChain.ne_nil)
  cases step_cases hstep with
  | readTime hphase htime => exact ⟨_, hend, timeAt_getCurrentTime h htime⟩
  | readTimeHash hphase hhash hcreate =>
      -- the chain may have grown since the time was read
      rw [hphase] at hpending
      obtain ⟨q, hq, htime⟩ := hpending
      obtain ⟨-, hname, hdate, -, -⟩ := ValueChainConsensus.fields_createBlock hcreate
      refine ⟨q, r.timeBlocks.length - 1, hq, Nat.le_sub_one_of_lt htime.lt_length, ?_, ?_⟩
      · rw [hdate]
        exact htime
      · rw [hname]
        exact hashAt_getLatestBlockHash h hhash
  | produceValue hphase => trivial
  | gatherNothing hphase hpool => trivial
  | gather hphase hcoinbase => trivial
  | readLatestValue hphase hlatest => trivial
  | storeProducedValue hphase hstore => trivial
  | _ => exact hpending

/-- **Every step keeps the order of the references.** -/
theorem advancing_step (h : OwnChains H keys P Q timeGenesis valueGenesis s r)
    (hadv : ReadingsAdvance s r) (hsolo : Solo s a) (hstep : step H keys a s = some t) :
    ReadingsAdvance t (r.next a s t) := by
  obtain ⟨n, hadv, hpending⟩ := hadv
  cases step_cases hstep with
  | storeProducedTime hphase hstore =>
      rw [next_storeProducedTime hphase]
      exact ⟨n, hadv.grow _, hpending.grow _⟩
  | storeProducedValue hphase hstore =>
      rw [hphase] at hpending
      obtain ⟨q, p, hq, hp, htime, hhash⟩ := hpending
      rw [next_storeProducedValue hphase]
      refine ⟨p, ?_, trivial⟩
      rw [List.tail_append_of_ne_nil h.valueChain.ne_nil]
      exact hadv.concat hq hp htime hhash
  | _ => exact ⟨n, hadv, pendingReading_step h hadv hpending hstep⟩

end Step

/-! ## Every run -/

/-- Each store is the map of one chain that has grown block by block, and the references of this
value chain advance along this time chain. -/
def ReferencesAdvance (H : Host) (G : GenesisBlocks) (keys : NodeKeys H) (s : State) : Prop :=
  ∃ timeGenesis valueGenesis timeBlocks valueBlocks n,
    G.IsTimeGenesis H.endian timeGenesis ∧ G.IsValueGenesis H.endian valueGenesis ∧
    Grown TimeBlock.hash TimeBlock.previousHash timeGenesis (OwnTimeBlock H keys) timeBlocks ∧
    Grown ValueBlock.hash ValueBlock.previousHash valueGenesis (OwnValueBlock H keys)
      (valueGenesis :: valueBlocks) ∧
    Represents H.endian s.timeStorage (LatestMap.ofList BlockType.getHash timeBlocks) ∧
    Represents H.endian s.valueStorage
      (LatestMap.ofList BlockType.getHash (valueGenesis :: valueBlocks)) ∧
    Advancing timeBlocks valueBlocks n

/-- **References advance**: along the value chain of a node on its own the times, and the time
blocks that are named, never go back in the time chain, whatever the clock says. -/
theorem referencesAdvance_run {H : Host} {G : GenesisBlocks} {keys : NodeKeys H}
    {as : List Action} {s₀ s : State} (hstart : start H G = some s₀)
    (hrun : run H keys as s₀ = some s) (hsolo : Along H keys Solo as s₀) :
    ReferencesAdvance H G keys s := by
  obtain ⟨timeGenesis, valueGenesis, htime, hvalue, hown, -⟩ :=
    ownChains_of_start (fun _ (h : OwnTimeBlock H keys _) => h)
      (fun _ (h : OwnValueBlock H keys _) => h) hstart
  obtain ⟨r, hr, -⟩ := ownChains_run hown hrun hsolo
  have hloop : s₀.valueLoop = .idle := by
    obtain ⟨_, _, hs₀⟩ := started_of_start hstart
    exact hs₀.valueLoop
  have hinv : OwnChains H keys (OwnTimeBlock H keys) (OwnValueBlock H keys) timeGenesis
      valueGenesis s r ∧ ReadingsAdvance s r := by
    refine run_invariant (I := fun x => OwnChains H keys (OwnTimeBlock H keys)
      (OwnValueBlock H keys) timeGenesis valueGenesis x.1 x.2 ∧ ReadingsAdvance x.1 x.2)
      (fun x a y hx hC hy => ?_) hr (hsolo.recording _) ⟨hown, ?_⟩
    · obtain ⟨m, hm, rfl⟩ := Option.map_eq_some_iff.mp hy
      exact ⟨ownChains_step hx.1 hC hm, advancing_step hx.1 hx.2 hC hm⟩
    · refine ⟨0, .nil, ?_⟩
      rw [hloop]
      trivial
  obtain ⟨hown, n, hadv, -⟩ := hinv
  have hchain := hown.valueChain.eq_cons_tail
  refine ⟨timeGenesis, valueGenesis, r.timeBlocks, r.valueBlocks.tail, n, htime, hvalue,
    hown.timeChain, ?_, hown.timeStorage, ?_, hadv⟩
  · rw [← hchain]
    exact hown.valueChain
  · rw [← hchain]
    exact hown.valueStorage

theorem referencesAdvance_run_solo :
    ∃ s₀ s, start tagHost shippedGenesis = some s₀ ∧
      run tagHost tagKeys soloSteps s₀ = some s ∧
      ReferencesAdvance tagHost shippedGenesis tagKeys s := by
  obtain ⟨s₀, s, hstart, hrun, -, hsolo⟩ := exists_run_of_conforms conforms_soloSteps
  exact ⟨s₀, s, hstart, hrun, referencesAdvance_run hstart hrun hsolo⟩

end Node

end CoinPlatform
