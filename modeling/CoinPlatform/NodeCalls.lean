/-
# Whole calls

The machine takes the calls of the three threads apart into their atomic steps.  Here they
are put together again: `call` runs one call of the source from its beginning to its end,
with nothing in between, and `exists_run_of_calls` says that every sequence of calls, one
after the other, is a run of the machine.  What holds in every run therefore holds when the
calls do not overlap.
-/
import CoinPlatform.NodeStep

open StdVector

namespace CoinPlatform

namespace Node

/-! ## Calls -/

/-- One call to the node's consensus objects. -/
inductive Call where
  | addTransaction (transaction : Transaction)
  | produceTimeBlock (randomNumber : UInt64) (currentTime : TimePoint) (io : WriteOutcome)
  | handleTimeBlock (block : TimeBlock) (io : WriteOutcome)
  | produceValueBlock (randomNumber : UInt64) (io : WriteOutcome)
  | handleValueBlock (block : ValueBlock) (io : WriteOutcome)

variable (H : Host) (keys : NodeKeys H)

/-- The state after a call; `none` when an exception leaves it. -/
def call (c : Call) (s : State) : Option State :=
  match c with
  | .addTransaction transaction =>
    some { s with
      transactionPool := ValueChainConsensus.addTransaction s.transactionPool transaction }
  | .produceTimeBlock randomNumber currentTime io => do
    let (_, storage) ← (TimeChainConsensus.produceBlock H keys s.timeStorage randomNumber
      currentTime io).toOption
    return { s with timeStorage := storage }
  | .handleTimeBlock block io => do
    let storage ← (TimeChainConsensus.handleBlock H s.timeStorage block io).toOption
    return { s with timeStorage := storage }
  | .produceValueBlock randomNumber io => do
    let (_, storage, pool) ← (ValueChainConsensus.produceBlock H keys s.timeStorage
      s.valueStorage s.transactionPool randomNumber io).toOption
    return { s with valueStorage := storage, transactionPool := pool }
  | .handleValueBlock block io => do
    let (storage, pool) ← (ValueChainConsensus.handleBlock H s.timeStorage s.valueStorage
      s.transactionPool block io).toOption
    return { s with valueStorage := storage, transactionPool := pool }

/-- No call is running. -/
structure State.Idle (s : State) : Prop where
  timeLoop : s.timeLoop = .idle
  valueLoop : s.valueLoop = .idle
  network : s.network = .idle

variable {H keys}

/-- A call leaves no thread inside another one. -/
theorem State.Idle.call {c : Call} {s t : State} (hidle : s.Idle)
    (h : call H keys c s = some t) : t.Idle := by
  obtain ⟨htime, hvalue, hnetwork⟩ := hidle
  cases c with
  | addTransaction transaction =>
      cases h
      exact ⟨htime, hvalue, hnetwork⟩
  | _ =>
      obtain ⟨r, -, h⟩ := Option.bind_eq_some_iff.mp h
      cases h
      exact ⟨htime, hvalue, hnetwork⟩

/-! ## Each call as a run -/

section Calls

variable {s : State}

theorem exists_run_produceTimeBlock (hidle : s.Idle) {randomNumber : UInt64}
    {currentTime : TimePoint} {io : WriteOutcome} {o : Option TimeBlock}
    {storage : FileStorage TimeBlock}
    (h : TimeChainConsensus.produceBlock H keys s.timeStorage randomNumber currentTime io
      = .ok (o, storage)) :
    ∃ as, run H keys as s = some { s with timeStorage := storage } := by
  obtain ⟨htime, -, -⟩ := hidle
  unfold TimeChainConsensus.produceBlock at h
  cases hel : TimeChainConsensus.isEligibleToProduceBlock randomNumber with
  | false =>
      rw [hel] at h
      cases h
      exact ⟨[], rfl⟩
  | true =>
      rw [hel] at h
      obtain ⟨latestBlock, hlatest, h⟩ := bind_eq_ok.mp h
      obtain ⟨block, hcreate, h⟩ := bind_eq_ok.mp h
      obtain ⟨⟨ok, storage'⟩, hstore, h⟩ := bind_eq_ok.mp h
      cases h
      -- the loop reads the latest block and builds the new one in its first step
      have hproduce : step H keys (.produceTime randomNumber currentTime) s
          = some { s with timeLoop := .storing block } := by
        simp [step, htime, hel, hlatest, hcreate, Except.toOption]
      refine ⟨[.produceTime randomNumber currentTime, .storeProducedTime io], ?_⟩
      rw [run, Transition.run_cons, hproduce, Option.bind_some, Transition.run_cons]
      simp [step, hstore, Except.toOption, htime]

theorem exists_run_handleTimeBlock (hidle : s.Idle) {block : TimeBlock} {io : WriteOutcome}
    {storage : FileStorage TimeBlock}
    (h : TimeChainConsensus.handleBlock H s.timeStorage block io = .ok storage) :
    ∃ as, run H keys as s = some { s with timeStorage := storage } := by
  obtain ⟨-, -, hnetwork⟩ := hidle
  obtain ⟨valid, hvalid, h⟩ := bind_eq_ok.mp h
  cases valid with
  | false =>
      cases h
      exact ⟨[], rfl⟩
  | true =>
      obtain ⟨⟨ok, storage'⟩, hstore, h⟩ := bind_eq_ok.mp h
      cases h
      have hreceive : step H keys (.receiveTime block) s
          = some { s with network := .storingTime block } := by
        simp [step, hnetwork, hvalid, Except.toOption]
      refine ⟨[.receiveTime block, .storeReceivedTime io], ?_⟩
      rw [run, Transition.run_cons, hreceive, Option.bind_some, Transition.run_cons]
      simp [step, hstore, Except.toOption, hnetwork]

theorem exists_run_produceValueBlock (hidle : s.Idle) {randomNumber : UInt64}
    {io : WriteOutcome} {o : Option ValueBlock} {storage : FileStorage ValueBlock}
    {pool : List Transaction}
    (h : ValueChainConsensus.produceBlock H keys s.timeStorage s.valueStorage
      s.transactionPool randomNumber io = .ok (o, storage, pool)) :
    ∃ as, run H keys as s
      = some { s with valueStorage := storage, transactionPool := pool } := by
  obtain ⟨-, hvalue, -⟩ := hidle
  obtain ⟨now, hnow, h⟩ := bind_eq_ok.mp h
  cases hel : ValueChainConsensus.isEligibleToProduceBlock now randomNumber with
  | false =>
      rw [hel] at h
      cases h
      exact ⟨[], rfl⟩
  | true =>
      rw [hel] at h
      obtain ⟨⟨transactions, pool'⟩, hgather, h⟩ := bind_eq_ok.mp h
      dsimp only at h
      have hproduce : step H keys (.produceValue randomNumber) s
          = some { s with valueLoop := .eligible } := by
        simp [step, hvalue, hnow, hel, Except.toOption]
      cases transactions with
      | nil =>
          cases h
          refine ⟨[.produceValue randomNumber, .gather], ?_⟩
          rw [run, Transition.run_cons, hproduce, Option.bind_some, Transition.run_cons]
          simp [step, hgather, Except.toOption, hvalue]
      | cons tx txs =>
          obtain ⟨latestBlock, hlatest, h⟩ := bind_eq_ok.mp h
          obtain ⟨currentTime, htime, h⟩ := bind_eq_ok.mp h
          obtain ⟨timeBlockHash, hhash, h⟩ := bind_eq_ok.mp h
          obtain ⟨block, hcreate, h⟩ := bind_eq_ok.mp h
          obtain ⟨⟨ok, storage'⟩, hstore, h⟩ := bind_eq_ok.mp h
          cases h
          refine ⟨[.produceValue randomNumber, .gather, .readLatestValue, .readTime,
            .readTimeHash, .storeProducedValue io], ?_⟩
          rw [run, Transition.run_cons, hproduce, Option.bind_some]
          simp [Transition.run_cons, step, hgather, hlatest, htime, hhash, hcreate,
            hstore, Except.toOption, hvalue]

theorem exists_run_handleValueBlock (hidle : s.Idle) {block : ValueBlock} {io : WriteOutcome}
    {storage : FileStorage ValueBlock} {pool : List Transaction}
    (h : ValueChainConsensus.handleBlock H s.timeStorage s.valueStorage s.transactionPool block
      io = .ok (storage, pool)) :
    ∃ as, run H keys as s
      = some { s with valueStorage := storage, transactionPool := pool } := by
  obtain ⟨-, -, hnetwork⟩ := hidle
  obtain ⟨valid, hvalid, h⟩ := bind_eq_ok.mp h
  cases valid with
  | false =>
      cases h
      exact ⟨[], rfl⟩
  | true =>
      obtain ⟨⟨hexists, now, hnow, hpast⟩, htxs, hsig⟩ :=
        ValueChainConsensus.validateBlock_eq_true.mp hvalid
      have hverify : ValueChainConsensus.verifyTransactions H block = true :=
        List.all_eq_true.mpr htxs
      obtain ⟨⟨ok, storage'⟩, hstore, h⟩ := bind_eq_ok.mp h
      have hreceive : step H keys (.receiveValue block) s
          = some { s with network := .referenced block } := by
        simp [step, hnetwork, TimeChain.blockExists, hexists]
      -- the two steps of the validation read the same time store here
      have hcheck : step H keys .checkValue { s with network := .referenced block }
          = some { s with network := .storingValue block } := by
        simp [step, hnow, UInt64.not_lt.mpr hpast, hverify, hsig, Except.toOption]
      cases ok with
      | false =>
          cases h
          refine ⟨[.receiveValue block, .checkValue, .storeReceivedValue io], ?_⟩
          rw [run, Transition.run_cons, hreceive, Option.bind_some, Transition.run_cons, hcheck]
          simp [Transition.run_cons, step, hstore, Except.toOption, hnetwork]
      | true =>
          cases h
          refine ⟨[.receiveValue block, .checkValue, .storeReceivedValue io, .purge], ?_⟩
          rw [run, Transition.run_cons, hreceive, Option.bind_some, Transition.run_cons, hcheck]
          simp [Transition.run_cons, step, hstore, Except.toOption, hnetwork]

/-- **A call is a run of its steps.** -/
theorem exists_run_of_call (hidle : s.Idle) {c : Call} {t : State}
    (h : call H keys c s = some t) : ∃ as, run H keys as s = some t := by
  cases c with
  | addTransaction transaction => exact ⟨[.addTransaction transaction], by cases h; rfl⟩
  | produceTimeBlock randomNumber currentTime io =>
      obtain ⟨⟨o, storage⟩, hcall, h⟩ := Option.bind_eq_some_iff.mp h
      cases h
      exact exists_run_produceTimeBlock hidle (toOption_eq_some hcall)
  | handleTimeBlock block io =>
      obtain ⟨storage, hcall, h⟩ := Option.bind_eq_some_iff.mp h
      cases h
      exact exists_run_handleTimeBlock hidle (toOption_eq_some hcall)
  | produceValueBlock randomNumber io =>
      obtain ⟨⟨o, storage, pool⟩, hcall, h⟩ := Option.bind_eq_some_iff.mp h
      cases h
      exact exists_run_produceValueBlock hidle (toOption_eq_some hcall)
  | handleValueBlock block io =>
      obtain ⟨⟨storage, pool⟩, hcall, h⟩ := Option.bind_eq_some_iff.mp h
      cases h
      exact exists_run_handleValueBlock hidle (toOption_eq_some hcall)

/-- **Calls that do not overlap**, one after the other, are a run of the machine. -/
theorem exists_run_of_calls {cs : List Call} {t : State} (hidle : s.Idle)
    (h : Transition.run (call H keys) cs s = some t) :
    t.Idle ∧ ∃ as, run H keys as s = some t := by
  induction cs generalizing s with
  | nil =>
      cases h
      exact ⟨hidle, [], rfl⟩
  | cons c cs ih =>
      obtain ⟨m, hm, h⟩ := Option.bind_eq_some_iff.mp h
      obtain ⟨as, hfirst⟩ := exists_run_of_call hidle hm
      obtain ⟨hlast, bs, hrest⟩ := ih (hidle.call hm) h
      refine ⟨hlast, as ++ bs, ?_⟩
      rw [run, Transition.run_append, ← run, hfirst]
      exact hrest

end Calls

end Node

end CoinPlatform
