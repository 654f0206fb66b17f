/-
# The write queue of a session

`PeerSession::do_write` puts a message into `write_queue`, and starts an `async_write` of the
front if the queue was empty before.  When a write has completed, its handler takes the front off
and starts the next one, if there is one.  Calls and handlers come in any order.

`deliversInOrder_run`: at most one write is under way, that of the front, and exactly while there
is something to be written; what has been written and what is in the queue are together the
messages in the order of the calls.
-/
import CoinPlatform.Cryptography
import CoinPlatform.Transition

open Transition

namespace CoinPlatform

namespace Sending

/-! ## The queue -/

/-- `write_queue`, and the messages of the `async_write`s that are under way. -/
structure WriteQueue where
  queue : List Bytes
  outstanding : List Bytes

namespace WriteQueue

/-- `write`: an `async_write` of the front is started.  It is called on a queue with a front. -/
def write (w : WriteQueue) : WriteQueue :=
  { w with outstanding := w.outstanding ++ w.queue.take 1 }

/-- `do_write`. -/
def doWrite (data : Bytes) (w : WriteQueue) : WriteQueue :=
  let writeInProgress := !w.queue.isEmpty
  let w := { w with queue := w.queue ++ [data] }
  if writeInProgress then w else w.write

/-- The handler of a write that has completed without an error, the `i`th of those under way;
`none` where `pop_front` finds the queue empty. -/
def handleWritten (i : ℕ) (w : WriteQueue) : Option WriteQueue :=
  let w := { w with outstanding := w.outstanding.eraseIdx i }
  match w.queue with
  | [] => none
  | _ :: rest =>
    let w := { w with queue := rest }
    some (if rest.isEmpty then w else w.write)

end WriteQueue

/-! ## Calls and completions -/

/-- A session, and the messages that have been written, in the order of their completion. -/
structure Writing where
  writes : WriteQueue
  completed : List Bytes

/-- A call of `do_write`, or the completion of one of the writes under way. -/
inductive Action where
  | doWrite (data : Bytes)
  | complete (i : ℕ)

/-- The message that is passed to `do_write`. -/
def Action.message : Action → Option Bytes
  | .doWrite data => some data
  | .complete _ => none

/-- A session that has been created. -/
def initial : Writing := ⟨⟨[], []⟩, []⟩

/-- `none` when there is no such write, or where the handler is undefined. -/
def step (a : Action) (s : Writing) : Option Writing :=
  match a with
  | .doWrite data => some { s with writes := s.writes.doWrite data }
  | .complete i =>
    match s.writes.outstanding[i]? with
    | none => none
    | some message => (s.writes.handleWritten i).map fun writes =>
        { writes := writes, completed := s.completed ++ [message] }

/-- What the session guarantees after some actions: one write at a time, that of the front of
the queue, and one whenever there is a front; the handlers are defined; and every message is
written once, in the order of the calls. -/
structure DeliversInOrder (past : List Action) (s : Writing) : Prop where
  atMostOne : s.writes.outstanding.length ≤ 1
  front : ∀ message ∈ s.writes.outstanding, s.writes.queue.head? = some message
  busy : s.writes.outstanding ≠ [] ↔ s.writes.queue ≠ []
  defined : ∀ i < s.writes.outstanding.length, (step (.complete i) s).isSome
  inOrder : s.completed ++ s.writes.queue = past.filterMap Action.message

/-! ## The invariant -/

variable {s t : Writing} {w : WriteQueue} {past : List Action}

/-- **The invariant**: what is under way is the front of the queue. -/
def WritesFront (past : List Action) (s : Writing) : Prop :=
  s.writes.outstanding = s.writes.queue.take 1 ∧
    s.completed ++ s.writes.queue = past.filterMap Action.message

theorem outstanding_doWrite {data : Bytes} (h : w.outstanding = w.queue.take 1) :
    (w.doWrite data).outstanding = (w.doWrite data).queue.take 1 := by
  cases hqueue : w.queue with
  | nil =>
      -- nothing is under way, so the message is written at once
      rw [hqueue] at h
      simp [WriteQueue.doWrite, WriteQueue.write, hqueue, h]
  | cons front rest =>
      rw [hqueue] at h
      simpa [WriteQueue.doWrite, hqueue] using h

@[simp] theorem queue_doWrite (data : Bytes) :
    (w.doWrite data).queue = w.queue ++ [data] := by
  unfold WriteQueue.doWrite
  simp only
  split <;> rfl

/-- The handler of the only write takes the front off and starts the next write. -/
theorem handleWritten_of_front {front : Bytes} {rest : List Bytes}
    (hqueue : w.queue = front :: rest) (h : w.outstanding = w.queue.take 1) :
    w.handleWritten 0 = some ⟨rest, rest.take 1⟩ := by
  rw [hqueue, List.take_one] at h
  unfold WriteQueue.handleWritten
  simp only [hqueue, h, Option.some.injEq]
  cases rest with
  | nil => rfl
  | cons next rest => rfl

/-- A completion is one of the first write. -/
theorem step_complete {i : ℕ} (hinv : WritesFront past s) (h : step (.complete i) s = some t) :
    ∃ front rest, s.writes.queue = front :: rest ∧
      t = ⟨⟨rest, rest.take 1⟩, s.completed ++ [front]⟩ := by
  obtain ⟨hfront, -⟩ := hinv
  simp only [step] at h
  split at h
  · cases h
  · rename_i message hmessage
    cases hqueue : s.writes.queue with
    | nil =>
        rw [hfront, hqueue, List.take_nil, List.getElem?_nil] at hmessage
        cases hmessage
    | cons front rest =>
        have hlist : s.writes.outstanding = [front] := by rw [hfront, hqueue]; rfl
        rw [hlist] at hmessage
        obtain ⟨rfl, rfl⟩ : i = 0 ∧ front = message := by
          obtain ⟨hlt, hget⟩ := List.getElem?_eq_some_iff.mp hmessage
          obtain rfl : i = 0 := Nat.lt_one_iff.mp hlt
          exact ⟨rfl, hget⟩
        rw [handleWritten_of_front hqueue hfront] at h
        exact ⟨front, rest, rfl, (Option.some.inj h).symm⟩

theorem writesFront_step {a : Action} (hinv : WritesFront past s) (h : step a s = some t) :
    WritesFront (past ++ [a]) t := by
  cases a with
  | doWrite data =>
      obtain rfl := Option.some.inj h
      refine ⟨outstanding_doWrite hinv.1, ?_⟩
      rw [List.filterMap_append, ← hinv.2]
      simp [Action.message]
  | complete i =>
      obtain ⟨front, rest, hqueue, rfl⟩ := step_complete hinv h
      refine ⟨rfl, ?_⟩
      rw [List.filterMap_append, ← hinv.2, hqueue]
      simp [Action.message]

theorem writesFront_run {actions : List Action} (h : run step actions initial = some s) :
    WritesFront actions s :=
  run_history (C := fun _ _ => True) (I := WritesFront) []
    (fun _ _ _ _ hinv _ hstep => writesFront_step hinv hstep) h
    (along_of_forall (fun _ _ => trivial) actions initial) ⟨rfl, rfl⟩

/-- **Each message is written once and in order**, whatever the order of calls and
completions. -/
theorem deliversInOrder_run {actions : List Action} (h : run step actions initial = some s) :
    DeliversInOrder actions s := by
  obtain ⟨hfront, horder⟩ := writesFront_run h
  refine ⟨?_, ?_, ?_, ?_, horder⟩
  · rw [hfront, List.length_take]
    exact Nat.min_le_left 1 _
  · intro message hmem
    rw [hfront] at hmem
    cases hqueue : s.writes.queue with
    | nil =>
        rw [hqueue] at hmem
        cases hmem
    | cons front rest =>
        rw [hqueue] at hmem
        rw [List.mem_singleton.mp hmem]
        rfl
  · rw [hfront]
    cases s.writes.queue with
    | nil => exact iff_of_false (fun hne => hne rfl) (fun hne => hne rfl)
    | cons front rest => exact iff_of_true (List.cons_ne_nil _ _) (List.cons_ne_nil _ _)
  · intro i hi
    cases hqueue : s.writes.queue with
    | nil =>
        rw [hfront, hqueue] at hi
        cases hi
    | cons front rest =>
        have hlist : s.writes.outstanding = [front] := by rw [hfront, hqueue]; rfl
        rw [hlist] at hi
        obtain rfl : i = 0 := Nat.lt_one_iff.mp hi
        simp only [step, hlist, List.getElem?_cons_zero, handleWritten_of_front hqueue hfront,
          Option.map_some, Option.isSome_some]

/-- Two messages, the second one while the first one is written; then the first completion. -/
theorem deliversInOrder_run_two :
    run step [.doWrite [1], .doWrite [2], .complete 0] initial = some ⟨⟨[[2]], [[2]]⟩, [[1]]⟩ ∧
      DeliversInOrder [.doWrite [1], .doWrite [2], .complete 0] ⟨⟨[[2]], [[2]]⟩, [[1]]⟩ := by
  have hrun : run step [.doWrite [1], .doWrite [2], .complete 0] initial
      = some ⟨⟨[[2]], [[2]]⟩, [[1]]⟩ := by rfl
  exact ⟨hrun, deliversInOrder_run hrun⟩

end Sending

end CoinPlatform
