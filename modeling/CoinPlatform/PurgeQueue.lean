/-
# A queue with purge

Values wait in a queue until all that wait are taken as a batch, or until those with some
property are dropped for a reason.  The ledger of such a queue keeps every value that was ever
added, in the order of addition, with its fate.  Since an entry has one fate, and a fate other
than waiting is final, every value is accounted for once.

* `values_add`, `values_take`, `values_drop`: the values are those that were added, in order.
* `waiting_add`, `waiting_take`, `waiting_drop`: the queue is what waits.
* `batch_take`: a new batch is what has been waiting, in order; the other rules say that old
  batches stay as they are.
* `fate_of_drop`: what is dropped has the property it is dropped for.
-/
import Mathlib.Data.List.Basic

namespace PurgeQueue

variable {α β : Type*}

/-- What has become of a value: it waits, it went into a batch, or it was dropped. -/
inductive Fate (β : Type*) where
  | waiting
  | taken (batch : ℕ)
  | dropped (reason : β)

namespace Fate

def isWaiting : Fate β → Bool
  | waiting => true
  | taken _ => false
  | dropped _ => false

def isTaken (n : ℕ) : Fate β → Bool
  | waiting => false
  | taken m => m = n
  | dropped _ => false

end Fate

structure Entry (α β : Type*) where
  value : α
  fate : Fate β

/-- Every value that was added, in order, and the number of batches; a batch that a value went
into has been counted. -/
structure Ledger (α β : Type*) where
  entries : List (Entry α β)
  batches : ℕ
  numbered : ∀ entry ∈ entries, ∀ n, entry.fate = .taken n → n < batches

namespace Ledger

/-- Nothing was added yet. -/
def empty : Ledger α β := ⟨[], 0, fun _ h => by cases h⟩

/-- The values that were added. -/
def values (l : Ledger α β) : List α := l.entries.map Entry.value

/-- The values that wait: the queue. -/
def waiting (l : Ledger α β) : List α :=
  (l.entries.filter fun entry => entry.fate.isWaiting).map Entry.value

/-- The values of a batch. -/
def batch (n : ℕ) (l : Ledger α β) : List α :=
  (l.entries.filter fun entry => entry.fate.isTaken n).map Entry.value

/-! ## Operations -/

def add (a : α) (l : Ledger α β) : Ledger α β where
  entries := l.entries ++ [⟨a, .waiting⟩]
  batches := l.batches
  numbered := by
    intro entry hentry n hfate
    rcases List.mem_append.mp hentry with hentry | hentry
    · exact l.numbered entry hentry n hfate
    · rw [List.mem_singleton.mp hentry] at hfate
      cases hfate

/-- A waiting value with the property gets its fate. -/
def settle (p : α → Bool) (fate : Fate β) (entry : Entry α β) : Entry α β :=
  if entry.fate.isWaiting && p entry.value then { entry with fate := fate } else entry

theorem value_settle (p : α → Bool) (fate : Fate β) (entry : Entry α β) :
    (settle p fate entry).value = entry.value := by
  unfold settle
  split <;> rfl

theorem fate_settle (p : α → Bool) (fate : Fate β) (entry : Entry α β) :
    (settle p fate entry).fate
      = if entry.fate.isWaiting && p entry.value then fate else entry.fate := by
  unfold settle
  split <;> rfl

/-- All that waits is taken as a batch. -/
def take (l : Ledger α β) : Ledger α β where
  entries := l.entries.map (settle (fun _ => true) (.taken l.batches))
  batches := l.batches + 1
  numbered := by
    intro entry hentry n hfate
    obtain ⟨old, hold, rfl⟩ := List.mem_map.mp hentry
    rw [fate_settle] at hfate
    split at hfate
    · cases hfate
      exact Nat.lt_succ_self _
    · exact Nat.lt_succ_of_lt (l.numbered old hold n hfate)

/-- What waits and has the property is dropped. -/
def drop (p : α → Bool) (reason : β) (l : Ledger α β) : Ledger α β where
  entries := l.entries.map (settle p (.dropped reason))
  batches := l.batches
  numbered := by
    intro entry hentry n hfate
    obtain ⟨old, hold, rfl⟩ := List.mem_map.mp hentry
    rw [fate_settle] at hfate
    split at hfate
    · cases hfate
    · exact l.numbered old hold n hfate

variable (a : α) (p : α → Bool) (reason : β) (n : ℕ) (l : Ledger α β)

/-! ## The values -/

@[simp] theorem values_add : (l.add a).values = l.values ++ [a] := by
  simp [values, add]

theorem values_settle (fate : Fate β) (entries : List (Entry α β)) :
    (entries.map (settle p fate)).map Entry.value = entries.map Entry.value := by
  rw [List.map_map]
  exact List.map_congr_left fun entry _ => value_settle p fate entry

@[simp] theorem values_take : l.take.values = l.values := values_settle _ _ _

@[simp] theorem values_drop : (l.drop p reason).values = l.values := values_settle _ _ _

/-! ## The queue -/

@[simp] theorem waiting_add : (l.add a).waiting = l.waiting ++ [a] := by
  simp [waiting, add, List.filter_append, Fate.isWaiting]

/-- Settling leaves waiting what has not the property. -/
theorem waiting_settle {fate : Fate β} (hfate : fate.isWaiting = false)
    (entries : List (Entry α β)) :
    ((entries.map (settle p fate)).filter fun entry => entry.fate.isWaiting).map Entry.value
      = ((entries.filter fun entry => entry.fate.isWaiting).map Entry.value).filter
          fun a => !p a := by
  induction entries with
  | nil => rfl
  | cons entry entries ih =>
      rw [List.map_cons, List.filter_cons, List.filter_cons, fate_settle]
      cases hwaiting : entry.fate.isWaiting with
      | false => simpa [hwaiting] using ih
      | true =>
          cases hp : p entry.value with
          | true => simpa [hfate, hp] using ih
          | false => simpa [hwaiting, hp, value_settle] using ih

@[simp] theorem waiting_take : l.take.waiting = [] := by
  rw [waiting, take, waiting_settle _ rfl, List.filter_eq_nil_iff]
  exact fun _ _ => Bool.false_ne_true

/-- **Dropping** keeps the others in order, as often as they were there. -/
@[simp] theorem waiting_drop : (l.drop p reason).waiting = l.waiting.filter fun a => !p a :=
  waiting_settle _ rfl _

/-! ## The batches -/

@[simp] theorem batch_add : (l.add a).batch n = l.batch n := by
  simp [batch, add, List.filter_append, Fate.isTaken]

/-- Settling does not change a batch unless the fate is to go into it. -/
theorem batch_settle {fate : Fate β} (hfate : fate.isTaken n = false)
    (entries : List (Entry α β)) :
    ((entries.map (settle p fate)).filter fun entry => entry.fate.isTaken n).map Entry.value
      = (entries.filter fun entry => entry.fate.isTaken n).map Entry.value := by
  induction entries with
  | nil => rfl
  | cons entry entries ih =>
      rw [List.map_cons, List.filter_cons, List.filter_cons, fate_settle]
      cases hwaiting : entry.fate.isWaiting && p entry.value with
      | false =>
          simp only [Bool.false_eq_true, if_false]
          split
          · rw [List.map_cons, List.map_cons, ih, value_settle]
          · exact ih
      | true =>
          -- a value that waits is in no batch
          have hnot : entry.fate.isTaken n = false := by
            cases hentry : entry.fate with
            | waiting => rfl
            | taken m => rw [hentry] at hwaiting; cases hwaiting
            | dropped reason => rfl
          simpa [hfate, hnot] using ih

@[simp] theorem batch_drop : (l.drop p reason).batch n = l.batch n := batch_settle _ _ rfl _

variable {n} in
theorem batch_take_of_lt (h : n < l.batches) : l.take.batch n = l.batch n := by
  apply batch_settle
  exact decide_eq_false (Nat.ne_of_gt h)

/-- **A new batch is what has been waiting**, in the order of addition. -/
theorem batch_take : l.take.batch l.batches = l.waiting := by
  have hsame : ∀ entry ∈ l.entries,
      (settle (fun _ => true) (.taken l.batches) entry).fate.isTaken l.batches
        = entry.fate.isWaiting := by
    intro entry hentry
    rw [fate_settle, Bool.and_true]
    cases hfate : entry.fate with
    | waiting => exact decide_eq_true rfl
    | taken m => exact decide_eq_false (Nat.ne_of_lt (l.numbered entry hentry m hfate))
    | dropped reason => rfl
  have hfilter : l.entries.filter ((fun entry => entry.fate.isTaken l.batches) ∘
        settle (fun _ => true) (.taken l.batches))
      = l.entries.filter fun entry => entry.fate.isWaiting := List.filter_congr hsame
  rw [batch, take, waiting, List.filter_map, List.map_map, hfilter]
  exact List.map_congr_left fun entry _ => value_settle _ _ _

/-! ## What was dropped -/

variable {a p reason n l} {entry : Entry α β} {r : β}

theorem fate_of_add (h : entry ∈ (l.add a).entries) (hfate : entry.fate = .dropped r) :
    entry ∈ l.entries := by
  rcases List.mem_append.mp h with h | h
  · exact h
  · rw [List.mem_singleton.mp h] at hfate
    cases hfate

theorem fate_of_take (h : entry ∈ l.take.entries) (hfate : entry.fate = .dropped r) :
    entry ∈ l.entries := by
  obtain ⟨old, hold, rfl⟩ := List.mem_map.mp h
  unfold settle at hfate ⊢
  split at hfate
  · cases hfate
  · rename_i hnot
    rw [if_neg hnot]
    exact hold

/-- **What is dropped** has the property, or was dropped before. -/
theorem fate_of_drop (h : entry ∈ (l.drop p reason).entries) (hfate : entry.fate = .dropped r) :
    (r = reason ∧ p entry.value = true) ∨ entry ∈ l.entries := by
  obtain ⟨old, hold, rfl⟩ := List.mem_map.mp h
  unfold settle at hfate ⊢
  split at hfate
  · rename_i hboth
    rw [if_pos hboth]
    cases hfate
    exact .inl ⟨rfl, (Bool.and_eq_true _ _ ▸ hboth).2⟩
  · rename_i hnot
    rw [if_neg hnot]
    exact .inr hold

end Ledger

end PurgeQueue
