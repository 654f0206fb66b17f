/-
# Rejected messages

A message that a dual node handles can be rejected in several places: before its type is looked
at, while its payload is decoded, or by the consensus of its chain.  All of them come before
anything is stored or pooled.

* `rejects_iff`: the places, as a list;
* `handleMessage_of_rejected`: a rejected message leaves the node as it is;
* `handleMessages_withoutRejected`: nobody can tell whether the rejected messages have arrived.
-/
import CoinPlatform.FailingRuns
import CoinPlatform.Redelivery
import CoinPlatform.Roles
import CoinPlatform.TipAgreement

open ByteOrder StdVector FailingRuns

namespace CoinPlatform

namespace Node

variable {e : Endian}

theorem callOn_eq_none {B : Type} {call : B → Item} {decoded : Except Fault (Bool × B)} :
    callOn call decoded = .ok none ↔ ∃ b, decoded = .ok (false, b) := by
  unfold callOn
  rw [bind_eq_ok]
  constructor
  · rintro ⟨⟨ok, b⟩, hdecoded, h⟩
    cases ok with
    | false => exact ⟨b, hdecoded⟩
    | true => cases h
  · rintro ⟨b, hdecoded⟩
    exact ⟨(false, b), hdecoded, rfl⟩

/-- The message is not made into a call: there is no type byte, or an unknown one, or the payload
is not decoded. -/
inductive Undecoded (e : Endian) : Bytes → Prop where
  | empty : Undecoded e []
  | unknownType {messageType : Byte} {payload : Bytes} (htime : messageType ≠ 0x01)
      (hvalue : messageType ≠ 0x02) (htx : messageType ≠ 0x03) :
      Undecoded e (messageType :: payload)
  | timeBlock {payload : Bytes} {block : TimeBlock}
      (h : TimeBlock.empty.deserialize e payload = .ok (false, block)) :
      Undecoded e (0x01 :: payload)
  | valueBlock {payload : Bytes} {block : ValueBlock}
      (h : ValueBlock.empty.deserialize e payload = .ok (false, block)) :
      Undecoded e (0x02 :: payload)
  | tooShort {payload : Bytes} (h : payload.length < 176) : Undecoded e (0x03 :: payload)
  | transaction {payload : Bytes} {tx : Transaction}
      (h : Transaction.empty.deserialize e payload = .ok (false, tx)) :
      Undecoded e (0x03 :: payload)

theorem handleIncomingTransaction_eq_none {data : Bytes} :
    handleIncomingTransaction e data = .ok none ↔
      data.length < 176 ∨
        176 ≤ data.length ∧ ∃ tx, Transaction.empty.deserialize e data = .ok (false, tx) := by
  unfold handleIncomingTransaction
  by_cases hsmall : data.length < 32 + 32 + 8 + 8 + 0 + 64 + 32
  · rw [if_pos hsmall]
    exact iff_of_true rfl (.inl hsmall)
  · rw [if_neg hsmall, callOn_eq_none, or_iff_right hsmall, and_iff_right (Nat.not_lt.mp hsmall)]

/-- **The messages that lead to no call.** -/
theorem processCompleteMessage_eq_none {message : Bytes} :
    processCompleteMessage e message = .ok none ↔ Undecoded e message := by
  constructor
  · intro h
    cases message with
    | nil => exact .empty
    | cons messageType payload =>
        dsimp only [processCompleteMessage] at h
        split at h
        · rename_i hone
          subst hone
          obtain ⟨b, hb⟩ := callOn_eq_none.mp h
          exact .timeBlock hb
        · rename_i hone
          split at h
          · rename_i htwo
            subst htwo
            obtain ⟨b, hb⟩ := callOn_eq_none.mp h
            exact .valueBlock hb
          · rename_i htwo
            split at h
            · rename_i hthree
              subst hthree
              rcases handleIncomingTransaction_eq_none.mp h with hsmall | ⟨-, tx, htx⟩
              · exact .tooShort hsmall
              · exact .transaction htx
            · rename_i hthree
              exact .unknownType hone htwo hthree
  · intro h
    cases h with
    | empty => rfl
    | unknownType htime hvalue htx =>
        rw [processCompleteMessage, if_neg htime, if_neg hvalue, if_neg htx]
        rfl
    | timeBlock h => exact callOn_eq_none.mpr ⟨_, h⟩
    | valueBlock h => exact callOn_eq_none.mpr ⟨_, h⟩
    | tooShort h => exact handleIncomingTransaction_eq_none.mpr (.inl h)
    | @transaction payload tx h =>
        apply handleIncomingTransaction_eq_none.mpr
        rcases Nat.lt_or_ge payload.length 176 with hlt | hge
        · exact .inl hlt
        · exact .inr ⟨hge, tx, h⟩

theorem processCompleteMessage_timeBlock {payload : Bytes} {block : TimeBlock}
    (h : TimeBlock.empty.deserialize e payload = .ok (true, block)) :
    processCompleteMessage e (0x01 :: payload) = .ok (some (.timeBlock block)) :=
  callOn_eq_some.mpr ⟨block, h, rfl⟩

theorem processCompleteMessage_valueBlock {payload : Bytes} {block : ValueBlock}
    (h : ValueBlock.empty.deserialize e payload = .ok (true, block)) :
    processCompleteMessage e (0x02 :: payload) = .ok (some (.valueBlock block)) :=
  callOn_eq_some.mpr ⟨block, h, rfl⟩

end Node

namespace Roles

open Node

variable (H : Host)

/-- The message is rejected when it is handled: it leads to no call, or the validation of its
block says no. -/
inductive Rejected (s : State) : Bytes → Prop where
  | undecoded {message : Bytes} (h : Undecoded H.endian message) : Rejected s message
  | invalidTimeBlock {payload : Bytes} {block : TimeBlock} {storage : FileStorage TimeBlock}
      (h : TimeBlock.empty.deserialize H.endian payload = .ok (true, block))
      (hstorage : s.timeChainStorage = some storage)
      (hinvalid : TimeChainConsensus.validateBlock H storage block = .ok false) :
      Rejected s (0x01 :: payload)
  | invalidValueBlock {payload : Bytes} {block : ValueBlock} {timeStorage : FileStorage TimeBlock}
      (h : ValueBlock.empty.deserialize H.endian payload = .ok (true, block))
      (hstorage : s.timeChainStorage = some timeStorage)
      (hinvalid : ValueChainConsensus.validateBlock H timeStorage block = .ok false) :
      Rejected s (0x02 :: payload)

/-- The same as a computation. -/
def rejects (s : State) (message : Bytes) : Bool :=
  match processCompleteMessage H.endian message, s.timeChainStorage with
  | .ok none, _ => true
  | .ok (some (.timeBlock block)), some storage =>
    decide (TimeChainConsensus.validateBlock H storage block = .ok false)
  | .ok (some (.valueBlock block)), some timeStorage =>
    decide (ValueChainConsensus.validateBlock H timeStorage block = .ok false)
  | _, _ => false

variable {H} {s t : State} {message : Bytes} {io : WriteOutcome}

/-- **Where a message is rejected.** -/
theorem rejects_iff : rejects H s message = true ↔ Rejected H s message := by
  constructor
  · intro h
    unfold rejects at h
    split at h
    · rename_i hnone
      exact .undecoded (processCompleteMessage_eq_none.mp hnone)
    · rename_i block storage hitem hstorage
      obtain ⟨messageType, payload, rfl, hcases⟩ := processCompleteMessage_eq_some.mp hitem
      rcases hcases with ⟨rfl, b, hb, hsame⟩ | ⟨-, b, -, hsame⟩ | ⟨-, -, tx, -, hsame⟩
      · cases hsame
        exact .invalidTimeBlock hb hstorage (of_decide_eq_true h)
      · cases hsame
      · cases hsame
    · rename_i block storage hitem hstorage
      obtain ⟨messageType, payload, rfl, hcases⟩ := processCompleteMessage_eq_some.mp hitem
      rcases hcases with ⟨-, b, -, hsame⟩ | ⟨rfl, b, hb, hsame⟩ | ⟨-, -, tx, -, hsame⟩
      · cases hsame
      · cases hsame
        exact .invalidValueBlock hb hstorage (of_decide_eq_true h)
      · cases hsame
    · cases h
  · intro h
    cases h with
    | undecoded h =>
        rw [rejects, processCompleteMessage_eq_none.mpr h]
    | @invalidTimeBlock payload block storage h hstorage hinvalid =>
        rw [rejects, processCompleteMessage_timeBlock h, hstorage]
        exact decide_eq_true hinvalid
    | @invalidValueBlock payload block timeStorage h hstorage hinvalid =>
        rw [rejects, processCompleteMessage_valueBlock h, hstorage]
        exact decide_eq_true hinvalid

/-- **A rejected message leaves a dual node as it is**, whatever the files would have done. -/
theorem handleMessage_of_rejected (hs : Built s) (hrole : s.role = .dual)
    (h : Rejected H s message) (io : WriteOutcome) : handleMessage H s message io = .ok s := by
  obtain ⟨m, -, hm⟩ := hs.exists_eq_ofNode hrole
  cases h with
  | undecoded h =>
      rw [handleMessage, processCompleteMessage_eq_none.mpr h]
      rfl
  | @invalidTimeBlock payload block storage h hstorage hinvalid =>
      rw [hm] at hstorage ⊢
      obtain rfl : m.timeStorage = storage := Option.some.inj hstorage
      rw [handleMessage, processCompleteMessage_timeBlock h]
      show lift (TimeChainConsensus.handleBlock H m.timeStorage block io) >>= _ = _
      rw [TimeChainConsensus.handleBlock_of_invalid hinvalid]
      rfl
  | @invalidValueBlock payload block timeStorage h hstorage hinvalid =>
      rw [hm] at hstorage ⊢
      obtain rfl : m.timeStorage = timeStorage := Option.some.inj hstorage
      rw [handleMessage, processCompleteMessage_valueBlock h]
      show lift (ValueChainConsensus.handleBlock H m.timeStorage m.valueStorage
        m.transactionPool block io) >>= _ = _
      rw [ValueChainConsensus.handleBlock_of_invalid hinvalid]
      rfl

instance decidableRejected (s : State) (message : Bytes) : Decidable (Rejected H s message) :=
  decidable_of_iff _ rejects_iff

/-! ## Sequences of messages -/

section Sequences

variable (H)

/-- Complete messages, each with the outcome of the file operations if its block is stored, are
handled one after the other until one throws. -/
def handleMessages (messages : List (Bytes × WriteOutcome)) (s : State) :
    Ending State (Bytes × WriteOutcome) Failure :=
  FailingRuns.run (fun a s => handleMessage H s a.1 a.2) (fun s a => decide (Rejected H s a.1))
    messages s

/-- Delete the messages that are rejected when they are handled. -/
def withoutRejected (messages : List (Bytes × WriteOutcome)) (s : State) :
    List (Bytes × WriteOutcome) :=
  withoutRefused (fun a s => handleMessage H s a.1 a.2) (fun s a => decide (Rejected H s a.1))
    messages s

variable {H}

/-- **Rejected messages are invisible**: without them a dual node ends in the same state, the
same message fails if one does, and the messages that were accepted before, and no others, are
handled and accepted. -/
theorem handleMessages_withoutRejected (hs : Built s) (hrole : s.role = .dual)
    (messages : List (Bytes × WriteOutcome)) :
    withoutRejected H messages s = (handleMessages H messages s).accepted.map Prod.fst
        ++ messages.drop (handleMessages H messages s).taken.length ∧
      handleMessages H (withoutRejected H messages s) s
        = { handleMessages H messages s with taken := (handleMessages H messages s).accepted } := by
  refine ⟨withoutRefused_eq_append messages s, ?_⟩
  refine run_withoutRefused (I := fun s => Built s ∧ s.role = .dual) ?_ ?_ ⟨hs, hrole⟩ messages
  · rintro s a t ⟨hs, hrole⟩ h
    obtain ⟨ht, hsame⟩ := hs.handleMessage h
    exact ⟨ht, hsame.trans hrole⟩
  · rintro s a ⟨hs, hrole⟩ hrejects
    exact handleMessage_of_rejected hs hrole (of_decide_eq_true hrejects) a.2

/-- A message without a type byte, one with an unknown type, and a transaction. -/
def sampleMessages : List (Bytes × WriteOutcome) :=
  [([], .ok), ([9], .ok), (0x03 :: Transaction.empty.serialize .little, .ok)]

/-- A dual node over empty storages. -/
def sampleState : State := ofNode (fun _ => []) ⟨.empty, .empty, [], .idle, .idle, .idle⟩

/-- Of the sample messages the transaction is left, and it does what all three do. -/
theorem handleMessages_withoutRejected_sample :
    withoutRejected tagHost sampleMessages sampleState
        = [(0x03 :: Transaction.empty.serialize .little, .ok)] ∧
      handleMessages tagHost [(0x03 :: Transaction.empty.serialize .little, .ok)] sampleState
        = { handleMessages tagHost sampleMessages sampleState with
            taken := (handleMessages tagHost sampleMessages sampleState).accepted } := by
  have hbuilt : Built sampleState := by
    refine ⟨rfl, rfl, rfl, rfl, rfl, ?_⟩
    intro consensus hconsensus
    cases hconsensus
    rfl
  have hleft : withoutRejected tagHost sampleMessages sampleState
      = [(0x03 :: Transaction.empty.serialize .little, .ok)] := by
    decide +kernel
  obtain ⟨-, hsame⟩ := handleMessages_withoutRejected hbuilt rfl sampleMessages (H := tagHost)
  rw [hleft] at hsame
  exact ⟨hleft, hsame⟩

end Sequences

end Roles

end CoinPlatform
