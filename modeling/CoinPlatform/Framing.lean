/-
# Frames

A message goes over the wire behind its length, four bytes, most significant first.  The
senders of `node.cpp` write the length with `htonl`; `handle_incoming_data` collects the
chunks of a sender in a buffer, and takes complete messages off its front.

The receiver shifts the four bytes together, which gives the length on every machine, and
then converts the result with `ntohl`.  `nextMessage_frame` says what that makes of a frame.

`deliversAll_iff` is the round trip: the frames of a list of messages are taken apart into
these messages exactly when the conversion leaves their lengths alone, because the machine is
big-endian or because each length reads the same backwards, and no message but the last one
ends the thread by an exception.
-/
import Mathlib.Logic.Function.Basic
import CoinPlatform.TimeBlock
import CoinPlatform.ValueBlock

open ByteOrder StdVector

namespace CoinPlatform

namespace Node

/-! ## Sending -/

/-- A frame as the senders build it: `htonl` of the length, the message type, the payload. -/
def frame (e : Endian) (messageType : Byte) (payload : Bytes) : Bytes :=
  let messageLength := UInt32.ofNat (1 + payload.length)
  let messageLengthBe := e.htonl messageLength
  e.bytes 4 messageLengthBe.toNat ++ (messageType :: payload)

/-- The payload of a block: the public key of the sender is put in front of it. -/
def blockPayload (publicKey : PublicKey) (serializedBlock : Bytes) : Bytes :=
  publicKey.toList ++ serializedBlock

/-- What `run_time_chain_loop` broadcasts. -/
def timeBlockFrame (e : Endian) (publicKey : PublicKey) (block : TimeBlock) : Bytes :=
  frame e 0x01 (blockPayload publicKey (block.serialize e))

/-- What `run_value_chain_loop` broadcasts. -/
def valueBlockFrame (e : Endian) (publicKey : PublicKey) (block : ValueBlock) : Bytes :=
  frame e 0x02 (blockPayload publicKey (block.serialize e))

/-- What `generate_and_broadcast_transaction` broadcasts. -/
def transactionFrame (e : Endian) (tx : Transaction) : Bytes :=
  frame e 0x03 (tx.serialize e)

/-! ## Receiving -/

/-- What one turn of the loop finds at the front of the buffer. -/
inductive NextMessage where
  | wait
  | fault (fault : Fault)
  | message (completeMessage rest : Bytes)
  deriving DecidableEq

/-- The length in front of the buffer, as the receiver computes it. -/
def messageLength (e : Endian) (buffer : Bytes) : UInt32 :=
  match buffer with
  | b₀ :: b₁ :: b₂ :: b₃ :: _ => e.ntohl (shiftIn b₀ b₁ b₂ b₃)
  | _ => 0

/-- One turn of the loop.  The test whether the message is complete adds in 32 bits, the
iterators of the two ranges add in full width. -/
def nextMessage (e : Endian) (buffer : Bytes) : NextMessage :=
  if buffer.length < 4 then .wait
  else
    let length := messageLength e buffer
    if buffer.length < (4 + length : UInt32).toNat then .wait
    else if buffer.length < 4 + length.toNat then .fault .outOfRange
    else .message ((buffer.drop 4).take length.toNat) (buffer.drop (4 + length.toNat))

/-- What a call of `handle_incoming_data` has done: the messages it has passed on, what is
left in the buffer, the state of the node, and the exception it has ended with, if any. -/
structure Reception (σ : Type) where
  messages : List Bytes
  buffer : Bytes
  state : σ
  fault : Option Fault

section Turn

variable {e : Endian} {buffer completeMessage rest : Bytes} {fault : Fault}

/-- The sum of the test, as a number. -/
theorem toNat_four_add (length : UInt32) :
    (4 + length : UInt32).toNat = (4 + length.toNat) % 2 ^ 32 := by
  rw [UInt32.toNat_add]
  rfl

/-- A turn of the loop, with the sum of the test as a number. -/
theorem nextMessage_eq : nextMessage e buffer =
    if buffer.length < 4 ∨ buffer.length < (4 + (messageLength e buffer).toNat) % 2 ^ 32 then .wait
    else if buffer.length < 4 + (messageLength e buffer).toNat then .fault .outOfRange
    else .message ((buffer.drop 4).take (messageLength e buffer).toNat)
      (buffer.drop (4 + (messageLength e buffer).toNat)) := by
  unfold nextMessage
  by_cases hfour : buffer.length < 4
  · rw [if_pos hfour, if_pos (.inl hfour)]
  · simp only [hfour, if_false, false_or, toNat_four_add]

theorem nextMessage_eq_wait : nextMessage e buffer = .wait ↔
    buffer.length < 4 ∨ buffer.length < (4 + (messageLength e buffer).toNat) % 2 ^ 32 := by
  rw [nextMessage_eq]
  split
  · rename_i hwait
    exact iff_of_true rfl hwait
  · rename_i hready
    refine iff_of_false ?_ hready
    split <;> simp

theorem nextMessage_eq_fault : nextMessage e buffer = .fault fault ↔
    4 ≤ buffer.length ∧ (4 + (messageLength e buffer).toNat) % 2 ^ 32 ≤ buffer.length ∧
      buffer.length < 4 + (messageLength e buffer).toNat ∧ fault = .outOfRange := by
  rw [nextMessage_eq]
  split
  · rename_i hwait
    simp only [reduceCtorEq, false_iff]
    omega
  · rename_i hready
    split
    · rename_i hmissing
      rw [NextMessage.fault.injEq]
      constructor
      · rintro rfl
        exact ⟨by omega, by omega, hmissing, rfl⟩
      · rintro ⟨-, -, -, rfl⟩
        rfl
    · simp only [reduceCtorEq, false_iff]
      omega

/-- A message is taken off when all of it is there; the test never keeps one back. -/
theorem nextMessage_eq_message : nextMessage e buffer = .message completeMessage rest ↔
    4 + (messageLength e buffer).toNat ≤ buffer.length ∧
      completeMessage = (buffer.drop 4).take (messageLength e buffer).toNat ∧
      rest = buffer.drop (4 + (messageLength e buffer).toNat) := by
  rw [nextMessage_eq]
  split
  · -- the sum in 32 bits is at most the sum
    have hle := Nat.mod_le (4 + (messageLength e buffer).toNat) (2 ^ 32)
    simp only [reduceCtorEq, false_iff]
    omega
  · split
    · simp only [reduceCtorEq, false_iff]
      omega
    · rename_i hall
      rw [NextMessage.message.injEq]
      constructor
      · rintro ⟨rfl, rfl⟩
        exact ⟨Nat.le_of_not_lt hall, rfl, rfl⟩
      · rintro ⟨-, rfl, rfl⟩
        exact ⟨rfl, rfl⟩

/-- The message taken off has the length that was computed. -/
theorem length_message (h : nextMessage e buffer = .message completeMessage rest) :
    completeMessage.length = (messageLength e buffer).toNat := by
  obtain ⟨hlen, rfl, -⟩ := nextMessage_eq_message.mp h
  rw [List.length_take, List.length_drop]
  omega

theorem length_rest_lt (h : nextMessage e buffer = .message completeMessage rest) :
    rest.length < buffer.length := by
  obtain ⟨hlen, -, rfl⟩ := nextMessage_eq_message.mp h
  rw [List.length_drop]
  omega

end Turn

/-- The loop of `handle_incoming_data`; `process` is `process_complete_message`. -/
def receive {σ : Type} (e : Endian) (process : Bytes → σ → Except Fault σ) (buffer : Bytes)
    (state : σ) : Reception σ :=
  match _h : nextMessage e buffer with
  | .wait => ⟨[], buffer, state, none⟩
  | .fault fault => ⟨[], buffer, state, some fault⟩
  | .message completeMessage rest =>
    match process completeMessage state with
    | .error fault => ⟨[completeMessage], rest, state, some fault⟩
    | .ok state' =>
      let r := receive e process rest state'
      { r with messages := completeMessage :: r.messages }
termination_by buffer.length
decreasing_by exact length_rest_lt _h

abbrev IPAddress := String

/-- `handle_incoming_data`: a chunk from a sender is appended to the buffer of that sender. -/
def handleIncomingData {σ : Type} (e : Endian) (process : Bytes → σ → Except Fault σ)
    (incomingBuffers : IPAddress → Bytes) (sender : IPAddress) (data : Bytes) (state : σ) :
    (IPAddress → Bytes) × Reception σ :=
  let r := receive e process (incomingBuffers sender ++ data) state
  (Function.update incomingBuffers sender r.buffer, r)

/-! ## One frame -/

variable {e : Endian} {σ : Type} {process : Bytes → σ → Except Fault σ}

theorem receive_of_wait {buffer : Bytes} {state : σ} (h : nextMessage e buffer = .wait) :
    receive e process buffer state = ⟨[], buffer, state, none⟩ := by
  rw [receive]
  split
  · rfl
  · rename_i h'
    rw [h] at h'
    cases h'
  · rename_i h'
    rw [h] at h'
    cases h'

theorem receive_of_fault {buffer : Bytes} {state : σ} {fault : Fault}
    (h : nextMessage e buffer = .fault fault) :
    receive e process buffer state = ⟨[], buffer, state, some fault⟩ := by
  rw [receive]
  split
  · rename_i h'
    rw [h] at h'
    cases h'
  · rename_i h'
    rw [h] at h'
    cases h'
    rfl
  · rename_i h'
    rw [h] at h'
    cases h'

theorem receive_of_message {buffer completeMessage rest : Bytes} {state : σ}
    (h : nextMessage e buffer = .message completeMessage rest) :
    receive e process buffer state = match process completeMessage state with
      | .error fault => ⟨[completeMessage], rest, state, some fault⟩
      | .ok state' =>
        { receive e process rest state' with
          messages := completeMessage :: (receive e process rest state').messages } := by
  rw [receive]
  split
  · rename_i h'
    rw [h] at h'
    cases h'
  · rename_i h'
    rw [h] at h'
    cases h'
  · rename_i h'
    rw [h] at h'
    cases h'
    rfl

/-- The length the receiver makes of a length the sender has written: the bytes are swapped
once more on a little-endian machine. -/
theorem messageLength_frame (messageType : Byte) (payload rest : Bytes) :
    messageLength e (frame e messageType payload ++ rest)
      = e.ntohl (UInt32.ofNat (1 + payload.length)) := by
  set n := UInt32.ofNat (1 + payload.length) with hn
  have hbytes : e.bytes 4 (e.htonl n).toNat = Endian.big.bytes 4 n.toNat := bytes_htonl e n
  obtain ⟨b₀, b₁, b₂, b₃, hb⟩ : ∃ b₀ b₁ b₂ b₃, Endian.big.bytes 4 n.toNat = [b₀, b₁, b₂, b₃] := by
    have hlen := length_bytes .big 4 n.toNat
    match Endian.big.bytes 4 n.toNat, hlen with
    | [b₀, b₁, b₂, b₃], _ => exact ⟨b₀, b₁, b₂, b₃, rfl⟩
  have hshift : shiftIn b₀ b₁ b₂ b₃ = n := by
    apply UInt32.toNat_inj.mp
    rw [toNat_shiftIn, ← hb, value_bytes .big 4 _ n.toNat_lt]
  have hframe : frame e messageType payload ++ rest
      = b₀ :: b₁ :: b₂ :: b₃ :: (messageType :: payload ++ rest) := by
    simp [frame, ← hn, hbytes, hb]
  rw [hframe, messageLength, hshift]

/-- **What the receiver makes of a frame.**  Where the conversion leaves the length alone, it
takes the message off the buffer. -/
theorem nextMessage_frame {messageType : Byte} {payload : Bytes} (rest : Bytes)
    (hlen : 1 + payload.length + 4 < 2 ^ 32)
    (hsame : e.ntohl (UInt32.ofNat (1 + payload.length)) = UInt32.ofNat (1 + payload.length)) :
    nextMessage e (frame e messageType payload ++ rest)
      = .message (messageType :: payload) rest := by
  -- the length does not wrap around
  have hn : (UInt32.ofNat (1 + payload.length)).toNat = 1 + payload.length :=
    UInt32.toNat_ofNat_of_lt' (by change _ < 2 ^ 32; omega)
  have hbuffer : (frame e messageType payload ++ rest).length
      = 4 + (1 + payload.length) + rest.length := by
    simp [frame]
    omega
  have hdrop : (frame e messageType payload ++ rest).drop 4
      = (messageType :: payload) ++ rest := by
    rw [frame, List.append_assoc]
    exact List.drop_left' (length_bytes e 4 _)
  have hmessage : (messageType :: payload).length = 1 + payload.length := by
    rw [List.length_cons, Nat.add_comm]
  rw [nextMessage_eq_message, messageLength_frame, hsame, hn, ← List.drop_drop, hdrop]
  refine ⟨by omega, ?_, ?_⟩
  · exact (List.take_left' hmessage).symm
  · exact (List.drop_left' hmessage).symm

/-! ## All frames -/

/-- The frames of a list of messages, one after the other. -/
def frames (e : Endian) (messages : List (Byte × Bytes)) : Bytes :=
  messages.flatMap fun m => frame e m.1 m.2

/-- The messages are passed on, each one once and in order, and nothing is left. -/
def DeliversAll (messages : List (Byte × Bytes)) (r : Reception σ) : Prop :=
  r.messages = messages.map (fun m => m.1 :: m.2) ∧ r.buffer = []

/-- The length of every message survives the conversion of the receiver. -/
def LengthsSurvive (e : Endian) (messages : List (Byte × Bytes)) : Prop :=
  e = .big ∨ ∀ m ∈ messages,
    bswap32 (UInt32.ofNat (1 + m.2.length)) = UInt32.ofNat (1 + m.2.length)

/-- No message but the last one ends the thread by an exception. -/
def ProcessesAll (process : Bytes → σ → Except Fault σ) (messages : List (Byte × Bytes))
    (state : σ) : Prop :=
  ∃ state', messages.dropLast.foldlM (fun s m => process (m.1 :: m.2) s) state = .ok state'

theorem lengthsSurvive_cons {m : Byte × Bytes} {messages : List (Byte × Bytes)} :
    LengthsSurvive e (m :: messages) ↔
      e.ntohl (UInt32.ofNat (1 + m.2.length)) = UInt32.ofNat (1 + m.2.length) ∧
        LengthsSurvive e messages := by
  cases e with
  | big => simp [LengthsSurvive, Endian.ntohl, Endian.htonl]
  | little => simp [LengthsSurvive, Endian.ntohl, Endian.htonl]

theorem processesAll_cons {m : Byte × Bytes} {messages : List (Byte × Bytes)} {state : σ} :
    ProcessesAll process (m :: messages) state ↔ messages = [] ∨
      ∃ state', process (m.1 :: m.2) state = .ok state' ∧
        ProcessesAll process messages state' := by
  cases messages with
  | nil => simp [ProcessesAll, pure, Except.pure]
  | cons m' messages =>
      simp only [ProcessesAll, List.dropLast_cons_cons, List.foldlM_cons, bind_eq_ok, reduceCtorEq,
        false_or]
      constructor
      · rintro ⟨t, u, hu, ht⟩
        exact ⟨u, hu, t, ht⟩
      · rintro ⟨u, hu, t, ht⟩
        exact ⟨t, u, hu, ht⟩

/-- The receiver takes the first message off when its length survives, and only then. -/
theorem receive_frames_cons {m : Byte × Bytes} {messages : List (Byte × Bytes)} {state : σ}
    (hlen : 1 + m.2.length + 4 < 2 ^ 32) :
    DeliversAll (m :: messages) (receive e process (frames e (m :: messages)) state) ↔
      e.ntohl (UInt32.ofNat (1 + m.2.length)) = UInt32.ofNat (1 + m.2.length) ∧
        match process (m.1 :: m.2) state with
        | .error _ => messages = []
        | .ok state' => DeliversAll messages (receive e process (frames e messages) state') := by
  have hframes : frames e (m :: messages) = frame e m.1 m.2 ++ frames e messages := by
    simp [frames]
  have hn : (UInt32.ofNat (1 + m.2.length)).toNat = 1 + m.2.length :=
    UInt32.toNat_ofNat_of_lt' (by change _ < 2 ^ 32; omega)
  rw [hframes]
  by_cases hsame : e.ntohl (UInt32.ofNat (1 + m.2.length)) = UInt32.ofNat (1 + m.2.length)
  · have hnext : nextMessage e (frame e m.1 m.2 ++ frames e messages)
        = .message (m.1 :: m.2) (frames e messages) :=
      nextMessage_frame (frames e messages) hlen hsame
    rw [receive_of_message hnext]
    cases hprocess : process (m.1 :: m.2) state with
    | error fault =>
        simp only [DeliversAll, hsame, true_and, List.map_cons, List.cons.injEq]
        constructor
        · rintro ⟨hnil, -⟩
          exact List.map_eq_nil_iff.mp hnil.symm
        · rintro rfl
          exact ⟨rfl, rfl⟩
    | ok state' => simp only [DeliversAll, hsame, true_and, List.map_cons, List.cons.injEq]
  · -- a message of another length is passed on, or none
    refine ⟨fun ⟨hmessages, _⟩ => ?_, fun h => absurd h.1 hsame⟩
    cases hnext : nextMessage e (frame e m.1 m.2 ++ frames e messages) with
    | wait =>
        rw [receive_of_wait hnext] at hmessages
        cases hmessages
    | fault fault =>
        rw [receive_of_fault hnext] at hmessages
        cases hmessages
    | message completeMessage rest =>
        have hlength := length_message hnext
        rw [messageLength_frame] at hlength
        rw [receive_of_message hnext] at hmessages
        have hfirst : completeMessage = m.1 :: m.2 := by
          cases hprocess : process completeMessage state with
          | error fault => rw [hprocess] at hmessages; exact (List.cons.inj hmessages).1
          | ok state' => rw [hprocess] at hmessages; exact (List.cons.inj hmessages).1
        refine absurd (UInt32.toNat_inj.mp ?_) hsame
        rw [← hlength, hfirst, hn, List.length_cons]
        omega

theorem deliversAll_receive {messages : List (Byte × Bytes)} {state : σ}
    (hlen : ∀ m ∈ messages, 1 + m.2.length + 4 < 2 ^ 32) :
    DeliversAll messages (receive e process (frames e messages) state) ↔
      LengthsSurvive e messages ∧ ProcessesAll process messages state := by
  induction messages generalizing state with
  | nil =>
      have hreceive : receive e process [] state = ⟨[], [], state, none⟩ := receive_of_wait rfl
      simp [frames, hreceive, DeliversAll, LengthsSurvive, ProcessesAll, pure, Except.pure]
  | cons m messages ih =>
      have hrest : ∀ m' ∈ messages, 1 + m'.2.length + 4 < 2 ^ 32 :=
        fun m' hm' => hlen m' (List.mem_cons_of_mem _ hm')
      rw [receive_frames_cons (hlen m (List.mem_cons_self ..)), lengthsSurvive_cons,
        processesAll_cons, and_assoc]
      refine and_congr_right fun _ => ?_
      cases hprocess : process (m.1 :: m.2) state with
      | error fault =>
          simp only [reduceCtorEq, false_and, exists_false, or_false]
          constructor
          · rintro rfl
            exact ⟨.inr (by simp), rfl⟩
          · exact fun h => h.2
      | ok state' =>
          simp only [Except.ok.injEq, exists_eq_left', ih hrest]
          constructor
          · rintro ⟨hsurvive, hprocesses⟩
            exact ⟨hsurvive, .inr hprocesses⟩
          · rintro ⟨hsurvive, rfl | hprocesses⟩
            · exact ⟨hsurvive, state', rfl⟩
            · exact ⟨hsurvive, hprocesses⟩

/-- **The framing round trip**: delivered to an empty buffer, the frames of a list of messages
are taken apart into these messages exactly when their lengths survive the second conversion
and no message but the last one raises an exception. -/
theorem deliversAll_iff {incomingBuffers : IPAddress → Bytes} {sender : IPAddress}
    (hempty : incomingBuffers sender = []) {messages : List (Byte × Bytes)} {state : σ}
    (hlen : ∀ m ∈ messages, 1 + m.2.length + 4 < 2 ^ 32) :
    DeliversAll messages
        (handleIncomingData e process incomingBuffers sender (frames e messages) state).2 ↔
      LengthsSurvive e messages ∧ ProcessesAll process messages state := by
  rw [handleIncomingData, hempty, List.nil_append]
  exact deliversAll_receive hlen

/-- Two messages of different lengths: a payment with data and a block with two payments. -/
def paymentAndBlock (e : Endian) : List (Byte × Bytes) :=
  [(0x03, (signedPayment 10 [1, 2, 3]).serialize e),
    (0x02, blockPayload twoPayments.publicKey (twoPayments.serialize e))]

/-- A big-endian machine receives the messages it sends: 180 bytes and 613 behind the two
lengths. -/
theorem deliversAll_paymentAndBlock :
    DeliversAll (paymentAndBlock .big)
      (handleIncomingData .big (fun _ count => .ok (count + 1)) (fun _ => []) "127.0.0.1"
        (frames .big (paymentAndBlock .big)) 0).2 := by
  refine (deliversAll_iff rfl ?_).mpr ⟨.inl rfl, 1, rfl⟩
  intro m hm
  have hdata : (signedPayment 10 [1, 2, 3]).data.length = 3 := rfl
  simp only [paymentAndBlock, List.mem_cons, List.not_mem_nil, or_false] at hm
  rcases hm with rfl | rfl
  · rw [Transaction.length_serialize, hdata]
    decide
  · rw [blockPayload, List.length_append, List.Vector.toList_length, length_serialize_twoPayments]
    decide

/-- **A little-endian machine does not receive the transactions it sends**: 177 reads as
2969567232, and the frame stays in the buffer. -/
theorem not_deliversAll_transaction :
    ¬ DeliversAll [(0x03, Transaction.empty.serialize .little)]
      (handleIncomingData .little (fun _ count => .ok (count + 1)) (fun _ => []) "127.0.0.1"
        (frames .little [(0x03, Transaction.empty.serialize .little)]) 0).2 := by
  have hnext : nextMessage .little (frames .little [(0x03, Transaction.empty.serialize .little)])
      = .wait := by decide +kernel
  rintro ⟨hmessages, -⟩
  rw [handleIncomingData, List.nil_append, receive_of_wait hnext] at hmessages
  cases hmessages

end Node

end CoinPlatform
