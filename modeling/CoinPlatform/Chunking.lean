/-
# Chunks of a stream

What a peer sends arrives in chunks of any size, and `handle_incoming_data` is called for each.
The loop over the buffer is a decoder in the sense of `Reassembly`, and `deliver`, which is
given the chunks one after the other, feeds it.

The test whether a message is complete adds four to its length in 32 bits.  For the last four
lengths the sum is smaller than four: such a message is taken for complete as soon as its
length has arrived.

* `frameDecoder`, `deliver_eq_feed`: the loop as a decoder.
* `steady_iff_noLongMessage`: it is steady on a stream without such messages, and only there.
* `cutsDoNotMatter_iff`: so the cuts do not matter on these streams, and only on these.
* `not_cutsDoNotMatter`: one message of 2 ^ 32 - 1 bytes.
-/
import CoinPlatform.Framing
import CoinPlatform.Reassembly

open ByteOrder StdVector Reassembly

namespace CoinPlatform

namespace Node

/-! ## The loop as a decoder -/

/-- The length is in the first four bytes. -/
theorem messageLength_append {e : Endian} {buffer : Bytes} (h : 4 ≤ buffer.length) (d : Bytes) :
    messageLength e (buffer ++ d) = messageLength e buffer := by
  match buffer, h with
  | b₀ :: b₁ :: b₂ :: b₃ :: buffer, _ => rfl

/-- What a turn finds, in the words of the decoders. -/
def NextMessage.found : NextMessage → Option (Except Fault (Bytes × Bytes))
  | .wait => none
  | .fault f => some (.error f)
  | .message completeMessage rest => some (.ok (completeMessage, rest))

theorem found_eq_none {next : NextMessage} : next.found = none ↔ next = .wait := by
  cases next <;> simp [NextMessage.found]

theorem found_eq_error {next : NextMessage} {fault : Fault} :
    next.found = some (.error fault) ↔ next = .fault fault := by
  cases next <;> simp [NextMessage.found]

theorem found_eq_ok {next : NextMessage} {completeMessage rest : Bytes} :
    next.found = some (.ok (completeMessage, rest)) ↔ next = .message completeMessage rest := by
  cases next <;> simp [NextMessage.found]

/-- A message is found again, whatever comes after it. -/
theorem exists_eq_append_of_nextMessage {e : Endian} {buffer completeMessage rest : Bytes}
    (h : nextMessage e buffer = .message completeMessage rest) :
    ∃ c, c ≠ [] ∧ buffer = c ++ rest ∧
      ∀ d, nextMessage e (c ++ d) = .message completeMessage d := by
  obtain ⟨hlen, rfl, rfl⟩ := nextMessage_eq_message.mp h
  set length := (messageLength e buffer).toNat with hlength
  have hfront : (buffer.take (4 + length)).length = 4 + length := by
    rw [List.length_take]
    omega
  have hsame : ∀ d, messageLength e (buffer.take (4 + length) ++ d) = messageLength e buffer := by
    intro d
    rw [messageLength_append (by omega), ← messageLength_append (by omega)
      (buffer.drop (4 + length)), List.take_append_drop]
  refine ⟨buffer.take (4 + length), ?_, (List.take_append_drop _ _).symm, fun d => ?_⟩
  · intro hnil
    rw [hnil, List.length_nil] at hfront
    omega
  · rw [nextMessage_eq_message, hsame, ← hlength, List.length_append, hfront]
    refine ⟨by omega, ?_, (List.drop_left' hfront).symm⟩
    rw [List.drop_append_of_le_length (by omega), List.drop_take, List.take_append_of_le_length,
      List.take_take]
    · congr 1
      omega
    · rw [List.length_take, List.length_drop]
      omega

theorem exists_eq_append_of_found {e : Endian} {buffer completeMessage rest : Bytes}
    (h : (nextMessage e buffer).found = some (.ok (completeMessage, rest))) :
    ∃ c, c ≠ [] ∧ buffer = c ++ rest ∧
      ∀ d, (nextMessage e (c ++ d)).found = some (.ok (completeMessage, d)) := by
  obtain ⟨c, hc, heq, hnext⟩ := exists_eq_append_of_nextMessage (found_eq_ok.mp h)
  exact ⟨c, hc, heq, fun d => found_eq_ok.mpr (hnext d)⟩

theorem found_append_ne_none {e : Endian} {buffer : Bytes} {fault : Fault} (d : Bytes)
    (h : (nextMessage e buffer).found = some (.error fault)) :
    (nextMessage e (buffer ++ d)).found ≠ none := by
  obtain ⟨hfour, hsum, -, -⟩ := nextMessage_eq_fault.mp (found_eq_error.mp h)
  rw [Ne, found_eq_none, nextMessage_eq_wait, messageLength_append hfour, List.length_append]
  omega

/-- The loop of `handle_incoming_data`. -/
def frameDecoder (e : Endian) : Decoder Byte Bytes Fault where
  next := fun buffer => (nextMessage e buffer).found
  exists_eq_append := exists_eq_append_of_found
  next_append_ne_none := found_append_ne_none

variable {σ : Type} {e : Endian} {process : Bytes → σ → Except Fault σ} {buffer : Bytes}
  {state : σ}

/-- The messages of a call, and what it ends with. -/
def Reception.outcome (r : Reception σ) : List Bytes × Except Fault (Bytes × σ) :=
  match r.fault with
  | some f => (r.messages, .error f)
  | none => (r.messages, .ok (r.buffer, r.state))

/-- **The loop is the decoder.** -/
theorem outcome_receive : (receive e process buffer state).outcome
    = decode (frameDecoder e) process buffer state := by
  induction hn : buffer.length using Nat.strongRecOn generalizing buffer state with
  | ind n ih =>
    cases hnext : nextMessage e buffer with
    | wait =>
        rw [decode_of_wait (D := frameDecoder e) (found_eq_none.mpr hnext), receive_of_wait hnext]
        rfl
    | fault f =>
        rw [decode_of_error (D := frameDecoder e) (found_eq_error.mpr hnext),
          receive_of_fault hnext]
        rfl
    | message completeMessage rest =>
        rw [decode_of_message (D := frameDecoder e) (found_eq_ok.mpr hnext),
          receive_of_message hnext]
        cases process completeMessage state with
        | error f => rfl
        | ok state' =>
            have hrest : (receive e process rest state').outcome
                = decode (frameDecoder e) process rest state' :=
              ih _ (hn ▸ length_rest_lt hnext) rfl
            simp only [← hrest, Reception.outcome]
            cases (receive e process rest state').fault <;> rfl

/-! ## Delivery -/

variable (e process) in
/-- The chunks are given to `handle_incoming_data` one after the other, up to an exception. -/
def deliver (sender : IPAddress) : List Bytes → (IPAddress → Bytes) → σ →
    List Bytes × Except Fault ((IPAddress → Bytes) × σ)
  | [], incomingBuffers, state => ([], .ok (incomingBuffers, state))
  | chunk :: chunks, incomingBuffers, state =>
    let (incomingBuffers, r) := handleIncomingData e process incomingBuffers sender chunk state
    match r.fault with
    | some fault => (r.messages, .error fault)
    | none => prepend r.messages (deliver sender chunks incomingBuffers r.state)

/-- An outcome with the buffer of the sender put among the others. -/
def withBuffer (incomingBuffers : IPAddress → Bytes) (sender : IPAddress)
    (o : List Bytes × Except Fault (Bytes × σ)) :
    List Bytes × Except Fault ((IPAddress → Bytes) × σ) :=
  (o.1, o.2.map fun r => (Function.update incomingBuffers sender r.1, r.2))

theorem withBuffer_injective (incomingBuffers : IPAddress → Bytes) (sender : IPAddress) :
    Function.Injective (withBuffer (σ := σ) incomingBuffers sender) := by
  rintro ⟨ms, o⟩ ⟨ms', o'⟩ h
  obtain ⟨rfl, h⟩ := Prod.mk.inj h
  cases o with
  | error f =>
      cases o' with
      | error f' => rw [Except.error.inj h]
      | ok r' => cases h
  | ok r =>
      cases o' with
      | error f' => cases h
      | ok r' =>
          obtain ⟨hbuffers, hstate⟩ := Prod.mk.inj (Except.ok.inj h)
          have hbuffer := congrFun hbuffers sender
          rw [Function.update_self, Function.update_self] at hbuffer
          rw [Prod.ext hbuffer hstate]

/-- **Delivering is feeding the decoder.** -/
theorem deliver_eq_feed {sender : IPAddress} {chunks : List Bytes}
    {incomingBuffers : IPAddress → Bytes} :
    deliver e process sender chunks incomingBuffers state
      = withBuffer incomingBuffers sender
          (feed (frameDecoder e) process chunks (incomingBuffers sender) state) := by
  induction chunks generalizing incomingBuffers state with
  | nil =>
      simp only [deliver, feed, withBuffer, Except.map, Function.update_eq_self]
  | cons chunk chunks ih =>
      rw [feed, ← outcome_receive, deliver]
      simp only [handleIncomingData, Reception.outcome]
      cases (receive e process (incomingBuffers sender ++ chunk) state).fault with
      | some f => rfl
      | none =>
          simp only [ih, Function.update_self, withBuffer, prepend]
          cases (feed (frameDecoder e) process chunks _ _).2 with
          | error f => rfl
          | ok r => simp only [Except.map, Function.update_idem]

/-! ## Cuts -/

variable (e process) in
/-- Two ways of cutting the stream into chunks have the same messages, and leave the same
buffers and the same state. -/
def CutsDoNotMatter (sender : IPAddress) (incomingBuffers : IPAddress → Bytes) (state : σ)
    (stream : Bytes) : Prop :=
  ∀ chunks chunks' : List Bytes, chunks.flatten = stream → chunks'.flatten = stream →
    deliver e process sender chunks incomingBuffers state
      = deliver e process sender chunks' incomingBuffers state

variable (e process) in
/-- Behind the messages that are read and processed without an exception stands no complete
message whose length, with the four bytes in front, does not fit into 32 bits. -/
def NoLongMessage (buffer : Bytes) (state : σ) : Prop :=
  ∀ ms rest t, Reads (frameDecoder e) process buffer state ms rest t →
    ∀ completeMessage rest', nextMessage e rest = .message completeMessage rest' →
      4 + completeMessage.length < 2 ^ 32

theorem cutsDoNotMatter_iff_steady {sender : IPAddress} {incomingBuffers : IPAddress → Bytes}
    {stream : Bytes} (hwait : nextMessage e (incomingBuffers sender) = .wait) :
    CutsDoNotMatter e process sender incomingBuffers state stream ↔
      Steady (frameDecoder e) process (incomingBuffers sender ++ stream) state := by
  rw [← feed_eq_iff_steady (found_eq_none.mpr hwait)]
  simp only [CutsDoNotMatter, deliver_eq_feed, (withBuffer_injective _ _).eq_iff]

/-- A long message fails when its length has arrived, and does not when it is complete. -/
theorem steady_iff_noLongMessage :
    Steady (frameDecoder e) process buffer state ↔ NoLongMessage e process buffer state := by
  constructor
  · intro hsteady ms rest t hreads completeMessage rest' hmessage
    by_contra hlong
    have hlength := length_message hmessage
    obtain ⟨hlen, -, -⟩ := nextMessage_eq_message.mp hmessage
    have hbound := (messageLength e rest).toNat_lt
    have htake : (rest.take 4).length = 4 := by
      rw [List.length_take]
      omega
    have hheader : messageLength e (rest.take 4) = messageLength e rest := by
      rw [← messageLength_append htake.ge (rest.drop 4), List.take_append_drop]
    have hfault : nextMessage e (rest.take 4) = .fault .outOfRange := by
      rw [nextMessage_eq_fault, hheader, htake]
      exact ⟨le_rfl, by omega, by omega, rfl⟩
    have hfails := hsteady ms rest t hreads _ _ (List.take_prefix 4 rest)
      (found_eq_error.mpr hfault)
    have hfault' : nextMessage e rest = .fault .outOfRange := found_eq_error.mp hfails
    rw [hmessage] at hfault'
    cases hfault'
  · rintro hshort ms rest t hreads p f ⟨q, rfl⟩ hfails
    obtain ⟨hfour, hsum, hmissing, rfl⟩ := nextMessage_eq_fault.mp (found_eq_error.mp hfails)
    have hheader := messageLength_append (e := e) hfour q
    refine found_eq_error.mpr (nextMessage_eq_fault.mpr ?_)
    by_contra hnot
    -- if nothing is missing in the rest, the message is complete there
    have hcomplete : 4 + (messageLength e (p ++ q)).toNat ≤ (p ++ q).length := by
      by_contra hlt
      refine hnot ⟨?_, ?_, by omega, rfl⟩
      · rw [List.length_append]
        omega
      · rw [hheader, List.length_append]
        omega
    have hmessage := nextMessage_eq_message.mpr ⟨hcomplete, rfl, rfl⟩
    have hlt := hshort ms (p ++ q) t hreads _ _ hmessage
    rw [length_message hmessage, hheader] at hlt
    rw [Nat.mod_eq_of_lt hlt] at hsum
    omega

/-- A stream that is shorter than such a message holds none. -/
theorem noLongMessage_of_length_lt (h : buffer.length < 2 ^ 32) :
    NoLongMessage e process buffer state := by
  intro ms rest t hreads completeMessage rest' hmessage
  obtain ⟨c, rfl, -⟩ := hreads.exists_eq_append
  obtain ⟨hlen, -, -⟩ := nextMessage_eq_message.mp hmessage
  rw [List.length_append] at h
  rw [length_message hmessage]
  omega

/-- The longest length is read as itself on every machine. -/
theorem messageLength_longest (body : Bytes) :
    messageLength e ([0xFF, 0xFF, 0xFF, 0xFF] ++ body) = 0xFFFFFFFF := by
  have hread : e.ntohl (shiftIn 0xFF 0xFF 0xFF 0xFF) = 0xFFFFFFFF := by
    cases e <;> decide
  exact hread

theorem not_noLongMessage_longest {body : Bytes} (hbody : body.length = 2 ^ 32 - 1) :
    ¬ NoLongMessage e process ([0xFF, 0xFF, 0xFF, 0xFF] ++ body) state := by
  intro hshort
  have hheader := messageLength_longest (e := e) body
  have hcomplete : 4 + (messageLength e ([0xFF, 0xFF, 0xFF, 0xFF] ++ body)).toNat
      ≤ ([0xFF, 0xFF, 0xFF, 0xFF] ++ body).length := by
    rw [hheader, List.length_append, hbody]
    decide
  have hmessage := nextMessage_eq_message.mpr ⟨hcomplete, rfl, rfl⟩
  have hlt := hshort [] _ state (.nil _ _) _ _ hmessage
  rw [length_message hmessage, hheader] at hlt
  exact absurd hlt (by decide)

/-- **When the cuts do not matter**: there is no message that the test takes for complete too
early. -/
theorem cutsDoNotMatter_iff {sender : IPAddress} {incomingBuffers : IPAddress → Bytes}
    {stream : Bytes} (hwait : nextMessage e (incomingBuffers sender) = .wait) :
    CutsDoNotMatter e process sender incomingBuffers state stream ↔
      NoLongMessage e process (incomingBuffers sender ++ stream) state :=
  (cutsDoNotMatter_iff_steady hwait).trans steady_iff_noLongMessage

/-- A message of one byte and the beginning of the next one. -/
theorem cutsDoNotMatter_one :
    CutsDoNotMatter .little (fun _ count => .ok (count + 1)) "127.0.0.1" (fun _ => []) 0
      [1, 0, 0, 0, 9, 1, 0] :=
  (cutsDoNotMatter_iff (by decide)).mpr (noLongMessage_of_length_lt (by decide))

/-- **One message of 2 ^ 32 - 1 bytes** is passed on when it comes in one chunk, and ends the
node when its length comes first. -/
theorem not_cutsDoNotMatter :
    ¬ CutsDoNotMatter .little (fun _ count => .ok (count + 1)) "127.0.0.1" (fun _ => []) 0
      ([0xFF, 0xFF, 0xFF, 0xFF] ++ List.replicate (2 ^ 32 - 1) 0) := by
  intro hcuts
  have hsteady := (cutsDoNotMatter_iff_steady (by decide)).mp hcuts
  exact not_noLongMessage_longest List.length_replicate (steady_iff_noLongMessage.mp hsteady)

end Node

end CoinPlatform
