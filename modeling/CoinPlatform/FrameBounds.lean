/-
# The ranges of a turn

A turn of the loop of `handle_incoming_data` copies the message out of the buffer and erases it
together with its length.  Both ranges end at the offset `4 + message_length`, which the
iterators add in full width; the test in front of them has added in 32 bits.

* `extraction`, `turns`: the ranges, and the buffers they are taken of in one call.
* `mem_turns`: a turn begins behind every message that has been read and processed.
* `slicesWithin_iff`: in every run of calls the ranges are within the buffers exactly when no
  call meets one of the last four lengths before the whole message has arrived.
* `not_slicesWithin`: the four bytes of the longest length alone.
-/
import CoinPlatform.Chunking
import CoinPlatform.Transition

open ByteOrder StdVector Reassembly Transition

namespace CoinPlatform

namespace Node

/-! ## One turn -/

/-- The ranges that a turn of the loop copies and erases, from the first offset up to the
second one; `none` when it waits for more data. -/
def extraction (e : Endian) (buffer : Bytes) : Option ((ℕ × ℕ) × (ℕ × ℕ)) :=
  if buffer.length < 4 then none
  else
    let length := messageLength e buffer
    if buffer.length < (4 + length : UInt32).toNat then none
    else some ((4, 4 + length.toNat), (0, 4 + length.toNat))

/-- The range lies within the buffer. -/
def Within (buffer : Bytes) (range : ℕ × ℕ) : Prop :=
  range.1 ≤ range.2 ∧ range.2 ≤ buffer.length

section Turn

variable {e : Endian} {buffer : Bytes} {ranges : (ℕ × ℕ) × (ℕ × ℕ)}

theorem extraction_eq_some : extraction e buffer = some ranges ↔
    4 ≤ buffer.length ∧ (4 + (messageLength e buffer).toNat) % 2 ^ 32 ≤ buffer.length ∧
      ranges = ((4, 4 + (messageLength e buffer).toNat), (0, 4 + (messageLength e buffer).toNat))
    := by
  unfold extraction
  by_cases hfour : buffer.length < 4
  · rw [if_pos hfour]
    refine iff_of_false (fun h => by cases h) (fun h => ?_)
    omega
  · simp only [hfour, if_false, toNat_four_add]
    split
    · refine iff_of_false (fun h => by cases h) (fun h => ?_)
      omega
    · rw [Option.some.injEq]
      constructor
      · rintro rfl
        exact ⟨by omega, by omega, rfl⟩
      · rintro ⟨-, -, rfl⟩
        rfl

/-- Both ranges lie within the buffer when the message has arrived. -/
theorem within_extraction (h : extraction e buffer = some ranges) :
    Within buffer ranges.1 ∧ Within buffer ranges.2 ↔
      4 + (messageLength e buffer).toNat ≤ buffer.length := by
  obtain ⟨-, -, rfl⟩ := extraction_eq_some.mp h
  constructor
  · rintro ⟨-, -, hend⟩
    exact hend
  · intro hend
    exact ⟨⟨Nat.le_add_right _ _, hend⟩, Nat.zero_le _, hend⟩

end Turn

/-! ## One call -/

variable {σ : Type}

/-- The buffers that the turns of the loop begin with. -/
def turns (e : Endian) (process : Bytes → σ → Except Fault σ) (buffer : Bytes) (state : σ) :
    List Bytes :=
  match _h : nextMessage e buffer with
  | .wait => [buffer]
  | .fault _ => [buffer]
  | .message completeMessage rest =>
    match process completeMessage state with
    | .error _ => [buffer]
    | .ok state' => buffer :: turns e process rest state'
termination_by buffer.length
decreasing_by exact length_rest_lt _h

section Call

variable {e : Endian} {process : Bytes → σ → Except Fault σ} {buffer b : Bytes} {state : σ}

theorem turns_of_message {completeMessage rest : Bytes}
    (h : nextMessage e buffer = .message completeMessage rest) :
    turns e process buffer state = match process completeMessage state with
      | .error _ => [buffer]
      | .ok state' => buffer :: turns e process rest state' := by
  rw [turns]
  split
  · rename_i h'
    rw [h] at h'
    cases h'
  · rename_i h'
    rw [h] at h'
    cases h'
  · rename_i h'
    rw [h] at h'
    cases h'
    rfl

theorem turns_of_not_message
    (h : ∀ completeMessage rest, nextMessage e buffer ≠ .message completeMessage rest) :
    turns e process buffer state = [buffer] := by
  rw [turns]
  split
  · rfl
  · rfl
  · rename_i h'
    exact absurd h' (h _ _)

/-- **A turn begins behind every message that has been read and processed.** -/
theorem mem_turns : b ∈ turns e process buffer state ↔
    ∃ ms t, Reads (frameDecoder e) process buffer state ms b t := by
  induction hn : buffer.length using Nat.strongRecOn generalizing buffer state with
  | ind n ih =>
    constructor
    · intro hmem
      cases hnext : nextMessage e buffer with
      | wait =>
          rw [turns_of_not_message (by simp [hnext]), List.mem_singleton] at hmem
          exact hmem ▸ ⟨[], state, .nil _ _⟩
      | fault f =>
          rw [turns_of_not_message (by simp [hnext]), List.mem_singleton] at hmem
          exact hmem ▸ ⟨[], state, .nil _ _⟩
      | message completeMessage rest =>
          rw [turns_of_message hnext] at hmem
          cases hprocess : process completeMessage state with
          | error f =>
              simp only [hprocess, List.mem_singleton] at hmem
              exact hmem ▸ ⟨[], state, .nil _ _⟩
          | ok state' =>
              simp only [hprocess, List.mem_cons] at hmem
              rcases hmem with rfl | hmem
              · exact ⟨[], state, .nil _ _⟩
              · obtain ⟨ms, t, hreads⟩ := (ih _ (hn ▸ length_rest_lt hnext) rfl).mp hmem
                exact ⟨_, t, .cons (found_eq_ok.mpr hnext) hprocess hreads⟩
    · rintro ⟨ms, t, hreads⟩
      cases hreads with
      | nil =>
          rw [turns]
          split
          · exact List.mem_singleton_self _
          · exact List.mem_singleton_self _
          · split
            · exact List.mem_singleton_self _
            · exact List.mem_cons_self
      | cons hnext hprocess hrest =>
          have hmessage := found_eq_ok.mp hnext
          rw [turns_of_message hmessage, hprocess]
          exact List.mem_cons_of_mem _ ((ih _ (hn ▸ length_rest_lt hmessage) rfl).mpr ⟨_, _, hrest⟩)

end Call

/-! ## All calls -/

/-- A call of `handle_incoming_data`: the sender and the chunk, and the state of the node, which
anything may have changed since the last call. -/
structure Delivery (σ : Type) where
  sender : IPAddress
  data : Bytes
  node : σ

section Calls

variable (e : Endian) (process : IPAddress → Bytes → σ → Except Fault σ)

/-- The buffers after the call; `none` when it ends the process. -/
def receiveDelivery (d : Delivery σ) (incomingBuffers : IPAddress → Bytes) :
    Option (IPAddress → Bytes) :=
  let (incomingBuffers, r) :=
    handleIncomingData e (process d.sender) incomingBuffers d.sender d.data d.node
  match r.fault with
  | some _ => none
  | none => some incomingBuffers

/-- Every message that the call extracts is copied and erased within the buffer. -/
def SlicesWithin (incomingBuffers : IPAddress → Bytes) (d : Delivery σ) : Prop :=
  ∀ buffer ∈ turns e (process d.sender) (incomingBuffers d.sender ++ d.data) d.node,
    ∀ ranges, extraction e buffer = some ranges →
      Within buffer ranges.1 ∧ Within buffer ranges.2

/-- Behind the messages of the buffer and the chunk that are read and processed, one of the last
four lengths stands only in front of a message that has arrived. -/
def LongMessagesComplete (incomingBuffers : IPAddress → Bytes) (d : Delivery σ) : Prop :=
  ∀ ms rest t, Reads (frameDecoder e) (process d.sender) (incomingBuffers d.sender ++ d.data)
      d.node ms rest t →
    4 ≤ rest.length → 2 ^ 32 - 4 ≤ (messageLength e rest).toNat →
      4 + (messageLength e rest).toNat ≤ rest.length

variable {e process}

theorem slicesWithin_iff_longMessagesComplete (incomingBuffers : IPAddress → Bytes)
    (d : Delivery σ) :
    SlicesWithin e process incomingBuffers d ↔
      LongMessagesComplete e process incomingBuffers d := by
  constructor
  · intro hwithin ms rest t hreads hfour hlong
    -- the sum has wrapped around, and is at most three
    have hbound := (messageLength e rest).toNat_lt
    have hranges := (@extraction_eq_some e rest _).mpr ⟨hfour, by omega, rfl⟩
    exact (within_extraction hranges).mp (hwithin rest (mem_turns.mpr ⟨ms, t, hreads⟩) _ hranges)
  · intro hcomplete buffer hmem ranges hranges
    obtain ⟨ms, t, hreads⟩ := mem_turns.mp hmem
    obtain ⟨hfour, hsum, -⟩ := extraction_eq_some.mp hranges
    apply (within_extraction hranges).mpr
    by_cases hlong : 2 ^ 32 - 4 ≤ (messageLength e buffer).toNat
    · exact hcomplete ms buffer t hreads hfour hlong
    · rwa [Nat.mod_eq_of_lt (by omega)] at hsum

/-- **When the decoder slices within its buffers**, in every run of calls. -/
theorem slicesWithin_iff (deliveries : List (Delivery σ)) (incomingBuffers : IPAddress → Bytes) :
    Along (receiveDelivery e process) (SlicesWithin e process) deliveries incomingBuffers ↔
      Along (receiveDelivery e process) (LongMessagesComplete e process) deliveries
        incomingBuffers :=
  along_congr slicesWithin_iff_longMessagesComplete deliveries incomingBuffers

end Calls

/-- **The longest length alone**: four bytes are there, the sum of the test is three, and the
message would end at `2 ^ 32 + 3`. -/
theorem not_slicesWithin :
    ¬ Along (receiveDelivery .little fun _ _ (node : Unit) => .ok node)
      (SlicesWithin .little fun _ _ node => .ok node)
      [⟨"127.0.0.1", [0xFF, 0xFF, 0xFF, 0xFF], ()⟩] (fun _ => []) := by
  intro halong
  have hcomplete := (slicesWithin_iff_longMessagesComplete _ _).mp halong.1
  have hend := hcomplete [] [0xFF, 0xFF, 0xFF, 0xFF] () (.nil _ _) (by decide) (by decide)
  exact absurd hend (by decide)

end Node

end CoinPlatform
