/-
# The network on little-endian machines

A frame has its length in front, most significant byte first.  The receiver puts the bytes together
and then converts the result with `ntohl`, which on a little-endian machine reverses them: the
length of a message of less than 65536 bytes becomes one of at least 65536, and the loop of
`handle_incoming_data` waits for that many.

* `blocked_frame`: whatever is sent first, the loop waits until 65540 bytes have come.
* `unheard_step`: until then no step of the network takes anything from one node to another.
* `silent_run`: so every node holds what it has generated itself, and nothing else.
-/
import CoinPlatform.ByteNetwork

open ByteOrder StdVector Simulation

namespace CoinPlatform

open Node MessageNetwork

namespace ByteNetwork

variable {H : Host} {ι : Type} [DecidableEq ι] {keyOf : ι → NodeKeys H} {s t : State ι}
  {m : MessageNetwork.State ι} {a : Action ι} {n : ℕ}

/-! ## What has been sent -/

/-- The bytes that a node has sent to another one and that have not been taken off. -/
def unhandled (s : State ι) (i j : ι) : Bytes :=
  s.incomingBuffers j i ++ (s.streams i j).getD []

/-- There are at most `n` of them between any two nodes. -/
def Light (n : ℕ) (s : State ι) (_ : Action ι) : Prop :=
  ∀ i j, (unhandled s i j).length ≤ n

/-- No file operation of a store fails. -/
def StoresSucceed (s : State ι) (a : Action ι) : Prop :=
  match a with
  | .act i a => Solo (s.parties i).node a
  | _ => True

/-- A message is not complete before more than `n` bytes have come. -/
def Blocked (e : Endian) (n : ℕ) (bytes : Bytes) : Prop :=
  bytes = [] ∨ n < bytes.length ∨ (4 ≤ bytes.length ∧ n < 4 + (messageLength e bytes).toNat)

/-- Nothing that comes later changes this. -/
theorem Blocked.append {e : Endian} {bytes rest : Bytes} (h : Blocked e n bytes)
    (hrest : Blocked e n rest) : Blocked e n (bytes ++ rest) := by
  rcases h with rfl | hlong | ⟨hfour, hlength⟩
  · rw [List.nil_append]
    exact hrest
  · refine .inr (.inl ?_)
    rw [List.length_append]
    omega
  · refine .inr (.inr ⟨?_, ?_⟩)
    · rw [List.length_append]
      omega
    · rw [messageLength_append hfour]
      exact hlength

/-- **The loop finds no message** in a part of these bytes. -/
theorem Blocked.nextMessage_ne {e : Endian} {buffer bytes completeMessage rest : Bytes}
    (h : Blocked e n (buffer ++ bytes)) (hlight : (buffer ++ bytes).length ≤ n) :
    nextMessage e buffer ≠ .message completeMessage rest := by
  intro hnext
  obtain ⟨hall, -, -⟩ := nextMessage_eq_message.mp hnext
  have hfour : 4 ≤ buffer.length := by omega
  have hsame : messageLength e (buffer ++ bytes) = messageLength e buffer :=
    messageLength_append hfour bytes
  rcases h with hnil | hlong | ⟨-, hlength⟩
  · rw [List.append_eq_nil_iff.mp hnil |>.1] at hfour
    simp at hfour
  · omega
  · rw [hsame] at hlength
    rw [List.length_append] at hlight
    omega

/-- What `ntohl` makes of a short length. -/
theorem le_toNat_ntohl_little {length : ℕ} (hpos : 0 < length) (hshort : length < 2 ^ 16) :
    2 ^ 16 ≤ (Endian.little.ntohl (UInt32.ofNat length)).toNat := by
  have hlength : (UInt32.ofNat length).toNat = length :=
    UInt32.toNat_ofNat_of_lt' (hshort.trans (by decide))
  have hbytes : leBytes 4 length
      = [UInt8.ofNat length, UInt8.ofNat (length / 256), UInt8.ofNat (length / 256 / 256),
        UInt8.ofNat (length / 256 / 256 / 256)] := rfl
  change 2 ^ 16 ≤ (bswap32 (UInt32.ofNat length)).toNat
  rw [toNat_bswap32, hlength, hbytes]
  simp only [List.reverse_cons, List.reverse_nil, List.nil_append, List.cons_append, ofLeBytes,
    UInt8.toNat_ofNat']
  omega

/-- **Every frame blocks the loop** of a little-endian machine until 65540 bytes have come. -/
theorem blocked_frame (publicKey : PublicKey) (item : Item) :
    Blocked .little 65539 (item.frame .little publicKey) := by
  obtain ⟨messageType, payload, hframe, -⟩ := exists_frame .little publicKey item
  rw [hframe]
  have hlen : (frame .little messageType payload).length = 5 + payload.length := by
    simp only [frame, List.length_append, length_bytes, List.length_cons]
    omega
  by_cases hshort : 1 + payload.length < 2 ^ 16
  · refine .inr (.inr ⟨by omega, ?_⟩)
    have hlength := messageLength_frame (e := .little) messageType payload []
    rw [List.append_nil] at hlength
    have hle := le_toNat_ntohl_little (by omega) hshort
    rw [hlength]
    omega
  · exact .inr (.inl (by omega))

/-! ## Steps -/

/-- The nodes are those of a network of messages with the same connections, and what has been sent
is not complete. -/
structure Unheard (n : ℕ) (H : Host) (s : State ι) (m : MessageNetwork.State ι) : Prop where
  parties : m.parties = s.parties
  connected : ∀ i j, (m.links i j).isSome = (s.streams i j).isSome
  blocked : ∀ i j, Blocked H.endian n (unhandled s i j)
  fresh : ∀ i j, s.streams i j = none → s.incomingBuffers j i = []

/-- What the matching steps bring to the nodes is what the step generates. -/
def BringsGenerated (H : Host) (keyOf : ι → NodeKeys H) (a : Action ι)
    (as : List (MessageNetwork.Action ι)) : Prop :=
  ∀ j, as.flatMap (brought H keyOf j) = generated H keyOf j a

theorem Unheard.setParty (h : Unheard n H s m) (i : ι) (p : Party) :
    Unheard n H (s.setParty i p) (m.setParty i p) where
  parties := by
    unfold State.setParty MessageNetwork.State.setParty
    rw [h.parties]
  connected := h.connected
  blocked := h.blocked
  fresh := h.fresh

theorem Unheard.connect (h : Unheard n H s m) {i j : ι} (hstream : s.streams i j = none) :
    Unheard n H (s.setStream i j []) (m.setLink i j []) where
  parties := h.parties
  connected := by
    intro i' j'
    rw [streams_setStream, links_setLink]
    split
    · rfl
    · exact h.connected i' j'
  blocked := by
    intro i' j'
    have hsame : unhandled (s.setStream i j []) i' j' = unhandled s i' j' := by
      unfold unhandled
      rw [streams_setStream]
      split
      · rename_i hij
        rw [hij.1, hij.2, hstream]
        rfl
      · rfl
    rw [hsame]
    exact h.blocked i' j'
  fresh := by
    intro i' j' hnone
    rw [streams_setStream] at hnone
    split at hnone
    · cases hnone
    · exact h.fresh i' j' hnone

theorem Unheard.broadcast (h : Unheard n H s m) {i : ι} {item : Item} {frame : Bytes}
    (hframe : Blocked H.endian n frame) :
    Unheard n H (s.broadcast i frame) (m.broadcast i item) where
  parties := h.parties
  connected := by
    intro i' j'
    rw [streams_broadcast, links_broadcast]
    split
    · rw [Option.isSome_map, Option.isSome_map]
      exact h.connected i' j'
    · exact h.connected i' j'
  blocked := by
    intro i' j'
    have hbefore := h.blocked i' j'
    unfold unhandled at hbefore ⊢
    rw [streams_broadcast]
    split
    · cases hstream : s.streams i' j' with
      | none =>
          rw [hstream] at hbefore
          exact hbefore
      | some bytes =>
          rw [hstream, Option.getD_some] at hbefore
          have hafter := hbefore.append hframe
          rw [List.append_assoc] at hafter
          exact hafter
    · exact hbefore
  fresh := by
    intro i' j' hnone
    rw [streams_broadcast] at hnone
    split at hnone
    · exact h.fresh i' j' (Option.map_eq_none_iff.mp hnone)
    · exact h.fresh i' j' hnone

/-- Reading moves bytes and changes nothing. -/
theorem Unheard.read (h : Unheard n H s m) {i j : ι} {k : ℕ} {bytes : Bytes}
    (hstream : s.streams i j = some bytes) :
    Unheard n H
      (((s.setBuffer i j (s.incomingBuffers j i ++ bytes.take k)).setStream i j
        (bytes.drop k)).setReading j (some i)) m where
  parties := h.parties
  connected := by
    intro i' j'
    change _ = (((s.setBuffer i j _).setStream i j (bytes.drop k)).streams i' j').isSome
    rw [streams_setStream, h.connected i' j']
    split
    · rename_i hij
      rw [hij.1, hij.2, hstream]
      rfl
    · rfl
  blocked := by
    intro i' j'
    have hbefore := h.blocked i' j'
    unfold unhandled at hbefore ⊢
    change Blocked _ _ ((s.setBuffer i j _).incomingBuffers j' i' ++
      (((s.setBuffer i j _).setStream i j (bytes.drop k)).streams i' j').getD [])
    rw [streams_setStream, incomingBuffers_setBuffer]
    by_cases hij : i' = i ∧ j' = j
    · obtain ⟨rfl, rfl⟩ := hij
      rw [if_pos ⟨rfl, rfl⟩, if_pos ⟨rfl, rfl⟩, Option.getD_some, List.append_assoc,
        List.take_append_drop]
      rw [hstream] at hbefore
      exact hbefore
    · rw [if_neg hij, if_neg hij]
      exact hbefore
  fresh := by
    intro i' j' hnone
    change ((s.setBuffer i j _).setStream i j (bytes.drop k)).streams i' j' = none at hnone
    change (s.setBuffer i j _).incomingBuffers j' i' = []
    rw [streams_setStream] at hnone
    rw [incomingBuffers_setBuffer]
    split at hnone
    · cases hnone
    · rename_i hij
      rw [if_neg hij]
      exact h.fresh i' j' hnone

variable {m' : MessageNetwork.State ι} {x : MessageNetwork.Action ι}

/-- A step that is one of the network of messages. -/
theorem matched_step (hstep : MessageNetwork.Step H keyOf m x m')
    (hunheard : Unheard n H t m') (hundisturbed : Undisturbed H keyOf m x)
    (hbrings : ∀ j, brought H keyOf j x = generated H keyOf j a) :
    ∃ as m', BringsGenerated H keyOf a as ∧ MessageNetwork.run H keyOf as m = some m' ∧
      MessageNetwork.Along H keyOf (Undisturbed H keyOf) as m ∧ Unheard n H t m' := by
  refine ⟨[x], m', fun j => ?_, ?_, ⟨hundisturbed, fun _ _ => trivial⟩, hunheard⟩
  · rw [List.flatMap_singleton]
    exact hbrings j
  · rw [MessageNetwork.run, Transition.run_cons, MessageNetwork.step_of_cases hstep]
    rfl

/-- **No step takes anything from one node to another**: each is one of the network of messages in
which nothing is delivered, or none. -/
theorem unheard_step
    (hframes : ∀ i (item : Item), Blocked H.endian n (item.frame H.endian (keyOf i).publicKey)) :
    Simulated (step H keyOf) (MessageNetwork.step H keyOf)
      (fun s a => Light n s a ∧ StoresSucceed s a) (Undisturbed H keyOf) (Unheard n H)
      (BringsGenerated H keyOf) := by
  intro s a t m h hC hstep
  cases step_cases hstep with
  | @connect i j hne hstream =>
      have hlink : m.links i j = none := by
        have hconnected := h.connected i j
        rw [hstream] at hconnected
        simpa using hconnected
      exact matched_step (.connect hne hlink) (h.connect hstream) trivial (fun _ => rfl)
  | @act i a p hact =>
      rw [← h.parties] at hact
      refine matched_step (.act hact) (h.setParty i p) ?_ (fun j => ?_)
      · rw [Undisturbed, h.parties]
        exact hC.2
      · rw [brought, project]
        split
        · rw [List.filterMap_cons, added_of_act hact]
          rfl
        · rfl
  | @generate i recipientPrivateKey p hgenerate =>
      rw [← h.parties] at hgenerate
      exact matched_step (.generate hgenerate) (h.setParty i p) trivial
        (fun j => filterMap_added_map _)
  | @broadcastTime i item p hbroadcast =>
      rw [← h.parties] at hbroadcast
      exact matched_step (.broadcastTime hbroadcast) ((h.setParty i p).broadcast (hframes i item))
        trivial (fun _ => rfl)
  | @broadcastValue i item p hbroadcast =>
      rw [← h.parties] at hbroadcast
      exact matched_step (.broadcastValue hbroadcast) ((h.setParty i p).broadcast (hframes i item))
        trivial (fun _ => rfl)
  | read hstream hn => exact ⟨[], m, fun _ => rfl, rfl, trivial, h.read hstream⟩
  | wait hreading hnext =>
      exact ⟨[], m, fun _ => rfl, rfl, trivial, h.parties, h.connected, h.blocked, h.fresh⟩
  | @message i j completeMessage rest p hreading hnext hhandle =>
      exact absurd hnext ((h.blocked i j).nextMessage_ne (hC.1 i j))

/-! ## Every run -/

omit [DecidableEq ι] in
theorem unheard_of_start {G : GenesisBlocks} {s₀ : State ι} (hstart : start H G ι = some s₀)
    (n : ℕ) : ∃ m₀, MessageNetwork.start H G ι = some m₀ ∧ Unheard n H s₀ m₀ := by
  obtain ⟨p, hp, h⟩ := Option.bind_eq_some_iff.mp hstart
  cases h
  refine ⟨⟨fun _ => p, fun _ _ => none⟩, ?_, rfl, fun _ _ => rfl, fun _ _ => .inl rfl,
    fun _ _ _ => rfl⟩
  rw [MessageNetwork.start, hp]
  rfl

/-- What the nodes hold when no message is ever complete. -/
theorem holdsOwn_of_blocked
    (hframes : ∀ i (item : Item), Blocked H.endian n (item.frame H.endian (keyOf i).publicKey))
    {G : GenesisBlocks} {as : List (Action ι)} {s₀ : State ι} (hstart : start H G ι = some s₀)
    (hrun : run H keyOf as s₀ = some s) (hlight : Along H keyOf (Light n) as s₀)
    (hstores : Along H keyOf StoresSucceed as s₀) (j : ι) :
    HoldsInOrder H G (keyOf j) (as.flatMap (generated H keyOf j)) (s.parties j).node := by
  obtain ⟨m₀, hm₀, hunheard⟩ := unheard_of_start hstart n
  obtain ⟨ass, m, hbrings, hrun', halong, hend⟩ :=
    (unheard_step hframes).run hrun (hlight.and hstores) hunheard
  have hholds := holdsInOrder_network hm₀ hrun' halong j
  have hledger : (ass.flatten.flatMap (project H keyOf j)).filterMap Node.Action.added
      = as.flatMap (generated H keyOf j) := by
    rw [List.filterMap_flatMap]
    exact flatMap_flatten_of_forall₂ (fun _ _ hsame => hsame j) hbrings
  rw [← hend.parties, ← hledger]
  exact hholds

/-- **On little-endian machines the nodes never hear each other.**  In every run in which no file
operation of a store fails, as long as no node has sent another one 65540 bytes, every node holds
two linear chains of its own blocks, and in this value chain, its batch and its pool exactly the
transactions that it has generated, in their order, whatever has been broadcast and read. -/
theorem silent_run (hlittle : H.endian = .little) {G : GenesisBlocks} {as : List (Action ι)}
    {s₀ : State ι} (hstart : start H G ι = some s₀) (hrun : run H keyOf as s₀ = some s)
    (hlight : Along H keyOf (Light 65539) as s₀) (hstores : Along H keyOf StoresSucceed as s₀)
    (j : ι) :
    HoldsInOrder H G (keyOf j) (as.flatMap (generated H keyOf j)) (s.parties j).node := by
  refine holdsOwn_of_blocked (fun i item => ?_) hstart hrun hlight hstores j
  rw [hlittle]
  exact blocked_frame (keyOf i).publicKey item

instance decidableLight [Fintype ι] (n : ℕ) (s : State ι) (a : Action ι) :
    Decidable (Light n s a) := by
  unfold Light
  infer_instance

instance decidableStoresSucceed (s : State ι) (a : Action ι) : Decidable (StoresSucceed s a) := by
  apply Action.casesOn (motive := fun a => Decidable (StoresSucceed s a)) a <;> intros <;>
    dsimp only [StoresSucceed] <;> infer_instance

/-- Keys of two nodes on the sample host. -/
def twoKeys (i : Bool) : NodeKeys tagHost :=
  if i then tagKeys
  else ⟨List.Vector.replicate 32 3, List.Vector.replicate 32 3, by decide⟩

/-- Both nodes generate a transaction, one also produces and broadcasts its blocks, and all that
has been sent is read. -/
def silentSteps : List (Action Bool) :=
  [.connect true false, .connect false true,
    .generate true (List.Vector.replicate 32 2), .broadcastValue true,
    .act true (.produceTime 0 7), .act true (.storeProducedTime .ok), .broadcastTime true,
    .read true false 100, .turn false,
    .generate false (List.Vector.replicate 32 2), .broadcastValue false,
    .read false true 181, .turn true] ++
    (produceValueSteps .ok).map (.act true) ++
    [.broadcastValue true, .read true false 899, .turn false]

theorem silent_run_sample :
    ∃ s₀ s, start tagHost shippedGenesis Bool = some s₀ ∧
      run tagHost twoKeys silentSteps s₀ = some s ∧
      HoldsInOrder tagHost shippedGenesis (twoKeys false)
        (silentSteps.flatMap (generated tagHost twoKeys false)) (s.parties false).node := by
  have hsample : (start tagHost shippedGenesis Bool).any (fun s₀ =>
      (run tagHost twoKeys silentSteps s₀).isSome &&
        (decide (Along tagHost twoKeys (Light 65539) silentSteps s₀) &&
          decide (Along tagHost twoKeys StoresSucceed silentSteps s₀))) = true := by
    decide +kernel
  obtain ⟨s₀, hstart, hsample⟩ := (Option.any_eq_true _ _).mp hsample
  obtain ⟨hrun, halong⟩ := (Bool.and_eq_true _ _).mp hsample
  obtain ⟨hlight, hstores⟩ := (Bool.and_eq_true _ _).mp halong
  obtain ⟨s, hs⟩ := Option.isSome_iff_exists.mp hrun
  exact ⟨s₀, s, hstart, hs,
    silent_run rfl hstart hs (of_decide_eq_true hlight) (of_decide_eq_true hstores) false⟩

end ByteNetwork

end CoinPlatform
