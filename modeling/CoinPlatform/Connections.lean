/-
# Connections

`NetworkManager` opens a `PeerSession` for every accepted or established connection, and each
session reads its own socket.  What it reads goes to `handle_incoming_data` under the address of
the peer, which is all that `incoming_buffers_` tells the connections apart by.  Two connections
with the same address share a buffer, and closing one leaves its bytes there.

* `separate_step`: the buffers stay apart as long as a session reads only when no other one from
  its address has left a message incomplete.
* `independent_run`: in every run of such reads each session is decoded as if it were alone.
* `not_independent_run`: a peer that reconnects after half of a length is not understood.
-/
import CoinPlatform.Chunking
import CoinPlatform.Transition

open ByteOrder StdVector Reassembly

namespace CoinPlatform

namespace NetworkManager

open Node

/-! ## Sessions -/

/-- `PeerSession`: the address of the peer and whether its socket is open; what has been read on
it, and the messages that were passed on for it, are recorded. -/
structure PeerSession where
  ip : IPAddress
  isOpen : Bool
  chunks : List Bytes
  messages : List Bytes

/-- What has been read is recorded. -/
def PeerSession.record (session : PeerSession) (data : Bytes) (messages : List Bytes) :
    PeerSession :=
  { session with chunks := session.chunks ++ [data], messages := session.messages ++ messages }

/-- The sessions that have been created, open or not, the buffers and the state of the node. -/
structure State (σ : Type) where
  sessions : ℕ → Option PeerSession
  incomingBuffers : IPAddress → Bytes
  node : σ

/-- What happens on a connection. -/
inductive Action where
  | start (session : ℕ) (ip : IPAddress)
  | read (session : ℕ) (data : Bytes)
  | close (session : ℕ)

/-- Before the first connection. -/
def initial {σ : Type} (node : σ) : State σ := ⟨fun _ => none, fun _ => [], node⟩

variable {σ : Type} (e : Endian) (process : IPAddress → Bytes → σ → Except Fault σ)

/-- One event; `none` when the session is not there, or when an exception ends the process.
`process` is `process_complete_message`. -/
def step (a : Action) (s : State σ) : Option (State σ) :=
  match a with
  | .start i ip =>
    match s.sessions i with
    | none => some { s with
        sessions := Function.update s.sessions i (some ⟨ip, true, [], []⟩) }
    | some _ => none
  | .read i data =>
    match s.sessions i with
    | none => none
    | some session =>
      if session.isOpen then
        -- the buffer is that of the address, not of the session
        let (incomingBuffers, r) := handleIncomingData e (process session.ip) s.incomingBuffers
          session.ip data s.node
        match r.fault with
        | some _ => none
        | none => some {
            sessions := Function.update s.sessions i (some (session.record data r.messages))
            incomingBuffers := incomingBuffers
            node := r.state }
      else none
  | .close i =>
    match s.sessions i with
    | none => none
    | some session => some { s with
        sessions := Function.update s.sessions i (some { session with isOpen := false }) }

/-- A run of the connections. -/
abbrev run := Transition.run (step e process)

/-- The chunks of the session, delivered alone to a node without a buffer. -/
def PeerSession.alone (session : PeerSession) :
    List Bytes × Except Fault ((IPAddress → Bytes) × Unit) :=
  deliver e (fun _ node => .ok node) session.ip session.chunks (fun _ => []) ()

/-- What is left of them then: the beginning of a message. -/
def PeerSession.rest (session : PeerSession) : Bytes :=
  match (session.alone e).2 with
  | .ok (incomingBuffers, _) => incomingBuffers session.ip
  | .error _ => []

/-- The messages passed on for a session are those of its own chunks. -/
def Independent (s : State σ) : Prop :=
  ∀ i session, s.sessions i = some session → session.messages = (session.alone e).1

/-- A session reads when no other session from its address has left a message incomplete. -/
def ReadsApart (s : State σ) (a : Action) : Prop :=
  match a with
  | .read i _ => ∀ session, s.sessions i = some session →
    ∀ j other, j ≠ i → s.sessions j = some other → other.ip = session.ip → other.rest e = []
  | _ => True

/-! ## One session alone -/

variable {e process}

/-- Alone, a session feeds the decoder. -/
theorem alone_eq (session : PeerSession) : session.alone e = withBuffer (fun _ => []) session.ip
    (feed (frameDecoder e) (fun _ node => .ok node) session.chunks [] ()) := deliver_eq_feed

/-- The session has been decoded as if it were alone. -/
def PeerSession.Decoded (e : Endian) (session : PeerSession) : Prop :=
  feed (frameDecoder e) (fun _ node => .ok node) session.chunks [] ()
    = (session.messages, .ok (session.rest e, ()))

theorem decoded_of_feed {session : PeerSession} {rest : Bytes}
    (h : feed (frameDecoder e) (fun _ node => .ok node) session.chunks [] ()
      = (session.messages, .ok (rest, ()))) :
    session.rest e = rest ∧ session.Decoded e := by
  have hrest : session.rest e = rest := by
    rw [PeerSession.rest, alone_eq, h]
    exact Function.update_self ..
  exact ⟨hrest, by rw [PeerSession.Decoded, hrest]; exact h⟩

/-- A session that reads on from its own rest is still decoded as if it were alone. -/
theorem decoded_record {session : PeerSession} {node : σ} {data : Bytes} {r : Reception σ}
    (hs : session.Decoded e) (hr : receive e (process session.ip) (session.rest e ++ data) node = r)
    (hfault : r.fault = none) :
    (session.record data r.messages).rest e = r.buffer ∧
      (session.record data r.messages).Decoded e := by
  have hdecode : decode (frameDecoder e) (process session.ip) (session.rest e ++ data) node
      = (r.messages, .ok (r.buffer, r.state)) := by
    rw [← outcome_receive, hr, Reception.outcome, hfault]
  refine decoded_of_feed ?_
  rw [PeerSession.record, feed_concat_of_ok hs data, decode_total_of_ok hdecode ()]
  rfl

/-! ## All sessions -/

/-- The invariant: every session has been decoded as if it were alone, and the buffer of an
address holds what is left of one session, where nothing is left of the other ones. -/
structure Separate (e : Endian) (s : State σ) : Prop where
  decoded : ∀ i session, s.sessions i = some session → session.Decoded e
  buffer : ∀ i session, s.sessions i = some session →
    (∀ j other, j ≠ i → s.sessions j = some other → other.ip = session.ip → other.rest e = []) →
    s.incomingBuffers session.ip = session.rest e
  empty : ∀ ip, (∀ i session, s.sessions i = some session → session.ip ≠ ip) →
    s.incomingBuffers ip = []

theorem separate_initial (node : σ) : Separate e (initial node) where
  decoded := fun _ _ h => nomatch h
  buffer := fun _ _ h => nomatch h
  empty := fun _ _ => rfl

/-! ## One event -/

/-- The ways an event can go. -/
inductive Step (e : Endian) (process : IPAddress → Bytes → σ → Except Fault σ) (s : State σ) :
    Action → State σ → Prop
  | start {i ip} (hnew : s.sessions i = none) :
      Step e process s (.start i ip)
        { s with sessions := Function.update s.sessions i (some ⟨ip, true, [], []⟩) }
  | read {i data session r} (hi : s.sessions i = some session)
      (hreceive : receive e (process session.ip) (s.incomingBuffers session.ip ++ data) s.node = r)
      (hfault : r.fault = none) :
      Step e process s (.read i data)
        { sessions := Function.update s.sessions i (some (session.record data r.messages))
          incomingBuffers := Function.update s.incomingBuffers session.ip r.buffer
          node := r.state }
  | close {i session} (hi : s.sessions i = some session) :
      Step e process s (.close i)
        { s with sessions := Function.update s.sessions i (some { session with isOpen := false }) }

section Step

variable {s t : State σ} {i j : ℕ} {session other : PeerSession}

/-- **Every event is one of the listed ones.** -/
theorem step_cases {a : Action} (h : step e process a s = some t) : Step e process s a t := by
  cases a with
  | start i ip =>
      simp only [step] at h
      split at h
      · rename_i hnew
        cases h
        exact .start hnew
      · cases h
  | read i data =>
      simp only [step] at h
      split at h
      · cases h
      · rename_i session hi
        split at h
        · split at h
          · cases h
          · rename_i hfault
            cases h
            exact .read hi rfl hfault
        · cases h
  | close i =>
      simp only [step] at h
      split at h
      · cases h
      · rename_i session hi
        cases h
        exact .close hi

/-- Where nothing is left of any session from an address, its buffer is empty. -/
theorem Separate.buffer_eq_nil (hs : Separate e s) {ip : IPAddress}
    (h : ∀ j other, s.sessions j = some other → other.ip = ip → other.rest e = []) :
    s.incomingBuffers ip = [] := by
  by_cases hany : ∃ j other, s.sessions j = some other ∧ other.ip = ip
  · obtain ⟨j, other, hj, rfl⟩ := hany
    rw [hs.buffer j other hj fun k c _ hk hip => h k c hk hip, h j other hj rfl]
  · exact hs.empty ip fun j other hj hip => hany ⟨j, other, hj, hip⟩

/-- A session that is there is not the new one. -/
theorem ne_of_new (hnew : s.sessions i = none) (hj : s.sessions j = some other) : j ≠ i := by
  rintro rfl
  rw [hnew] at hj
  cases hj

/-- A new session has nothing left. -/
theorem separate_start (hs : Separate e s) {ip : IPAddress} (hnew : s.sessions i = none) :
    Separate e { s with
      sessions := Function.update s.sessions i (some ⟨ip, true, [], []⟩) } := by
  have hfeed : feed (frameDecoder e) (fun _ node => .ok node)
      (⟨ip, true, [], []⟩ : PeerSession).chunks [] () = ([], .ok ([], ())) := rfl
  obtain ⟨hrest, hdecoded⟩ := decoded_of_feed hfeed
  have hold : ∀ j other, s.sessions j = some other →
      Function.update s.sessions i (some ⟨ip, true, [], []⟩) j = some other := by
    intro j other hj
    rw [Function.update_of_ne (ne_of_new hnew hj), hj]
  constructor
  · intro j session hj
    rcases Slots.eq_or_of_update hj with ⟨-, rfl⟩ | ⟨-, hj⟩
    · exact hdecoded
    · exact hs.decoded j session hj
  · intro j session hj hothers
    rcases Slots.eq_or_of_update hj with ⟨rfl, rfl⟩ | ⟨-, hj⟩
    · rw [hrest]
      apply hs.buffer_eq_nil
      intro k other hk hip
      exact hothers k other (ne_of_new hnew hk) (hold k other hk) hip
    · apply hs.buffer j session hj
      intro k other hkj hk hip
      exact hothers k other hkj (hold k other hk) hip
  · intro ip' hnot
    apply hs.empty
    intro j session hj
    exact hnot j session (hold j session hj)

/-- A session that reads apart leaves its own rest in the buffer. -/
theorem separate_read (hs : Separate e s) {data : Bytes} {r : Reception σ}
    (hi : s.sessions i = some session)
    (hothers : ∀ j other, j ≠ i → s.sessions j = some other → other.ip = session.ip →
      other.rest e = [])
    (hreceive : receive e (process session.ip) (s.incomingBuffers session.ip ++ data) s.node = r)
    (hfault : r.fault = none) :
    Separate e {
      sessions := Function.update s.sessions i (some (session.record data r.messages))
      incomingBuffers := Function.update s.incomingBuffers session.ip r.buffer
      node := r.state } := by
  rw [hs.buffer i session hi hothers] at hreceive
  obtain ⟨hrest, hdecoded⟩ := decoded_record (hs.decoded i session hi) hreceive hfault
  constructor
  · intro j c hj
    rcases Slots.eq_or_of_update hj with ⟨-, rfl⟩ | ⟨-, hj⟩
    · exact hdecoded
    · exact hs.decoded j c hj
  · intro j c hj hrests
    rcases Slots.eq_or_of_update hj with ⟨rfl, rfl⟩ | ⟨hji, hj⟩
    · rw [hrest]
      exact Function.update_self ..
    · by_cases hip : c.ip = session.ip
      · -- nothing is left of either session
        have hnil := hrests i _ (Ne.symm hji) (Function.update_self ..) hip.symm
        rw [hrest] at hnil
        simp only [hip, Function.update_self, hnil, hothers j c hji hj hip]
      · simp only [Function.update_of_ne hip]
        apply hs.buffer j c hj
        intro k other hkj hk hkip
        have hki : k ≠ i := by
          rintro rfl
          rw [hi] at hk
          cases hk
          exact hip hkip.symm
        exact hrests k other hkj (by simp only [Function.update_of_ne hki, hk]) hkip
  · intro ip hnot
    have hip : ip ≠ session.ip := fun heq => hnot i _ (Function.update_self ..) heq.symm
    simp only [Function.update_of_ne hip]
    apply hs.empty
    intro j c hj
    by_cases hji : j = i
    · subst hji
      rw [hi] at hj
      cases hj
      exact hip.symm
    · exact hnot j c (by simp only [Function.update_of_ne hji, hj])

/-- Closing a session changes nothing of what has been read. -/
theorem separate_close (hs : Separate e s) (hi : s.sessions i = some session) :
    Separate e { s with
      sessions := Function.update s.sessions i (some { session with isOpen := false }) } := by
  have hnew : ∀ j c, s.sessions j = some c → ∃ c', c'.ip = c.ip ∧ c'.rest e = c.rest e ∧
      Function.update s.sessions i (some { session with isOpen := false }) j = some c' := by
    intro j c hj
    by_cases hji : j = i
    · subst hji
      rw [hi] at hj
      cases hj
      exact ⟨{ session with isOpen := false }, rfl, rfl, Function.update_self ..⟩
    · exact ⟨c, rfl, rfl, by rw [Function.update_of_ne hji, hj]⟩
  have hbuffer : ∀ j c, s.sessions j = some c →
      (∀ k other, k ≠ j →
        Function.update s.sessions i (some { session with isOpen := false }) k = some other →
        other.ip = c.ip → other.rest e = []) →
      s.incomingBuffers c.ip = c.rest e := by
    intro j c hj hothers
    apply hs.buffer j c hj
    intro k other hkj hk hip
    obtain ⟨other', hip', hrest', hk'⟩ := hnew k other hk
    rw [← hrest']
    exact hothers k other' hkj hk' (hip'.trans hip)
  constructor
  · intro j c hj
    rcases Slots.eq_or_of_update hj with ⟨-, rfl⟩ | ⟨-, hj⟩
    · exact hs.decoded i session hi
    · exact hs.decoded j c hj
  · intro j c hj hothers
    rcases Slots.eq_or_of_update hj with ⟨rfl, rfl⟩ | ⟨-, hj⟩
    · exact hbuffer j session hi hothers
    · exact hbuffer j c hj hothers
  · intro ip hnot
    apply hs.empty
    intro j c hj
    obtain ⟨c', hip', -, hj'⟩ := hnew j c hj
    rw [← hip']
    exact hnot j c' hj'

/-- **Every event keeps the sessions apart**, where they read apart. -/
theorem separate_step {a : Action} (hs : Separate e s) (hapart : ReadsApart e s a)
    (h : step e process a s = some t) : Separate e t := by
  cases step_cases h with
  | start hnew => exact separate_start hs hnew
  | read hi hreceive hfault => exact separate_read hs hi (hapart _ hi) hreceive hfault
  | close hi => exact separate_close hs hi

end Step

/-! ## Runs -/

/-- **Connections are decoded independently where they read apart**, in every run from the
first connection on. -/
theorem independent_run {as : List Action} {node : σ} {s : State σ}
    (hrun : run e process as (initial node) = some s)
    (hapart : Transition.Along (step e process) (ReadsApart e) as (initial node)) :
    Independent e s := by
  have hs : Separate e s := Transition.run_invariant
    (fun s a t hs hapart h => separate_step hs hapart h) hrun hapart (separate_initial node)
  intro i session hi
  rw [alone_eq, hs.decoded i session hi]
  rfl

/-- A whole message is passed on, and nothing is left. -/
theorem receive_nine {τ : Type} (process : Bytes → τ → Except Fault τ) {node node' : τ}
    (h : process [9] node = .ok node') :
    receive .little process [1, 0, 0, 0, 9] node = ⟨[[9]], [], node', none⟩ := by
  have hnext : nextMessage .little [1, 0, 0, 0, 9] = .message [9] [] := by decide
  have hrest : receive .little process [] node' = ⟨[], [], node', none⟩ :=
    receive_of_wait (by decide)
  rw [receive_of_message hnext]
  simp only [h, hrest]

/-- What a session that has read it is decoded to when it is alone. -/
theorem alone_nine {session : PeerSession} (h : session.chunks = [[1, 0, 0, 0, 9]]) :
    (session.alone .little).1 = [[9]] ∧ session.rest .little = [] := by
  have hdeliver : session.alone .little
      = ([[9]], .ok (Function.update (fun _ => []) session.ip [], ())) := by
    have hreceive : receive .little (fun _ node => .ok node) [1, 0, 0, 0, 9] ()
        = ⟨[[9]], [], (), none⟩ := receive_nine _ rfl
    rw [PeerSession.alone, h, deliver]
    simp only [handleIncomingData, List.nil_append, hreceive, deliver, prepend, List.append_nil]
  refine ⟨by rw [hdeliver], ?_⟩
  rw [PeerSession.rest, hdeliver]
  exact Function.update_self ..

/-- A peer that reconnects after a whole message. -/
theorem independent_run_reconnect :
    ∃ s, run .little (fun _ _ count => .ok (count + 1)) [.start 0 "127.0.0.1",
        .read 0 [1, 0, 0, 0, 9], .close 0, .start 1 "127.0.0.1", .read 1 [1, 0, 0, 0, 9]]
        (initial 0) = some s ∧ Independent .little s := by
  have hnine : ∀ n : ℕ, receive .little (fun _ count => .ok (count + 1)) [1, 0, 0, 0, 9] n
      = ⟨[[9]], [], n + 1, none⟩ := fun n => receive_nine _ rfl
  obtain ⟨s, hrun⟩ : ∃ s, run .little (fun _ _ count => .ok (count + 1)) [.start 0 "127.0.0.1",
      .read 0 [1, 0, 0, 0, 9], .close 0, .start 1 "127.0.0.1", .read 1 [1, 0, 0, 0, 9]]
      (initial 0) = some s := by
    simp [run, Transition.run_cons, step, initial, handleIncomingData, hnine]
  refine ⟨s, hrun, independent_run hrun ?_⟩
  refine ⟨trivial, fun t ht => ⟨?_, fun t' ht' => ⟨trivial, fun u hu => ⟨trivial,
    fun u' hu' => ⟨?_, fun _ _ => trivial⟩⟩⟩⟩⟩
  · cases step_cases ht with
    | start hnew =>
      rintro session - j other hj hother -
      rcases Slots.eq_or_of_update hother with ⟨rfl, -⟩ | ⟨-, hother⟩
      · exact absurd rfl hj
      · cases hother
  · cases step_cases ht with
    | start hnew =>
    cases step_cases ht' with
    | read hi hreceive hfault =>
    cases step_cases hu with
    | close hi' =>
    cases step_cases hu' with
    | start hnew' =>
      rintro session - j other hj hother -
      rcases Slots.eq_or_of_update hother with ⟨rfl, -⟩ | ⟨-, hother⟩
      · exact absurd rfl hj
      rcases Slots.eq_or_of_update hother with ⟨rfl, rfl⟩ | ⟨hj₀, hother⟩
      · -- the first session is closed, and has read a whole message
        cases hi
        cases hi'
        exact (alone_nine rfl).2
      · simp only [Function.update_of_ne hj₀] at hother
        cases hother

/-- **A peer that reconnects after half of a length**: the message on the new connection is
taken for the rest of the old one. -/
theorem not_independent_run :
    ∃ s, run .little (fun _ _ count => .ok (count + 1)) [.start 0 "127.0.0.1", .read 0 [1, 0],
        .close 0, .start 1 "127.0.0.1", .read 1 [1, 0, 0, 0, 9]] (initial 0) = some s ∧
      ¬ Independent .little s := by
  have hhalf : receive .little (fun _ count => .ok (count + 1)) [1, 0] 0
      = ⟨[], [1, 0], 0, none⟩ := receive_of_wait (by decide)
  have hboth : receive .little (fun _ count => .ok (count + 1)) [1, 0, 1, 0, 0, 0, 9] 0
      = ⟨[], [1, 0, 1, 0, 0, 0, 9], 0, none⟩ := receive_of_wait (by decide)
  obtain ⟨s, hrun, session, hi, hchunks, hmessages⟩ :
      ∃ s, run .little (fun _ _ count => .ok (count + 1)) [.start 0 "127.0.0.1", .read 0 [1, 0],
          .close 0, .start 1 "127.0.0.1", .read 1 [1, 0, 0, 0, 9]] (initial 0) = some s ∧
        ∃ session, s.sessions 1 = some session ∧ session.chunks = [[1, 0, 0, 0, 9]] ∧
          session.messages = [] := by
    simp [run, Transition.run_cons, step, initial, handleIncomingData, hhalf, hboth,
      PeerSession.record]
  refine ⟨s, hrun, fun hindependent => ?_⟩
  have hsame := hindependent 1 session hi
  rw [(alone_nine hchunks).1, hmessages] at hsame
  cases hsame

end NetworkManager

end CoinPlatform
