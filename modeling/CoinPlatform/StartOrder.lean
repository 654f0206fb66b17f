/-
# The order of the start

`Node::start` calls `network_manager_->start`, which starts the acceptor on its own thread, then
`set_receive_callback`, and then connects to the known peers.  A session copies the callback once,
when it starts; one without a callback goes on reading and drops what it reads.

* `heard_concat`: which sessions have started after the callback was set, event by event.
* `hearsAll_iff`: what is read on the sessions is passed to `handle_incoming_data` exactly when
  those that read anything have started after the callback was set.
* `heard_of_connected`: the connections that the node has made itself have.
-/
import CoinPlatform.Framing
import CoinPlatform.Transition

open Transition

namespace CoinPlatform

namespace StartOrder

open Node

/-! ## Events -/

/-- What a session can have for a callback: the function that `Node::start` sets, which calls
`handle_incoming_data`. -/
inductive Callback where
  | handleIncomingData
  deriving DecidableEq

/-- `PeerSession`: the address of the peer, whether the socket is open, and the callback; what has
been passed to `handle_incoming_data` is recorded. -/
structure PeerSession where
  ip : IPAddress
  isOpen : Bool
  readCallback : Option Callback
  passed : List Bytes

/-- `PeerSession::start`, on a new connection. -/
def PeerSession.start (ip : IPAddress) (receiveCallback : Option Callback) : PeerSession :=
  ⟨ip, true, receiveCallback, []⟩

/-- The handler of `PeerSession::read`. -/
def PeerSession.read (data : Bytes) (session : PeerSession) : PeerSession :=
  match session.readCallback with
  | some .handleIncomingData => { session with passed := session.passed ++ [data] }
  | none => session

/-- How far `Node::start` has come: before the network manager is started, before the callback is
set, and connecting to the known peers. -/
inductive Phase where
  | initialized
  | listening
  | connecting
  deriving DecidableEq

structure State where
  phase : Phase
  receiveCallback : Option Callback
  /-- The outgoing connections that have not been established yet. -/
  connections : List IPAddress
  sessions : ℕ → Option PeerSession

/-- The components have been initialized. -/
def initial : State := ⟨.initialized, none, [], fun _ => none⟩

/-- The steps of `Node::start`, and the completions on the thread of the network manager. -/
inductive Action where
  | startNetwork
  | setReceiveCallback
  | connectToPeer (name : IPAddress)
  | accept (i : ℕ) (ip : IPAddress)
  | connected (i n : ℕ) (ip : IPAddress)
  | read (i : ℕ) (data : Bytes)
  | close (i : ℕ)
  deriving DecidableEq

/-- A session is started with the callback that is set at that time. -/
def State.startSession (i : ℕ) (ip : IPAddress) (s : State) : State :=
  { s with sessions := Function.update s.sessions i (some (.start ip s.receiveCallback)) }

/-- One event; `none` when it is not possible. -/
def step (a : Action) (s : State) : Option State :=
  match a with
  | .startNetwork =>
    if s.phase = .initialized then some { s with phase := .listening } else none
  | .setReceiveCallback =>
    if s.phase = .listening then
      some { s with phase := .connecting, receiveCallback := some .handleIncomingData }
    else none
  | .connectToPeer name =>
    if s.phase = .connecting then some { s with connections := s.connections ++ [name] } else none
  | .accept i ip =>
    if s.phase ≠ .initialized ∧ s.sessions i = none then some (s.startSession i ip) else none
  | .connected i n ip =>
    if n < s.connections.length ∧ s.sessions i = none then
      some { s.startSession i ip with connections := s.connections.eraseIdx n }
    else none
  | .read i data =>
    match s.sessions i with
    | none => none
    | some session =>
      if session.isOpen then
        some { s with sessions := Function.update s.sessions i (some (session.read data)) }
      else none
  | .close i =>
    match s.sessions i with
    | none => none
    | some session =>
      some { s with
        sessions := Function.update s.sessions i (some { session with isOpen := false }) }

/-! ## What should be heard -/

/-- The chunk that is read on the session. -/
def Action.chunk (i : ℕ) : Action → Option Bytes
  | .read j data => if j = i then some data else none
  | _ => none

/-- The chunks that are read on the session. -/
def chunksRead (i : ℕ) (actions : List Action) : List Bytes := actions.filterMap (Action.chunk i)

/-- The event starts the session. -/
def Action.Starts (i : ℕ) : Action → Prop
  | .accept j _ => j = i
  | .connected j _ _ => j = i
  | _ => False

/-- The session is started after the callback has been set. -/
def Heard (i : ℕ) (actions : List Action) : Prop :=
  ∃ before after, actions = before ++ after ∧ Action.setReceiveCallback ∈ before ∧
    ∃ a ∈ after, a.Starts i

/-- All that is read on a session is passed to `handle_incoming_data`. -/
def HearsAll (actions : List Action) : Prop :=
  ∀ s, run step actions initial = some s → ∀ i session, s.sessions i = some session →
    session.passed = chunksRead i actions

variable {s t : State} {i j : ℕ} {a : Action} {past actions : List Action}

/-- **One event more**: it may start the session, when the callback has been set before. -/
theorem heard_concat : Heard i (past ++ [a]) ↔
    Heard i past ∨ (Action.setReceiveCallback ∈ past ∧ a.Starts i) := by
  constructor
  · rintro ⟨before, after, hsplit, hset, x, hx, hstarts⟩
    rcases List.eq_nil_or_concat after with rfl | ⟨after, last, rfl⟩
    · cases hx
    · rw [List.concat_eq_append, ← List.append_assoc] at hsplit
      obtain ⟨rfl, hlast⟩ := List.append_inj' hsplit rfl
      obtain rfl : a = last := List.singleton_inj.mp hlast
      rw [List.concat_eq_append] at hx
      rcases List.mem_append.mp hx with hx | hx
      · exact .inl ⟨before, after, rfl, hset, x, hx, hstarts⟩
      · rw [List.mem_singleton.mp hx] at hstarts
        exact .inr ⟨List.mem_append_left _ hset, hstarts⟩
  · rintro (⟨before, after, rfl, hset, x, hx, hstarts⟩ | ⟨hset, hstarts⟩)
    · exact ⟨before, after ++ [a], List.append_assoc .., hset, x, List.mem_append_left _ hx,
        hstarts⟩
    · exact ⟨past, [a], rfl, hset, a, List.mem_singleton_self a, hstarts⟩

theorem chunksRead_concat :
    chunksRead i (past ++ [a]) = chunksRead i past ++ (a.chunk i).toList := by
  rw [chunksRead, chunksRead, List.filterMap_append]
  cases h : a.chunk i <;> simp [h]

theorem chunksRead_ne_nil : chunksRead i actions ≠ [] ↔ ∃ data, Action.read i data ∈ actions := by
  rw [← List.length_pos_iff, List.length_pos_iff_exists_mem]
  simp only [chunksRead, List.mem_filterMap]
  constructor
  · rintro ⟨data, x, hx, hchunk⟩
    cases x with
    | read j data' =>
        simp only [Action.chunk] at hchunk
        split at hchunk
        · rename_i hj
          exact ⟨data', hj ▸ hx⟩
        · cases hchunk
    | _ => cases hchunk
  · rintro ⟨data, hx⟩
    exact ⟨data, _, hx, if_pos rfl⟩

/-! ## The invariant -/

/-- **The invariant**: a session has a callback when it was started after the callback had been
set, and then everything has been passed on; without a callback, nothing. -/
structure Listening (past : List Action) (s : State) : Prop where
  callback : s.receiveCallback.isSome ↔ Action.setReceiveCallback ∈ past
  heard : ∀ i session, s.sessions i = some session → (session.readCallback.isSome ↔ Heard i past)
  passed : ∀ i session, s.sessions i = some session →
    session.passed = if session.readCallback.isSome then chunksRead i past else []
  absent : ∀ i, s.sessions i = none → ¬ Heard i past ∧ chunksRead i past = []
  connections : s.connections ≠ [] → s.receiveCallback.isSome
  phase : s.phase = .connecting → s.receiveCallback.isSome

theorem listening_initial : Listening [] initial where
  callback := by simp [initial]
  heard := fun _ _ h => by cases h
  passed := fun _ _ h => by cases h
  absent := by
    refine fun i _ => ⟨?_, rfl⟩
    rintro ⟨before, after, hnil, hset, -⟩
    rw [(List.append_eq_nil_iff.mp hnil.symm).1] at hset
    cases hset
  connections := fun h => absurd rfl h
  phase := fun h => by cases h

theorem heard_concat_of_not_starts (h : ¬ a.Starts i) : Heard i (past ++ [a]) ↔ Heard i past := by
  rw [heard_concat]
  exact or_iff_left (fun hstarts => h hstarts.2)

theorem chunksRead_concat_of_none (h : a.chunk i = none) :
    chunksRead i (past ++ [a]) = chunksRead i past := by
  rw [chunksRead_concat, h, Option.toList_none, List.append_nil]

/-- What the invariant knows of a session. -/
def PeerSession.face (session : PeerSession) : Option Callback × List Bytes :=
  (session.readCallback, session.passed)

/-- An event that starts no session and reads nothing. -/
theorem Listening.of_face (h : Listening past s) (hstarts : ∀ i, ¬ a.Starts i)
    (hchunk : ∀ i, a.chunk i = none)
    (hface : ∀ i, (t.sessions i).map PeerSession.face = (s.sessions i).map PeerSession.face)
    (hcallback : t.receiveCallback.isSome ↔ Action.setReceiveCallback ∈ past ++ [a])
    (hconnections : t.connections ≠ [] → t.receiveCallback.isSome)
    (hphase : t.phase = .connecting → t.receiveCallback.isSome) : Listening (past ++ [a]) t := by
  refine ⟨hcallback, fun i session hi => ?_, fun i session hi => ?_, fun i hi => ?_,
    hconnections, hphase⟩
  · obtain ⟨session', hsession', hsame⟩ := Slots.exists_of_face hface hi
    rw [heard_concat_of_not_starts (hstarts i), ← h.heard i session' hsession',
      (Prod.mk.inj hsame).1]
  · obtain ⟨session', hsession', hsame⟩ := Slots.exists_of_face hface hi
    obtain ⟨hreadCallback, hpassed⟩ := Prod.mk.inj hsame
    rw [chunksRead_concat_of_none (hchunk i), ← hpassed, ← hreadCallback]
    exact h.passed i session' hsession'
  · have hi' := hface i
    rw [hi, Option.map_none] at hi'
    rw [heard_concat_of_not_starts (hstarts i), chunksRead_concat_of_none (hchunk i)]
    exact h.absent i (Option.map_eq_none_iff.mp hi'.symm)

/-- An event that starts a session. -/
theorem Listening.startSession (h : Listening past s) (hnew : s.sessions i = none)
    (hstarts : ∀ j, a.Starts j ↔ i = j) (hchunk : ∀ i, a.chunk i = none)
    (hset : a ≠ .setReceiveCallback) {ip : IPAddress} {connections : List IPAddress}
    (hconnections : connections ≠ [] → s.receiveCallback.isSome) :
    Listening (past ++ [a]) { s.startSession i ip with connections := connections } := by
  have hcallback : s.receiveCallback.isSome ↔ Action.setReceiveCallback ∈ past ++ [a] := by
    rw [h.callback, List.mem_append, List.mem_singleton]
    exact (or_iff_left hset.symm).symm
  refine ⟨hcallback, fun j session hj => ?_, fun j session hj => ?_, fun j hj => ?_,
    hconnections, h.phase⟩
  · rcases Slots.eq_or_of_update hj with ⟨rfl, rfl⟩ | ⟨hij, hj⟩
    · rw [heard_concat, hstarts, ← h.callback]
      change s.receiveCallback.isSome ↔ _
      rw [and_iff_left rfl]
      exact (or_iff_right (h.absent j hnew).1).symm
    · rw [heard_concat_of_not_starts (fun hs => hij ((hstarts j).mp hs).symm)]
      exact h.heard j session hj
  · rw [chunksRead_concat_of_none (hchunk j)]
    rcases Slots.eq_or_of_update hj with ⟨rfl, rfl⟩ | ⟨-, hj⟩
    · rw [(h.absent j hnew).2, ite_self]
      rfl
    · exact h.passed j session hj
  · obtain ⟨hij, hj⟩ := Slots.ne_of_update_eq_none hj
    rw [heard_concat_of_not_starts (fun hs => hij ((hstarts j).mp hs).symm),
      chunksRead_concat_of_none (hchunk j)]
    exact h.absent j hj

theorem readCallback_read (data : Bytes) (session : PeerSession) :
    (session.read data).readCallback = session.readCallback := by
  unfold PeerSession.read
  split <;> rfl

theorem passed_read (data : Bytes) (session : PeerSession) : (session.read data).passed
    = if session.readCallback.isSome then session.passed ++ [data] else session.passed := by
  unfold PeerSession.read
  cases h : session.readCallback with
  | none => rfl
  | some callback => cases callback; rfl

/-- An event that reads a chunk. -/
theorem Listening.read (h : Listening past s) {session : PeerSession}
    (hi : s.sessions i = some session) (data : Bytes) :
    Listening (past ++ [.read i data])
      { s with sessions := Function.update s.sessions i (some (session.read data)) } := by
  have hstarts : ∀ j, ¬ (Action.read i data).Starts j := fun _ hs => hs
  have hother : ∀ j, j ≠ i →
      chunksRead j (past ++ [.read i data]) = chunksRead j past :=
    fun j hij => chunksRead_concat_of_none (if_neg (Ne.symm hij))
  have hthis : chunksRead i (past ++ [.read i data]) = chunksRead i past ++ [data] := by
    rw [chunksRead_concat, Action.chunk, if_pos rfl]
    rfl
  refine ⟨?_, fun j session' hj => ?_, fun j session' hj => ?_, fun j hj => ?_,
    h.connections, h.phase⟩
  · rw [List.mem_append, List.mem_singleton, ← h.callback]
    exact (or_iff_left (fun heq => by cases heq)).symm
  · rw [heard_concat_of_not_starts (hstarts j)]
    rcases Slots.eq_or_of_update hj with ⟨rfl, rfl⟩ | ⟨-, hj⟩
    · rw [readCallback_read]
      exact h.heard j session hi
    · exact h.heard j session' hj
  · rcases Slots.eq_or_of_update hj with ⟨rfl, rfl⟩ | ⟨hij, hj⟩
    · have hpassed := h.passed j session hi
      rw [readCallback_read, passed_read, hthis, hpassed]
      split <;> rfl
    · rw [hother j hij]
      exact h.passed j session' hj
  · obtain ⟨hij, hj⟩ := Slots.ne_of_update_eq_none hj
    rw [heard_concat_of_not_starts (hstarts j), hother j hij]
    exact h.absent j hj

/-- **Every event keeps the invariant.** -/
theorem listening_step (h : Listening past s) (hstep : step a s = some t) :
    Listening (past ++ [a]) t := by
  have hkept : ∀ b : Action, b ≠ .setReceiveCallback →
      (s.receiveCallback.isSome ↔ Action.setReceiveCallback ∈ past ++ [b]) := by
    intro b hb
    rw [h.callback, List.mem_append, List.mem_singleton]
    exact (or_iff_left hb.symm).symm
  cases a with
  | startNetwork =>
      simp only [step] at hstep
      split at hstep
      · cases hstep
        exact h.of_face (fun _ hs => hs) (fun _ => rfl) (fun _ => rfl)
          (hkept _ (fun heq => by cases heq)) h.connections (fun heq => by cases heq)
      · cases hstep
  | setReceiveCallback =>
      simp only [step] at hstep
      split at hstep
      · cases hstep
        refine h.of_face (fun _ hs => hs) (fun _ => rfl) (fun _ => rfl) ?_ (fun _ => rfl)
          (fun _ => rfl)
        exact iff_of_true rfl (List.mem_append_right _ (List.mem_singleton_self _))
      · cases hstep
  | connectToPeer name =>
      simp only [step] at hstep
      split at hstep
      · rename_i hphase
        cases hstep
        exact h.of_face (fun _ hs => hs) (fun _ => rfl) (fun _ => rfl)
          (hkept _ (fun heq => by cases heq)) (fun _ => h.phase hphase) h.phase
      · cases hstep
  | accept i ip =>
      simp only [step] at hstep
      split at hstep
      · rename_i hready
        cases hstep
        exact h.startSession hready.2 (fun _ => Iff.rfl) (fun _ => rfl) (fun heq => by cases heq)
          h.connections
      · cases hstep
  | connected i n ip =>
      simp only [step] at hstep
      split at hstep
      · rename_i hready
        cases hstep
        refine h.startSession hready.2 (fun _ => Iff.rfl) (fun _ => rfl)
          (fun heq => by cases heq) (fun _ => h.connections ?_)
        rintro hnil
        rw [hnil] at hready
        cases hready.1
      · cases hstep
  | read i data =>
      simp only [step] at hstep
      split at hstep
      · cases hstep
      · rename_i session hi
        split at hstep
        · cases hstep
          exact h.read hi data
        · cases hstep
  | close i =>
      simp only [step] at hstep
      split at hstep
      · cases hstep
      · rename_i session hi
        cases hstep
        exact h.of_face (fun _ hs => hs) (fun _ => rfl) (Slots.face_update hi rfl)
          (hkept _ (fun heq => by cases heq)) h.connections h.phase

theorem listening_run (h : run step actions initial = some s) : Listening actions s :=
  run_history (C := fun _ _ => True) (I := Listening) []
    (fun _ _ _ _ hinv _ hstep => listening_step hinv hstep) h
    (along_of_forall (fun _ _ => trivial) actions initial) listening_initial

/-! ## Who is heard -/

/-- **When all is heard**: whatever is read is read on sessions that were started after the
callback had been set. -/
theorem hearsAll_iff (h : (run step actions initial).isSome) :
    HearsAll actions ↔ ∀ i data, Action.read i data ∈ actions → Heard i actions := by
  obtain ⟨s, hs⟩ := Option.isSome_iff_exists.mp h
  have hinv := listening_run hs
  constructor
  · intro hall i data hread
    have hne : chunksRead i actions ≠ [] := chunksRead_ne_nil.mpr ⟨data, hread⟩
    cases hi : s.sessions i with
    | none => exact absurd (hinv.absent i hi).2 hne
    | some session =>
        apply (hinv.heard i session hi).mp
        by_contra hdeaf
        have hpassed := hinv.passed i session hi
        rw [if_neg hdeaf, hall s hs i session hi] at hpassed
        exact hne hpassed
  · intro hheard s' hs' i session hi
    obtain rfl : s = s' := Option.some.inj (hs.symm.trans hs')
    rw [hinv.passed i session hi]
    split
    · rfl
    · rename_i hdeaf
      by_contra hne
      obtain ⟨data, hread⟩ := chunksRead_ne_nil.mp (Ne.symm hne)
      exact hdeaf ((hinv.heard i session hi).mpr (hheard i data hread))

/-- Outgoing connections are only made after the callback has been set, so their sessions are
heard. -/
theorem heard_of_connected {n : ℕ} {ip : IPAddress}
    (h : run step past initial = some s) (hstep : step (.connected i n ip) s = some t) :
    Heard i (past ++ [.connected i n ip]) := by
  have hinv := listening_run h
  simp only [step] at hstep
  split at hstep
  · rename_i hready
    refine heard_concat.mpr (.inr ⟨hinv.callback.mp (hinv.connections ?_), rfl⟩)
    intro hnil
    rw [hnil] at hready
    cases hready.1
  · cases hstep

/-- A peer that connects after the callback has been set. -/
theorem hearsAll_after :
    (run step [.startNetwork, .setReceiveCallback, .accept 0 "127.0.0.1", .read 0 [1]]
        initial).isSome ∧
      (HearsAll [.startNetwork, .setReceiveCallback, .accept 0 "127.0.0.1", .read 0 [1]] ↔
        ∀ i data, Action.read i data ∈
            [.startNetwork, .setReceiveCallback, .accept 0 "127.0.0.1", .read 0 [1]] →
          Heard i [.startNetwork, .setReceiveCallback, .accept 0 "127.0.0.1", .read 0 [1]]) := by
  have hrun : (run step [.startNetwork, .setReceiveCallback, .accept 0 "127.0.0.1", .read 0 [1]]
      initial).isSome := by rfl
  exact ⟨hrun, hearsAll_iff hrun⟩

/-- **A peer that connects before**: what it sends is read and dropped. -/
theorem not_hearsAll :
    ¬ HearsAll [.startNetwork, .accept 0 "127.0.0.1", .setReceiveCallback, .read 0 [1]] := by
  intro hall
  have hrun : (run step [.startNetwork, .accept 0 "127.0.0.1", .setReceiveCallback, .read 0 [1]]
      initial).isSome := rfl
  obtain ⟨s, hs⟩ := Option.isSome_iff_exists.mp hrun
  have hsession : (s.sessions 0).map PeerSession.passed = some [] := by
    obtain rfl := Option.some.inj hs
    rfl
  obtain ⟨session, hi, hpassed⟩ := Option.map_eq_some_iff.mp hsession
  have hlost := (hall s hs 0 session hi).symm.trans hpassed
  exact absurd hlost (by decide)

end StartOrder

end CoinPlatform
