/-
# The table of peers

`NetworkManager` puts every session into `peers_`: an accepted one under the address of the peer,
an established one under the name it was asked to connect to.  `broadcast_data` and `send_data`
write to the sessions of the table.  A read or write error closes the socket of a session and
leaves the table as it is, and a new session replaces the one that was there under its name.

* `sessions_broadcastData`: a session gets the data as often as it is in the table.
* `broadcastsToOpen_iff`: so a broadcast reaches the open sessions when these are in the table
  once and the closed ones are not.
* `tableExact_iff`: in every state of a run the table is right exactly when no socket has been
  closed and no name has been used twice.
-/
import Mathlib.Logic.Function.Iterate
import CoinPlatform.WriteQueue
import CoinPlatform.Framing
import CoinPlatform.Transition

open Transition

namespace CoinPlatform

namespace PeerTable

open Node Sending

/-! ## Sessions -/

/-- `PeerSession`: the address of the peer, whether the socket is open, and the writes.  The name
under which it was put into the table is recorded. -/
structure PeerSession where
  name : IPAddress
  ip : IPAddress
  isOpen : Bool
  writes : WriteQueue

/-- A session on a new connection. -/
def PeerSession.new (name ip : IPAddress) : PeerSession := ⟨name, ip, true, ⟨[], []⟩⟩

/-- `do_write`, which does not ask whether the socket is open. -/
def PeerSession.doWrite (data : Bytes) (session : PeerSession) : PeerSession :=
  { session with writes := session.writes.doWrite data }

/-- `socket.close()`. -/
def PeerSession.close (session : PeerSession) : PeerSession := { session with isOpen := false }

/-- The sessions that have been created, and `peers_`. -/
structure State where
  sessions : ℕ → Option PeerSession
  peers : List (IPAddress × ℕ)

def initial : State := ⟨fun _ => none, []⟩

/-- `peers_[name] = session`. -/
def assignPeer (name : IPAddress) (i : ℕ) (peers : List (IPAddress × ℕ)) :
    List (IPAddress × ℕ) :=
  (name, i) :: peers.filter fun entry => entry.1 ≠ name

/-- A session is created and put into the table. -/
def addPeer (i : ℕ) (name ip : IPAddress) (s : State) : State where
  sessions := Function.update s.sessions i (some (.new name ip))
  peers := assignPeer name i s.peers

/-- One session is changed. -/
def modifySession (f : PeerSession → PeerSession) (i : ℕ) (sessions : ℕ → Option PeerSession) :
    ℕ → Option PeerSession :=
  Function.update sessions i ((sessions i).map f)

/-- `send_data`: whether the name is in the table, and the state. -/
def sendData (ip : IPAddress) (data : Bytes) (s : State) : Bool × State :=
  match s.peers.find? fun entry => entry.1 = ip with
  | some entry =>
    (true, { s with sessions := modifySession (.doWrite data) entry.2 s.sessions })
  | none => (false, s)

/-- `broadcast_data`: the data are written to every entry of the table. -/
def broadcastData (data : Bytes) (s : State) : State :=
  { s with
    sessions := s.peers.foldl
      (fun sessions entry => modifySession (.doWrite data) entry.2 sessions) s.sessions }

/-- What happens: connections, errors, the completion of the `n`th write under way on a session,
and the calls of the node. -/
inductive Action where
  | accept (i : ℕ) (ip : IPAddress)
  | connect (i : ℕ) (name ip : IPAddress)
  | readError (i : ℕ)
  | writeError (i n : ℕ)
  | written (i n : ℕ)
  | sendData (ip : IPAddress) (data : Bytes)
  | broadcastData (data : Bytes)

/-- One event; `none` when it is not possible. -/
def step (a : Action) (s : State) : Option State :=
  match a with
  | .accept i ip => if s.sessions i = none then some (addPeer i ip ip s) else none
  | .connect i name ip => if s.sessions i = none then some (addPeer i name ip s) else none
  | .readError i =>
    match s.sessions i with
    | none => none
    | some _ => some { s with sessions := modifySession .close i s.sessions }
  | .writeError i n =>
    match s.sessions i with
    | none => none
    | some session =>
      if n < session.writes.outstanding.length then
        let writes := { session.writes with
          outstanding := session.writes.outstanding.eraseIdx n }
        some { s with
          sessions := Function.update s.sessions i
            (some { session with writes := writes, isOpen := false }) }
      else none
  | .written i n =>
    match s.sessions i with
    | none => none
    | some session => (session.writes.handleWritten n).map fun writes => { s with
        sessions := Function.update s.sessions i (some { session with writes := writes }) }
  | .sendData ip data => some (PeerTable.sendData ip data s).2
  | .broadcastData data => some (PeerTable.broadcastData data s)

/-- A broadcast is written once to every open session and to no closed one. -/
def BroadcastsToOpen (s : State) : Prop :=
  ∀ data i session, s.sessions i = some session →
    (broadcastData data s).sessions i
      = some (if session.isOpen then session.doWrite data else session)

/-- `send_data` returns `true` only when an open session of that name gets the data. -/
def SendsToOpen (s : State) : Prop :=
  ∀ ip data, (sendData ip data s).1 = true →
    ∃ i session, s.sessions i = some session ∧ session.isOpen = true ∧ session.name = ip ∧
      (sendData ip data s).2.sessions i = some (session.doWrite data)

/-- The table is the set of live sessions, for those who write to it. -/
def TableExact (s : State) : Prop := BroadcastsToOpen s ∧ SendsToOpen s

/-- The event closes no socket, and completes no connection under a name of the table. -/
def KeepsTable (s : State) (a : Action) : Prop :=
  match a with
  | .accept _ ip => ip ∉ s.peers.map Prod.fst
  | .connect _ name _ => name ∉ s.peers.map Prod.fst
  | .readError _ => False
  | .writeError _ _ => False
  | _ => True

/-! ## Broadcasting -/

variable {s t : State} {i j : ℕ} {session : PeerSession} {name ip : IPAddress}

/-- How often a session is in the table. -/
def occurrences (i : ℕ) (peers : List (IPAddress × ℕ)) : ℕ :=
  peers.countP fun entry => entry.2 = i

theorem occurrences_cons (entry : IPAddress × ℕ) (entries : List (IPAddress × ℕ)) :
    occurrences i (entry :: entries) = occurrences i entries + if entry.2 = i then 1 else 0 := by
  simp only [occurrences, List.countP_cons, decide_eq_true_eq]

theorem modifySession_apply (f : PeerSession → PeerSession)
    (sessions : ℕ → Option PeerSession) :
    modifySession f j sessions i = if j = i then (sessions i).map f else sessions i := by
  unfold modifySession
  by_cases h : j = i
  · obtain rfl := h
    rw [Function.update_self, if_pos rfl]
  · rw [Function.update_of_ne (Ne.symm h), if_neg h]

/-- Over the entries, a session is changed as often as it occurs. -/
theorem foldl_modifySession (f : PeerSession → PeerSession) (entries : List (IPAddress × ℕ))
    (sessions : ℕ → Option PeerSession) :
    entries.foldl (fun sessions entry => modifySession f entry.2 sessions) sessions i
      = (sessions i).map (f^[occurrences i entries]) := by
  induction entries generalizing sessions with
  | nil => exact Option.map_id.symm ▸ rfl
  | cons entry entries ih =>
      rw [List.foldl_cons, ih, modifySession_apply, occurrences_cons]
      by_cases h : entry.2 = i
      · rw [if_pos h, if_pos h, Option.map_map, Function.iterate_succ]
      · rw [if_neg h, if_neg h, Nat.add_zero]

/-- **A session gets the data of a broadcast as often as it is in the table.** -/
theorem sessions_broadcastData (data : Bytes) :
    (broadcastData data s).sessions i
      = (s.sessions i).map ((PeerSession.doWrite data)^[occurrences i s.peers]) :=
  foldl_modifySession _ _ _

theorem length_queue_iterate (data : Bytes) (n : ℕ) :
    ((PeerSession.doWrite data)^[n] session).writes.queue.length
      = session.writes.queue.length + n := by
  induction n with
  | zero => rfl
  | succ n ih =>
      rw [Function.iterate_succ_apply', PeerSession.doWrite, queue_doWrite, List.length_append, ih]
      rfl

/-- **What a broadcast needs**: the open sessions are in the table once, the closed ones never. -/
theorem broadcastsToOpen_iff : BroadcastsToOpen s ↔
    ∀ i session, s.sessions i = some session →
      occurrences i s.peers = if session.isOpen then 1 else 0 := by
  constructor
  · intro h i session hi
    have hdata := h [] i session hi
    rw [sessions_broadcastData, hi, Option.map_some, Option.some.injEq] at hdata
    have hlength := congrArg (fun session => session.writes.queue.length) hdata
    simp only [length_queue_iterate] at hlength
    cases hopen : session.isOpen with
    | true =>
        rw [hopen, if_pos rfl, PeerSession.doWrite, queue_doWrite, List.length_append] at hlength
        simpa using hlength
    | false =>
        rw [hopen, if_neg Bool.false_ne_true] at hlength
        simpa using hlength
  · intro h data i session hi
    rw [sessions_broadcastData, hi, h i session hi]
    cases session.isOpen with
    | true => rfl
    | false => rfl

/-! ## The invariant -/

/-- **The invariant**: every session is open and in the table under its name, and the table has
nothing else, and no name twice. -/
structure AllListed (s : State) : Prop where
  listed : ∀ i session, s.sessions i = some session →
    session.isOpen = true ∧ (session.name, i) ∈ s.peers
  entries : ∀ entry ∈ s.peers, ∃ session,
    s.sessions entry.2 = some session ∧ session.name = entry.1
  names : (s.peers.map Prod.fst).Nodup

theorem allListed_initial : AllListed initial where
  listed := fun _ _ h => by cases h
  entries := fun _ h => by cases h
  names := List.nodup_nil

/-- A listed session is in the table once. -/
theorem AllListed.occurrences_eq (h : AllListed s) (hi : s.sessions i = some session) :
    occurrences i s.peers = 1 := by
  have hcount : occurrences i s.peers = s.peers.count (session.name, i) := by
    rw [occurrences, List.count_eq_countP]
    apply List.countP_congr
    intro entry hentry
    obtain ⟨session', hsession', hname⟩ := h.entries entry hentry
    rw [decide_eq_true_eq, beq_iff_eq]
    constructor
    · rintro rfl
      obtain rfl : session = session' := Option.some.inj (hi.symm.trans hsession')
      exact Prod.ext hname.symm rfl
    · rintro rfl
      rfl
  rw [hcount]
  exact List.count_eq_one_of_mem (List.Nodup.of_map _ h.names) (h.listed i session hi).2

/-- Where the invariant holds the table is right. -/
theorem AllListed.tableExact (h : AllListed s) : TableExact s := by
  refine ⟨broadcastsToOpen_iff.mpr (fun i session hi => ?_), fun ip data hsend => ?_⟩
  · rw [(h.listed i session hi).1, if_pos rfl, h.occurrences_eq hi]
  · unfold sendData at hsend ⊢
    cases hfind : s.peers.find? fun entry => entry.1 = ip with
    | none =>
        rw [hfind] at hsend
        cases hsend
    | some entry =>
        obtain ⟨session, hsession, hname⟩ := h.entries entry (List.mem_of_find?_eq_some hfind)
        have hip : entry.1 = ip := of_decide_eq_true (List.find?_some hfind :)
        refine ⟨entry.2, session, hsession, (h.listed _ _ hsession).1, hname.trans hip, ?_⟩
        simp only [modifySession_apply, if_true, hsession, Option.map_some]

/-! ## One event -/

/-- What the table knows of a session. -/
def PeerSession.face (session : PeerSession) : IPAddress × Bool := (session.name, session.isOpen)

/-- Writing does not matter to the invariant. -/
theorem AllListed.of_face (h : AllListed s) (hpeers : t.peers = s.peers)
    (hface : ∀ i, (t.sessions i).map PeerSession.face = (s.sessions i).map PeerSession.face) :
    AllListed t := by
  refine ⟨fun i session hi => ?_, fun entry hentry => ?_, hpeers ▸ h.names⟩
  · obtain ⟨session', hsession', hsame⟩ := Slots.exists_of_face hface hi
    obtain ⟨hname, hopen⟩ := Prod.mk.inj hsame
    obtain ⟨hisOpen, hlisted⟩ := h.listed i session' hsession'
    rw [hpeers, ← hname, ← hopen]
    exact ⟨hisOpen, hlisted⟩
  · obtain ⟨session, hsession, hname⟩ := h.entries entry (hpeers ▸ hentry)
    obtain ⟨session', hsession', hsame⟩ :=
      Slots.exists_of_face (fun i => (hface i).symm) hsession
    exact ⟨session', hsession', (Prod.mk.inj hsame).1.trans hname⟩

theorem face_modifySession (data : Bytes) (sessions : ℕ → Option PeerSession) :
    (modifySession (.doWrite data) j sessions i).map PeerSession.face
      = (sessions i).map PeerSession.face := by
  rw [modifySession_apply]
  split
  · rw [Option.map_map]
    rfl
  · rfl

theorem face_iterate (data : Bytes) (n : ℕ) :
    PeerSession.face ∘ (PeerSession.doWrite data)^[n] = PeerSession.face := by
  induction n with
  | zero => rfl
  | succ n ih => rw [Function.iterate_succ, ← Function.comp_assoc, ih]; rfl

/-- A session under a new name is added to the table. -/
theorem AllListed.addPeer (h : AllListed s) (hnew : s.sessions i = none)
    (hname : name ∉ s.peers.map Prod.fst) : AllListed (addPeer i name ip s) := by
  have hold : ∀ entry ∈ s.peers, entry.1 ≠ name := by
    rintro entry hentry rfl
    exact hname (List.mem_map_of_mem hentry)
  have hpeers : (PeerTable.addPeer i name ip s).peers = (name, i) :: s.peers := by
    change (name, i) :: s.peers.filter (fun entry => entry.1 ≠ name) = _
    rw [List.filter_eq_self.mpr (fun entry hentry => decide_eq_true (hold entry hentry))]
  refine ⟨fun j session hj => ?_, fun entry hentry => ?_, ?_⟩
  · rw [hpeers]
    change Function.update s.sessions i _ j = _ at hj
    rcases Slots.eq_or_of_update hj with ⟨rfl, rfl⟩ | ⟨-, hj⟩
    · exact ⟨rfl, List.mem_cons_self⟩
    · obtain ⟨hopen, hlisted⟩ := h.listed j session hj
      exact ⟨hopen, List.mem_cons_of_mem _ hlisted⟩
  · rw [hpeers] at hentry
    rcases List.mem_cons.mp hentry with rfl | hentry
    · exact ⟨.new name ip, Function.update_self .., rfl⟩
    · obtain ⟨session, hsession, hsame⟩ := h.entries entry hentry
      have hij : entry.2 ≠ i := by
        rintro rfl
        rw [hnew] at hsession
        cases hsession
      exact ⟨session, (Function.update_of_ne hij ..).trans hsession, hsame⟩
  · rw [hpeers, List.map_cons]
    exact List.nodup_cons.mpr ⟨hname, h.names⟩

/-- The ways an event can go. -/
inductive Step (s : State) : Action → State → Prop
  | accept {i : ℕ} {ip : IPAddress} (hnew : s.sessions i = none) :
      Step s (.accept i ip) (addPeer i ip ip s)
  | connect {i : ℕ} {name ip : IPAddress} (hnew : s.sessions i = none) :
      Step s (.connect i name ip) (addPeer i name ip s)
  | readError {i : ℕ} {session : PeerSession} (hi : s.sessions i = some session) :
      Step s (.readError i)
        { s with sessions := Function.update s.sessions i (some session.close) }
  | writeError {i n : ℕ} {session : PeerSession} {writes : WriteQueue}
      (hi : s.sessions i = some session) :
      Step s (.writeError i n)
        { s with
          sessions := Function.update s.sessions i
            (some { session with writes := writes, isOpen := false }) }
  | written {i n : ℕ} {session : PeerSession} {writes : WriteQueue}
      (hi : s.sessions i = some session) :
      Step s (.written i n)
        { s with
          sessions := Function.update s.sessions i (some { session with writes := writes }) }
  | sendData {ip : IPAddress} {data : Bytes} :
      Step s (.sendData ip data) (PeerTable.sendData ip data s).2
  | broadcastData {data : Bytes} :
      Step s (.broadcastData data) (PeerTable.broadcastData data s)

/-- **Every event is one of the listed ones.** -/
theorem step_cases {a : Action} (h : step a s = some t) : Step s a t := by
  cases a with
  | accept i ip =>
      simp only [step] at h
      split at h
      · rename_i hnew
        cases h
        exact .accept hnew
      · cases h
  | connect i name ip =>
      simp only [step] at h
      split at h
      · rename_i hnew
        cases h
        exact .connect hnew
      · cases h
  | readError i =>
      simp only [step, modifySession] at h
      split at h
      · cases h
      · rename_i session hi
        cases h
        rw [hi, Option.map_some]
        exact .readError hi
  | writeError i n =>
      simp only [step] at h
      split at h
      · cases h
      · rename_i session hi
        split at h
        · cases h
          exact .writeError hi
        · cases h
  | written i n =>
      simp only [step] at h
      split at h
      · cases h
      · rename_i session hi
        obtain ⟨writes, -, rfl⟩ := Option.map_eq_some_iff.mp h
        exact .written hi
  | sendData ip data =>
      cases h
      exact .sendData
  | broadcastData data =>
      cases h
      exact .broadcastData

/-- **An event that keeps the table keeps the invariant.** -/
theorem allListed_step {a : Action} (h : AllListed s) (hkeep : KeepsTable s a)
    (hstep : step a s = some t) : AllListed t := by
  cases step_cases hstep with
  | accept hnew => exact h.addPeer hnew hkeep
  | connect hnew => exact h.addPeer hnew hkeep
  | readError hi => exact hkeep.elim
  | writeError hi => exact hkeep.elim
  | written hi => exact h.of_face rfl (Slots.face_update hi rfl)
  | @sendData ip data =>
      unfold PeerTable.sendData
      split
      · exact h.of_face rfl (fun _ => face_modifySession data s.sessions)
      · exact h
  | @broadcastData data =>
      refine h.of_face rfl (fun j => ?_)
      rw [sessions_broadcastData, Option.map_map, face_iterate]

/-! ## The condition is exact -/

/-- A closed session is still in the table. -/
theorem not_broadcastsToOpen_of_closed (h : AllListed s) (hi : s.sessions i = some session)
    {closed : PeerSession} (hclosed : closed.isOpen = false) :
    ¬ BroadcastsToOpen { s with sessions := Function.update s.sessions i (some closed) } := by
  intro hbroadcast
  have hnone := broadcastsToOpen_iff.mp hbroadcast i closed (Function.update_self ..)
  rw [hclosed, if_neg Bool.false_ne_true] at hnone
  change occurrences i s.peers = 0 at hnone
  rw [h.occurrences_eq hi] at hnone
  cases hnone

/-- A session whose name is used again is in the table no longer. -/
theorem not_broadcastsToOpen_of_replaced (h : AllListed s) (hnew : s.sessions i = none)
    (hname : name ∈ s.peers.map Prod.fst) : ¬ BroadcastsToOpen (addPeer i name ip s) := by
  obtain ⟨entry, hentry, rfl⟩ := List.mem_map.mp hname
  obtain ⟨session, hsession, hsame⟩ := h.entries entry hentry
  have hij : entry.2 ≠ i := by
    intro hij
    rw [hij, hnew] at hsession
    cases hsession
  intro hbroadcast
  have hstill : (addPeer i entry.1 ip s).sessions entry.2 = some session :=
    (Function.update_of_ne hij ..).trans hsession
  have hone := broadcastsToOpen_iff.mp hbroadcast entry.2 session hstill
  rw [(h.listed _ _ hsession).1, if_pos rfl] at hone
  have hzero : occurrences entry.2 (assignPeer entry.1 i s.peers) = 0 := by
    rw [occurrences, List.countP_eq_zero]
    intro other hother
    rw [decide_eq_true_eq]
    rcases List.mem_cons.mp hother with rfl | hother
    · exact hij.symm
    · -- the other entries have other names, so they belong to other sessions
      obtain ⟨hmem, hne⟩ := List.mem_filter.mp hother
      rintro hsnd
      obtain ⟨session', hsession', hname'⟩ := h.entries other hmem
      rw [hsnd, hsession] at hsession'
      obtain rfl := Option.some.inj hsession'
      exact of_decide_eq_true hne (hname'.symm.trans hsame)
  exact absurd (hone.symm.trans hzero) Nat.one_ne_zero

/-- **An event after which the table is right has kept it.** -/
theorem keepsTable_of_tableExact {a : Action} (h : AllListed s) (hstep : step a s = some t)
    (ht : TableExact t) : KeepsTable s a := by
  cases step_cases hstep with
  | accept hnew => exact fun hmem => not_broadcastsToOpen_of_replaced h hnew hmem ht.1
  | connect hnew => exact fun hmem => not_broadcastsToOpen_of_replaced h hnew hmem ht.1
  | readError hi => exact not_broadcastsToOpen_of_closed h hi rfl ht.1
  | writeError hi => exact not_broadcastsToOpen_of_closed h hi rfl ht.1
  | written hi => trivial
  | sendData => trivial
  | broadcastData => trivial

/-! ## All events -/

/-- The table is right in every state of the run. -/
def ExactThroughout (actions : List Action) : Prop :=
  ∀ past, past <+: actions → ∀ s, run step past initial = some s → TableExact s

/-- **When the table is right**: in every state of a run exactly when no event of the run closes
a socket or uses a name again. -/
theorem tableExact_iff {actions : List Action} (h : (run step actions initial).isSome) :
    ExactThroughout actions ↔ Along step KeepsTable actions initial := by
  obtain ⟨t, ht⟩ := Option.isSome_iff_exists.mp h
  exact forall_states_iff_along (fun _ hs => hs.tableExact)
    (fun _ _ _ hs hkeep hstep => allListed_step hs hkeep hstep)
    (fun _ _ _ hs hstep ht => keepsTable_of_tableExact hs hstep ht) ht allListed_initial

/-- One connection each way, and a broadcast. -/
theorem tableExact_iff_two :
    (run step [.accept 0 "10.0.0.1", .connect 1 "localhost" "127.0.0.1", .broadcastData [7]]
        initial).isSome ∧
      (ExactThroughout [.accept 0 "10.0.0.1", .connect 1 "localhost" "127.0.0.1",
          .broadcastData [7]] ↔
        Along step KeepsTable [.accept 0 "10.0.0.1", .connect 1 "localhost" "127.0.0.1",
          .broadcastData [7]] initial) := by
  have hrun : (run step [.accept 0 "10.0.0.1", .connect 1 "localhost" "127.0.0.1",
      .broadcastData [7]] initial).isSome := by rfl
  exact ⟨hrun, tableExact_iff hrun⟩

/-- **Two peers on one machine**: the second connection from an address takes the place of the
first one, which gets no broadcast any more.  **A peer that has left**: its session stays in the
table. -/
theorem not_tableExact :
    ¬ ExactThroughout [.accept 0 "127.0.0.1", .accept 1 "127.0.0.1"] ∧
      ¬ ExactThroughout [.accept 0 "127.0.0.1", .readError 0] := by
  have hone : AllListed (addPeer 0 "127.0.0.1" "127.0.0.1" initial) :=
    allListed_initial.addPeer rfl (by decide)
  constructor
  · intro hexact
    have htwo : run step [.accept 0 "127.0.0.1", .accept 1 "127.0.0.1"] initial
        = some (addPeer 1 "127.0.0.1" "127.0.0.1" (addPeer 0 "127.0.0.1" "127.0.0.1" initial)) :=
      rfl
    have hbroadcast := (hexact _ (List.prefix_refl _) _ htwo).1
    exact not_broadcastsToOpen_of_replaced hone rfl (by decide) hbroadcast
  · intro hexact
    have hclosed := hexact _ (List.prefix_refl _) _ rfl
    exact keepsTable_of_tableExact (a := .readError 0) hone rfl hclosed

end PeerTable

end CoinPlatform
