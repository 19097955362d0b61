import VynxRelayer.Ingress.Moves
import VynxRelayer.Lib.Work

/-!
# How the hub comes to rest

A broadcast has a bounded number of steps before it, and so has the `writePump` of a connection
whose queue is not filled up again. Left alone, that is without new connections, new broadcasts,
pings and connections that fail, the hub uses up `Hub.work` (`Step.uses`).

A hub that none of its own steps can move is `Idle`: no broadcast is under way, every client that is
registered and has a running `writePump` has received all that was put into its queue, and the
`writePump`s of clients that were unregistered have ended.
-/

namespace VynxRelayer.Ingress

open Lib

/-- What a connection has before it. -/
def Session.work (session : Session) : Nat :=
  session.send.load (fun _ => 1) + (if session.writing then 2 else 0) +
    if session.reader = .leaving then 1 else 0

/-- What a broadcast has before it, with at most `N` clients to serve. It pays for what it puts into
their queues. -/
def Broadcast.work (N : Nat) : Broadcast → Nat
  | .entered _ => 3 * N + 3
  | .sending _ todo slow => 2 + 3 * todo.length + slow.length
  | .dropping slow => 1 + slow.length
  | .finished => 0

namespace Hub

/-- The step is one the hub takes by itself: not a new connection, a ping, a connection that fails,
or the shutdown. -/
def own (h : Hub) : Action → Bool
  | .serve _ => false
  | .ping _ => false
  | .stopWriter c => (h.sessions c).any Session.closed
  | .stopReader _ => false
  | .shutdown => false
  | _ => true

/-- The names of the connections and broadcasts lie below `N`. -/
structure Within (N : Nat) (h : Hub) : Prop where
  sessions : Keys N h.sessions
  broadcasts : Keys N h.broadcasts

/-- The work a hub with names below `N` has before it. -/
def work (N : Nat) (h : Hub) : Nat :=
  weight N Session.work h.sessions + weight N (Broadcast.work N) h.broadcasts

variable {N M sendBufSize : Nat} {h h' : Hub} {a : Action} {o : Option Event}

theorem Within.mono (within : h.Within N) (le : N ≤ M) : h.Within M :=
  ⟨within.sessions.mono le, within.broadcasts.mono le⟩

/-! ## Moves of one connection and of one broadcast -/

theorem Within.work_setSession (within : h.Within N) {c : ClientId} {old : Session}
    (client : h.sessions c = some old) (new : Session) :
    (h.setSession c new).work N + old.work = h.work N + new.work := by
  have hmove := within.sessions.weight_move (w := Session.work) (v := new) client
  simp only [work, setSession]
  omega

theorem Within.work_setBroadcast (within : h.Within N) {b : BroadcastId} {old : Broadcast}
    (stood : h.broadcasts b = some old) (new : Broadcast) :
    (h.setBroadcast b new).work N + old.work N = h.work N + new.work N := by
  have hmove := within.broadcasts.weight_move (w := Broadcast.work N) (v := new) stood
  simp only [work, setBroadcast]
  omega

/-- A broadcast moves on. -/
theorem Within.broadcast_moves (within : h.Within N) {b : BroadcastId} {old new : Broadcast}
    (stood : h.broadcasts b = some old) (less : new.work N < old.work N) :
    (h.setBroadcast b new).work N < h.work N := by
  have hmove := within.work_setBroadcast stood new
  omega

/-- A connection moves on. -/
theorem Within.session_moves (within : h.Within N) {c : ClientId} {old new : Session}
    (client : h.sessions c = some old) (less : new.work < old.work) :
    (h.setSession c new).work N < h.work N := by
  have hmove := within.work_setSession client new
  omega

/-- Closing a client's channel leaves its goroutines as they are. -/
theorem Sound.work_unregister (sound : Sound h) (within : h.Within N) (c : ClientId) :
    (h.unregisterClient c).work N = h.work N ∧ (h.unregisterClient c).Within N := by
  by_cases hc : c ∈ h.clients
  · obtain ⟨session, client⟩ := sound.known c hc
    rw [sound.unregisterClient_eq client, if_pos hc]
    have hmove := within.work_setSession client (shut session)
    have hsame : (shut session).work = session.work := rfl
    refine ⟨?_, { within with sessions := within.sessions.move client }⟩
    show (h.setSession c (shut session)).work N = h.work N
    omega
  · rw [unregisterClient, if_neg hc]
    exact ⟨rfl, within⟩

/-- So does the shutdown. -/
theorem Sound.work_closeAll (sound : Sound h) : h.closeAll.work N = h.work N := by
  rw [sound.closeAll_eq]
  have hsame : ∀ c, (if c ∈ h.clients then (h.sessions c).map shut else h.sessions c).elim 0
      Session.work = (h.sessions c).elim 0 Session.work := by
    intro c
    split
    · cases h.sessions c <;> rfl
    · rfl
  simp only [work, weight, hsame]

/-- There are no more clients than names. -/
theorem Sound.length_clients (sound : Sound h) (within : h.Within N) : h.clients.length ≤ N := by
  have hsub : h.clients ⊆ List.range N := by
    intro c hc
    obtain ⟨session, client⟩ := sound.known c hc
    exact List.mem_range.mpr (within.sessions c session client)
  have hle := (List.subperm_of_subset sound.distinct hsub).length_le
  rwa [List.length_range] at hle

/-! ## What a step uses up -/

/-- The name a step gives to a new connection. -/
def Action.names : Action → Option ClientId
  | .serve c => some c
  | _ => none

/-- The names stay below a bound that holds for the new ones. -/
theorem Step.within (step : Step sendBufSize h a h' o) (sound : Sound h) (within : h.Within N)
    (below : ∀ c, a.names = some c → c < N) : h'.Within N := by
  cases step with
  | serve _ _ => exact { within with sessions := within.sessions.update (below _ rfl) }
  | sendClosed _ _ _ _ => exact { within with }
  | offer sending _ client _ _ =>
    exact ⟨within.sessions.move client, within.broadcasts.move sending⟩
  | rlock stood | slow stood _ _ _ _ | runlock stood | finish stood =>
    exact { within with broadcasts := within.broadcasts.move stood }
  | @drop b c slow stood _ =>
    have hwithin := (sound.work_unregister within c).2
    refine { hwithin with broadcasts := ?_ }
    rw [setBroadcast_unregister]
    exact within.broadcasts.move stood
  | write client _ _ | failWrite client _ _ | parkWriter client _ _ _ | ping client _ _
  | stopWriter client _ _ | stopReader client _ =>
    exact { within with sessions := within.sessions.move client }
  | @unregister c session client _ _ =>
    have hwithin : (h.setSession c { session with reader := .left }).Within N :=
      { within with sessions := within.sessions.move client }
    exact ((sound.setSession client (by rfl)).work_unregister hwithin _).2
  | shutdown _ =>
    refine ⟨?_, by rw [(closeAll_frame h).1]; exact within.broadcasts⟩
    rw [sound.closeAll_eq]
    intro c session hc
    cases hs : h.sessions c with
    | none => simp [hs] at hc
    | some old => exact within.sessions c old hs

/-- **The hub's own steps use up work.** -/
theorem Step.uses (step : Step sendBufSize h a h' o) (sound : Sound h) (within : h.Within N)
    (own : h.own a = true) : h'.work N < h.work N := by
  cases step with
  | serve _ _ | ping _ _ _ | stopReader _ _ | shutdown _ => cases own
  | sendClosed sending due client closed =>
    have hopen := (sound.open_iff _ _ client).mp (sound.serving _ _ _ _ sending _ due)
    rw [closed] at hopen
    cases hopen
  | @rlock b intent called =>
    have hclients := sound.length_clients within
    have hless : (Broadcast.sending intent h.clients []).work N <
        (Broadcast.entered intent).work N := by
      simp only [Broadcast.work, List.length_nil]
      omega
    exact within.broadcast_moves called hless
  | @offer b c intent todo slow session send sending due client isOpen sent =>
    -- the message costs two, and the client that is served has three set aside
    have hsession := within.work_setSession client { session with send }
    have hwithin : (h.setSession c { session with send }).Within N :=
      { within with sessions := within.sessions.move client }
    have hbroadcast := hwithin.work_setBroadcast sending (.sending intent (todo.erase c) slow)
    have hload := Chan.load_trySend (w := fun _ => 1) sent
    have hlength := List.length_erase_of_mem due
    have hpos := List.length_pos_of_mem due
    simp only [Session.work] at hsession
    simp only [Broadcast.work] at hbroadcast
    omega
  | @slow b c intent todo slow session sending due client isOpen full =>
    refine within.broadcast_moves sending ?_
    have hlength := List.length_erase_of_mem due
    have hpos := List.length_pos_of_mem due
    simp only [Broadcast.work, List.length_append, List.length_singleton]
    omega
  | runlock sending =>
    refine within.broadcast_moves sending ?_
    simp only [Broadcast.work, List.length_nil]
    omega
  | @drop b c slow dropping free =>
    obtain ⟨hsame, hwithin⟩ := sound.work_unregister within c
    have hstood : (h.unregisterClient c).broadcasts b = some (.dropping (c :: slow)) := by
      rw [(unregisterClient_frame h c).1]
      exact dropping
    rw [← hsame]
    refine hwithin.broadcast_moves hstood ?_
    simp only [Broadcast.work, List.length_cons]
    omega
  | finish dropping =>
    refine within.broadcast_moves dropping ?_
    simp only [Broadcast.work, List.length_nil]
    omega
  | write client writing taken =>
    refine within.session_moves client ?_
    have hload := Chan.load_take (w := fun _ => 1) taken
    simp only [Session.work]
    omega
  | failWrite client writing taken =>
    refine within.session_moves client ?_
    have hload := Chan.load_take (w := fun _ => 1) taken
    simp only [Session.work, writing, if_true, Bool.false_eq_true, if_false]
    omega
  | parkWriter client writing isOpen parked =>
    refine within.session_moves client ?_
    have hload := Chan.load_park (w := fun _ => 1) parked
    simp only [Session.work]
    omega
  | stopWriter client writing idle =>
    refine within.session_moves client ?_
    have hload := Chan.load_abandon (w := fun _ => 1) idle
    simp only [Session.work, writing, if_true, Bool.false_eq_true, if_false]
    omega
  | @unregister c session client leaving free =>
    have hless : (h.setSession c { session with reader := .left }).work N < h.work N := by
      refine within.session_moves client ?_
      simp only [Session.work, leaving, if_true, reduceCtorEq, if_false]
      omega
    have hwithin : (h.setSession c { session with reader := .left }).Within N :=
      { within with sessions := within.sessions.move client }
    rw [((sound.setSession client (by rfl)).work_unregister hwithin c).1]
    exact hless

/-! ## A hub without moves -/

/-- Nothing is under way in the hub. -/
structure Idle (h : Hub) : Prop where
  broadcasts : ∀ b broadcast, h.broadcasts b = some broadcast → broadcast = .finished
  /-- Who left was unregistered. -/
  readers : ∀ c session, h.sessions c = some session → session.reader ≠ .leaving
  /-- A `writePump` that runs has written all there was, and waits on an open channel. -/
  writers : ∀ c session, h.sessions c = some session → session.writing = true →
    session.closed = false ∧ session.send.receiver.isParked = true

/-- While nobody broadcasts, the lock is free. -/
theorem Sound.free (sound : Sound h)
    (quiet : ∀ b intent todo slow, h.broadcasts b ≠ some (.sending intent todo slow)) :
    h.readers = 0 := by
  obtain ⟨holders, _, hlength, hmem⟩ := sound.locked
  cases holders with
  | nil => exact hlength.symm
  | cons b rest =>
    have hholds := (hmem b).mp List.mem_cons_self
    cases hb : h.broadcasts b with
    | none => simp [holds, hb] at hholds
    | some broadcast =>
      cases broadcast with
      | sending intent todo slow => exact absurd hb (quiet b intent todo slow)
      | entered _ | dropping _ | finished => simp [holds, hb, Broadcast.holds] at hholds

/-- **A hub that none of its own steps can move is idle.** -/
theorem Sound.idle (sound : Sound h)
    (stuck : ∀ a, h.own a = true → h.next sendBufSize a = none) : h.Idle := by
  have hsending : ∀ b intent todo slow, h.broadcasts b ≠ some (.sending intent todo slow) := by
    intro b intent todo slow hb
    cases todo with
    | nil =>
      have hrunlock := stuck (.runlock b) rfl
      simp only [next, hb] at hrunlock
      cases hrunlock
    | cons c todo =>
      obtain ⟨session, client, isOpen⟩ :=
        sound.exists_open c (sound.serving b _ _ _ hb c List.mem_cons_self)
      have hoffer := stuck (.offer b c) rfl
      simp only [next, hb, List.mem_cons_self, if_true, client, isOpen] at hoffer
      split at hoffer
      · cases hoffer
      · split at hoffer <;> cases hoffer
  -- so nobody holds the lock, and what waits for it could have it
  have hfree := sound.free hsending
  constructor
  · intro b broadcast hb
    cases broadcast with
    | entered intent =>
      have hrlock := stuck (.rlock b) rfl
      simp only [next, hb] at hrlock
      cases hrlock
    | sending intent todo slow => exact absurd hb (hsending b intent todo slow)
    | dropping slow =>
      cases slow with
      | nil =>
        have hfinish := stuck (.finish b) rfl
        simp only [next, hb] at hfinish
        cases hfinish
      | cons c slow =>
        have hdrop := stuck (.drop b) rfl
        simp only [next, hb, hfree] at hdrop
        cases hdrop
    | finished => rfl
  · intro c session client hleaving
    have hunregister := stuck (.unregister c) rfl
    simp only [next, client, hfree, hleaving] at hunregister
    cases hunregister
  · intro c session client writing
    have hwrite := stuck (.write c) rfl
    simp only [next, client, writing, if_true] at hwrite
    have htake : session.send.take = none := by
      cases htake : session.send.take with
      | none => rfl
      | some taken => simp [htake] at hwrite
    have hopen : session.closed = false := by
      cases hclosed : session.closed with
      | false => rfl
      | true =>
        have hidle := Chan.handed_of_take_eq_none htake
        have hstop := stuck (.stopWriter c) (by simp only [own, client, Option.any_some, hclosed])
        simp [next, client, writing, hidle] at hstop
    have hpark : session.send.park = none := by
      have hpark := stuck (.parkWriter c) rfl
      simp only [next, client, writing, hopen, and_self, if_true] at hpark
      cases hp : session.send.park with
      | none => rfl
      | some send => simp [hp] at hpark
    exact ⟨hopen, Chan.parked_of_stuck htake hpark⟩

end Hub

end VynxRelayer.Ingress
