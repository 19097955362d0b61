import VynxRelayer.Ingress.Hub
import VynxRelayer.Lib.System
import VynxRelayer.Lib.Table

/-!
# Who is registered

The hub as a system of its own: solvers connect, broadcasts are called from outside, any number of
them at once, and every goroutine of the hub moves when the scheduler chooses it.

Three paths close a client's channel (a broadcast that found it slow, the client's own `readPump`,
and the shutdown), and one sends on it. What keeps them apart is the invariant `Sound`: a client is
in the map exactly as long as its channel is open, and while a broadcast holds the read lock, those
it has still to serve are in the map. A send on a closed channel and a second close both set
`crashed`, so that neither ever happens is read off the invariant (`channels_safe`).
-/

namespace VynxRelayer.Ingress

open Lib

/-- The broadcast holds the read lock. -/
def Broadcast.holds : Broadcast → Bool
  | .sending _ _ _ => true
  | _ => false

namespace Hub

/-! ## The hub as a system -/

/-- What a scheduler can choose to do next: a call of `BroadcastIntent`, or a step of the hub. -/
inductive Move where
  | call (b : BroadcastId) (intent : Ref Intent)
  | act (a : Action)

/-- What a move shows. -/
inductive Shown where
  | called (b : BroadcastId) (intent : Ref Intent)
  | joined (c : ClientId)
  /-- broadcast `b` put its message into the queue of client `c` -/
  | put (b : BroadcastId) (c : ClientId) (intent : Ref Intent)
  | slow (b : BroadcastId) (c : ClientId)
  /-- the read-locked section of broadcast `b` is over -/
  | released (b : BroadcastId)
  | returned (b : BroadcastId)
  /-- the `writePump` of client `c` received a message -/
  | taken (c : ClientId) (intent : Ref Intent)
  | panicked
  deriving DecidableEq

/-- What a broadcast sends, while it holds the read lock. -/
def message (h : Hub) (b : BroadcastId) : Option (Ref Intent) :=
  match h.broadcasts b with
  | some (.sending intent _ _) => some intent
  | _ => none

/-- What is seen of a step. -/
def shown (h : Hub) : Action → Option Event → Option Shown
  | .runlock b, _ => some (.released b)
  | .finish b, _ => some (.returned b)
  | _, some (.joined c) => some (.joined c)
  | _, some (.offered b c) => (h.message b).map (.put b c)
  | _, some (.slow b c) => some (.slow b c)
  | _, some (.delivered c intent) => some (.taken c intent)
  | _, some (.lost c intent) => some (.taken c intent)
  | _, some .panicked => some .panicked
  | _, none => none

/-- One move. -/
def move (sendBufSize : Nat) (h : Hub) : Move → Option (Hub × Option Shown)
  | .call b intent =>
    match h.broadcasts b with
    | none => some (h.call b intent, some (.called b intent))
    | some _ => none
  | .act a =>
    match h.next sendBufSize a with
    | none => none
    | some (h', o) => some (h', h.shown a o)

/-- The hub under every interleaving of its callers, its solvers and its goroutines. -/
def system (sendBufSize : Nat) : System Hub Move Shown := ⟨move sendBufSize⟩

/-- **Every move is a call or a step.** -/
theorem move_cases {sendBufSize : Nat} {h h' : Hub} {m : Move} {o : Option Shown}
    (moved : h.move sendBufSize m = some (h', o)) :
    (∃ b intent, m = .call b intent ∧ h.broadcasts b = none ∧ h' = h.call b intent ∧
      o = some (.called b intent)) ∨
    ∃ a e, m = .act a ∧ Step sendBufSize h a h' e ∧ o = h.shown a e := by
  cases m with
  | call b intent =>
    simp only [move] at moved
    split at moved <;> cases moved
    exact .inl ⟨b, intent, rfl, ‹_›, rfl, rfl⟩
  | act a =>
    simp only [move] at moved
    split at moved <;> cases moved
    rename_i hnext
    exact .inr ⟨a, _, rfl, next_cases hnext, rfl⟩

/-! ## The invariant -/

/-- Broadcast `b` holds the read lock. -/
def holds (h : Hub) (b : BroadcastId) : Bool := (h.broadcasts b).any Broadcast.holds

/-- **The hub's invariant.** -/
structure Sound (h : Hub) : Prop where
  distinct : h.clients.Nodup
  /-- A client in the map has a connection. -/
  known : ∀ c ∈ h.clients, ∃ session, h.sessions c = some session
  /-- A client is in the map exactly as long as its channel is open. -/
  open_iff : ∀ c session, h.sessions c = some session → (c ∈ h.clients ↔ session.closed = false)
  /-- Nobody has sent on a closed channel, or closed one twice. -/
  intact : h.crashed = false
  /-- The lock counts the broadcasts that hold it. -/
  locked : ∃ holders : List BroadcastId, holders.Nodup ∧ holders.length = h.readers ∧
    ∀ b, b ∈ holders ↔ h.holds b = true
  /-- Those a broadcast has still to serve are in the map. -/
  serving : ∀ b intent todo slow, h.broadcasts b = some (.sending intent todo slow) →
    ∀ c ∈ todo, c ∈ h.clients

theorem sound_new : Sound .new where
  distinct := List.nodup_nil
  known := by intro c hc; cases hc
  open_iff := by intro c session hc; cases hc
  intact := rfl
  locked := ⟨[], List.nodup_nil, rfl, by intro b; simp [holds, new]⟩
  serving := by intro b intent todo slow hb; cases hb

/-- A client in the map has a connection with an open channel. -/
theorem Sound.exists_open {h : Hub} (sound : Sound h) :
    ∀ c ∈ h.clients, ∃ session, h.sessions c = some session ∧ session.closed = false := by
  intro c hc
  obtain ⟨session, hsession⟩ := sound.known c hc
  exact ⟨session, hsession, (sound.open_iff c session hsession).mp hc⟩

/-! ## What a step preserves -/

/-- While the lock is free no broadcast holds it. -/
theorem Sound.unlocked {h : Hub} (sound : Sound h) (free : h.readers = 0) (b : BroadcastId) :
    h.holds b = false := by
  obtain ⟨holders, _, hlength, hmem⟩ := sound.locked
  rw [free, List.length_eq_zero_iff] at hlength
  have hb := hmem b
  rw [hlength] at hb
  simpa using hb

theorem Sound.not_sending {h : Hub} (sound : Sound h) (free : h.readers = 0) {b : BroadcastId}
    {intent : Ref Intent} {todo slow : List ClientId} :
    h.broadcasts b ≠ some (.sending intent todo slow) := by
  intro hb
  have hfree := sound.unlocked free b
  rw [holds, hb] at hfree
  cases hfree

/-- A connection that moves on without its channel being closed keeps the invariant. -/
theorem Sound.setSession {h : Hub} {c : ClientId} {old new : Session} (sound : Sound h)
    (client : h.sessions c = some old) (same : new.closed = old.closed) :
    Sound (h.setSession c new) := by
  refine { sound with known := ?_, open_iff := ?_ }
  · intro c' hc'
    by_cases heq : c' = c
    · exact ⟨new, update_some_eq_some.mpr (.inl ⟨heq, rfl⟩)⟩
    · obtain ⟨session, hsession⟩ := sound.known c' hc'
      exact ⟨session, update_some_eq_some.mpr (.inr ⟨heq, hsession⟩)⟩
  · intro c' session hc'
    rcases update_some_eq_some.mp hc' with ⟨rfl, rfl⟩ | ⟨_, hc'⟩
    · rw [same]
      exact sound.open_iff c' old client
    · exact sound.open_iff c' session hc'

/-- A broadcast that moves on without taking or releasing the lock keeps the invariant. -/
theorem Sound.setBroadcast {h : Hub} {b : BroadcastId} {new : Broadcast} (sound : Sound h)
    (same : new.holds = h.holds b)
    (due : ∀ intent todo slow, new = .sending intent todo slow → ∀ c ∈ todo, c ∈ h.clients) :
    Sound (h.setBroadcast b new) := by
  refine { sound with locked := ?_, serving := ?_ }
  · obtain ⟨holders, hdistinct, hlength, hmem⟩ := sound.locked
    refine ⟨holders, hdistinct, hlength, ?_⟩
    intro b'
    rw [hmem b']
    by_cases heq : b' = b
    · subst heq
      simp [holds, Hub.setBroadcast, same]
    · simp [holds, Hub.setBroadcast, heq]
  · intro b' intent todo slow hb'
    rcases update_some_eq_some.mp hb' with ⟨_, hnew⟩ | ⟨_, hb'⟩
    · exact due intent todo slow hnew
    · exact sound.serving b' intent todo slow hb'

/-- A broadcast takes the lock. -/
theorem Sound.rlock {h : Hub} {b : BroadcastId} {intent : Ref Intent} (sound : Sound h)
    (called : h.broadcasts b = some (.entered intent)) :
    Sound ({ h with readers := h.readers + 1 }.setBroadcast b (.sending intent h.clients [])) := by
  refine { sound with locked := ?_, serving := ?_ }
  · obtain ⟨holders, hdistinct, hlength, hmem⟩ := sound.locked
    have hnew : b ∉ holders := by
      rw [hmem b, holds, called]
      exact Bool.false_ne_true
    refine ⟨b :: holders, List.nodup_cons.mpr ⟨hnew, hdistinct⟩, congrArg (· + 1) hlength, ?_⟩
    intro b'
    rw [List.mem_cons, hmem b']
    by_cases heq : b' = b
    · simp [heq, holds, Hub.setBroadcast, Broadcast.holds]
    · simp [holds, Hub.setBroadcast, heq]
  · intro b' intent' todo slow hb' c hc
    rcases update_some_eq_some.mp hb' with ⟨_, hnew⟩ | ⟨_, hb'⟩
    · cases hnew
      exact hc
    · exact sound.serving b' intent' todo slow hb' c hc

/-- A broadcast lets go of the lock. -/
theorem Sound.runlock {h : Hub} {b : BroadcastId} {intent : Ref Intent} {slow : List ClientId}
    (sound : Sound h) (sending : h.broadcasts b = some (.sending intent [] slow)) :
    Sound ({ h with readers := h.readers - 1 }.setBroadcast b (.dropping slow)) := by
  refine { sound with locked := ?_, serving := ?_ }
  · obtain ⟨holders, hdistinct, hlength, hmem⟩ := sound.locked
    have hold : b ∈ holders := by
      rw [hmem b, holds, sending]
      rfl
    refine ⟨holders.erase b, hdistinct.erase b, ?_, ?_⟩
    · rw [List.length_erase_of_mem hold, hlength]
      rfl
    · intro b'
      rw [hdistinct.mem_erase_iff, hmem b']
      by_cases heq : b' = b
      · simp [heq, holds, Hub.setBroadcast, Broadcast.holds]
      · simp [holds, Hub.setBroadcast, heq]
  · intro b' intent' todo slow' hb'
    rcases update_some_eq_some.mp hb' with ⟨_, hnew⟩ | ⟨_, hb'⟩
    · cases hnew
    · exact sound.serving b' intent' todo slow' hb'

/-- A connection whose channel is closed. -/
def shut (session : Session) : Session := { session with closed := true }

/-- Closing a channel touches neither the lock nor a broadcast. -/
theorem close_frame (h : Hub) (c : ClientId) :
    (h.close c).broadcasts = h.broadcasts ∧ (h.close c).readers = h.readers := by
  unfold close
  split
  · exact ⟨rfl, rfl⟩
  · split <;> exact ⟨rfl, rfl⟩

theorem unregisterClient_frame (h : Hub) (c : ClientId) :
    (h.unregisterClient c).broadcasts = h.broadcasts ∧
      (h.unregisterClient c).readers = h.readers := by
  unfold unregisterClient
  split
  · exact close_frame _ c
  · exact ⟨rfl, rfl⟩

theorem closeAll_frame (h : Hub) :
    h.closeAll.broadcasts = h.broadcasts ∧ h.closeAll.readers = h.readers := by
  unfold Hub.closeAll
  generalize h.clients = cs
  induction cs generalizing h with
  | nil => exact ⟨rfl, rfl⟩
  | cons c cs ih =>
    obtain ⟨hbroadcasts, hreaders⟩ := ih (h.close c)
    exact ⟨hbroadcasts.trans (close_frame h c).1, hreaders.trans (close_frame h c).2⟩

/-- A client with an open channel leaves the map, and its channel is closed. -/
theorem unregisterClient_of_open {h : Hub} {c : ClientId} {session : Session} (mem : c ∈ h.clients)
    (client : h.sessions c = some session) (isOpen : session.closed = false) :
    h.unregisterClient c = { h with clients := h.clients.erase c }.setSession c (shut session) := by
  unfold unregisterClient
  rw [if_pos mem]
  simp only [close, client, isOpen]
  rfl

/-- What `unregisterClient` does: a client in the map leaves it and has its channel closed, once. -/
theorem Sound.unregisterClient_eq {h : Hub} {c : ClientId} {session : Session} (sound : Sound h)
    (client : h.sessions c = some session) :
    h.unregisterClient c =
      if c ∈ h.clients then { h with clients := h.clients.erase c }.setSession c (shut session)
      else h := by
  split
  · rename_i hc
    exact unregisterClient_of_open hc client ((sound.open_iff c session client).mp hc)
  · rename_i hc
    exact if_neg hc

/-- A client is unregistered while the lock is free. -/
theorem Sound.unregister {h : Hub} (sound : Sound h) (free : h.readers = 0) (c : ClientId) :
    Sound (h.unregisterClient c) := by
  by_cases hc : c ∈ h.clients
  · obtain ⟨session, client⟩ := sound.known c hc
    rw [sound.unregisterClient_eq client, if_pos hc]
    refine { sound with distinct := ?_, known := ?_, open_iff := ?_, serving := ?_ }
    · exact sound.distinct.erase c
    · intro c' hc'
      obtain ⟨hne, hc'⟩ := sound.distinct.mem_erase_iff.mp hc'
      obtain ⟨s, hs⟩ := sound.known c' hc'
      exact ⟨s, update_some_eq_some.mpr (.inr ⟨hne, hs⟩)⟩
    · intro c' s hs
      rcases update_some_eq_some.mp hs with ⟨rfl, rfl⟩ | ⟨hne, hs⟩
      · simp [Hub.setSession, sound.distinct.mem_erase_iff, shut]
      · rw [← sound.open_iff c' s hs]
        simp [Hub.setSession, sound.distinct.mem_erase_iff, hne]
    · intro b intent todo slow hb
      exact absurd hb (sound.not_sending free)
  · rw [unregisterClient, if_neg hc]
    exact sound

/-- What the loop of the shutdown does: every channel in the list is closed, once. -/
theorem foldl_close {h : Hub} {cs : List ClientId} (distinct : cs.Nodup)
    (isOpen : ∀ c ∈ cs, ∃ session, h.sessions c = some session ∧ session.closed = false) :
    cs.foldl close h =
      { h with sessions := fun c => if c ∈ cs then (h.sessions c).map shut else h.sessions c } := by
  induction cs generalizing h with
  | nil => simp
  | cons c cs ih =>
    obtain ⟨hnew, hdistinct⟩ := List.nodup_cons.mp distinct
    obtain ⟨session, hsession, hopen⟩ := isOpen c List.mem_cons_self
    have hclose : h.close c = h.setSession c (shut session) := by
      simp only [close, hsession, hopen]
      rfl
    rw [List.foldl_cons, hclose, ih hdistinct]
    · -- the head was closed first, and the rest leaves it alone
      simp only [Hub.setSession, Hub.mk.injEq, true_and, and_true]
      funext c'
      by_cases heq : c' = c
      · subst heq
        simp [hnew, hsession]
      · simp [heq]
    · intro c' hc'
      have hne : c' ≠ c := by
        rintro rfl
        exact hnew hc'
      obtain ⟨s, hs, hopen'⟩ := isOpen c' (List.mem_cons_of_mem _ hc')
      exact ⟨s, update_some_eq_some.mpr (.inr ⟨hne, hs⟩), hopen'⟩

/-- What the shutdown does. -/
theorem Sound.closeAll_eq {h : Hub} (sound : Sound h) :
    h.closeAll =
      { h with
        clients := []
        sessions := fun c =>
          if c ∈ h.clients then (h.sessions c).map shut else h.sessions c } := by
  rw [Hub.closeAll, foldl_close sound.distinct sound.exists_open]

theorem Sound.closeAll {h : Hub} (sound : Sound h) (free : h.readers = 0) : Sound h.closeAll := by
  rw [sound.closeAll_eq]
  refine { sound with distinct := List.nodup_nil, known := ?_, open_iff := ?_, serving := ?_ }
  · intro c hc
    cases hc
  · intro c session hsession
    simp only [List.not_mem_nil, false_iff, Bool.not_eq_false]
    by_cases hc : c ∈ h.clients
    · simp only [hc, if_true, Option.map_eq_some_iff] at hsession
      obtain ⟨old, _, rfl⟩ := hsession
      rfl
    · simp only [hc, if_false] at hsession
      have hclosed := (sound.open_iff c session hsession).not.mp hc
      simpa using hclosed
  · intro b intent todo slow hb
    exact absurd hb (sound.not_sending free)

/-- A solver connects. -/
theorem Sound.serve {h : Hub} {c : ClientId} {session : Session} (sound : Sound h)
    (fresh : h.sessions c = none) (free : h.readers = 0) (isOpen : session.closed = false) :
    Sound ({ h with clients := c :: h.clients }.setSession c session) := by
  have hnew : c ∉ h.clients := by
    intro hc
    obtain ⟨s, hs⟩ := sound.known c hc
    rw [fresh] at hs
    cases hs
  refine { sound with distinct := ?_, known := ?_, open_iff := ?_, serving := ?_ }
  · exact List.nodup_cons.mpr ⟨hnew, sound.distinct⟩
  · intro c' hc'
    by_cases heq : c' = c
    · exact ⟨session, update_some_eq_some.mpr (.inl ⟨heq, rfl⟩)⟩
    · obtain ⟨s, hs⟩ := sound.known c' ((List.mem_cons.mp hc').resolve_left heq)
      exact ⟨s, update_some_eq_some.mpr (.inr ⟨heq, hs⟩)⟩
  · intro c' s hs
    rcases update_some_eq_some.mp hs with ⟨rfl, rfl⟩ | ⟨hne, hs⟩
    · simp [Hub.setSession, isOpen]
    · rw [← sound.open_iff c' s hs]
      simp [Hub.setSession, hne]
  · intro b intent todo slow hb
    exact absurd hb (sound.not_sending free)

theorem sound_step {sendBufSize : Nat} {h h' : Hub} {a : Action} {o : Option Event}
    (sound : Sound h) (step : Step sendBufSize h a h' o) : Sound h' := by
  cases step with
  | serve fresh free => exact sound.serve fresh free rfl
  | rlock called => exact sound.rlock called
  | sendClosed sending due client shut =>
    -- who is due is in the map, so its channel is open
    have hopen := (sound.open_iff _ _ client).mp (sound.serving _ _ _ _ sending _ due)
    rw [shut] at hopen
    cases hopen
  | offer sending due client isOpen _ =>
    refine (sound.setSession client (by rfl)).setBroadcast ?_ ?_
    · simp [holds, Hub.setSession, sending, Broadcast.holds]
    · intro intent todo slow hnew c hc
      cases hnew
      exact sound.serving _ _ _ _ sending c (List.mem_of_mem_erase hc)
  | slow sending due client _ _ =>
    refine sound.setBroadcast ?_ ?_
    · simp [holds, sending, Broadcast.holds]
    · intro intent todo slow hnew c hc
      cases hnew
      exact sound.serving _ _ _ _ sending c (List.mem_of_mem_erase hc)
  | runlock sending => exact sound.runlock sending
  | drop dropping free =>
    refine (sound.unregister free _).setBroadcast ?_ (by intro intent todo slow hnew; cases hnew)
    rw [holds, (unregisterClient_frame _ _).1, dropping]
    rfl
  | finish dropping =>
    refine sound.setBroadcast ?_ (by intro intent todo slow hnew; cases hnew)
    simp [holds, dropping, Broadcast.holds]
  | write client _ _ | failWrite client _ _ | parkWriter client _ _ _ | ping client _ _
  | stopWriter client _ _ | stopReader client _ => exact sound.setSession client rfl
  | unregister client _ free => exact (sound.setSession client (by rfl)).unregister free _
  | shutdown free => exact sound.closeAll free

theorem sound_move {sendBufSize : Nat} {h h' : Hub} {m : Move} {o : Option Shown}
    (sound : Sound h) (moved : h.move sendBufSize m = some (h', o)) : Sound h' := by
  rcases move_cases moved with ⟨b, intent, _, fresh, rfl, _⟩ | ⟨a, e, _, step, _⟩
  · refine sound.setBroadcast ?_ (by intro intent todo slow hnew; cases hnew)
    rw [holds, fresh]
    rfl
  · exact sound_step sound step

/-- The invariant holds along every run. -/
theorem reached_sound {sendBufSize : Nat} {tr : List Shown} {h : Hub}
    (reached : (system sendBufSize).Path .new tr h) : Sound h :=
  reached.preserved sound_new fun _ _ _ _ sound moved => sound_move sound moved

/-- A panic is a send on a closed channel. -/
theorem move_panicked {sendBufSize : Nat} {h h' : Hub} {m : Move}
    (moved : h.move sendBufSize m = some (h', some .panicked)) : h'.crashed = true := by
  rcases move_cases moved with ⟨b, intent, _, _, _, hshown⟩ | ⟨a, e, _, step, hshown⟩
  · cases hshown
  · cases step with
    | sendClosed _ _ _ _ => rfl
    | offer sending _ _ _ _ => simp [shown, message, sending] at hshown
    | _ => cases hshown

/-- **The channels are safe**: in every state the hub can reach, a client that was registered is in
the map exactly as long as its channel is open; nobody has closed a channel twice, and nobody has
sent on a closed one. -/
theorem channels_safe {sendBufSize : Nat} {tr : List Shown} {h : Hub}
    (reached : (system sendBufSize).Path .new tr h) :
    (∀ c ∈ h.clients, ∃ session, h.sessions c = some session) ∧
    (∀ c session, h.sessions c = some session → (c ∈ h.clients ↔ session.closed = false)) ∧
    h.crashed = false ∧ .panicked ∉ tr := by
  have hsound := reached_sound reached
  refine ⟨hsound.known, hsound.open_iff, hsound.intact, ?_⟩
  intro hpanic
  obtain ⟨xs, ys, h₁, m, h₂, _, hpre, _, hmove, _⟩ := reached.at_mem hpanic
  have hintact := (sound_move (reached_sound hpre) hmove).intact
  rw [move_panicked hmove] at hintact
  cases hintact

namespace Sample

open VynxRelayer.Sample

/-- Two broadcasts find the only client slow while its `readPump` leaves; all three unregister it,
and then the hub shuts down. -/
def crowded : List Move :=
  [.act (.serve 0), .call 0 intent, .call 1 intent, .act (.rlock 0), .act (.rlock 1),
    .act (.offer 1 0), .act (.offer 0 0), .act (.runlock 0), .act (.stopReader 0),
    .act (.runlock 1), .act (.drop 1), .act (.unregister 0), .act (.drop 0), .act (.finish 0),
    .act (.finish 1), .act .shutdown]

def crowdedTrace : List Shown :=
  [.joined 0, .called 0 intent, .called 1 intent, .slow 1 0, .slow 0 0, .released 0, .released 1,
    .returned 0, .returned 1]

end Sample

theorem channels_safe_crowded : ∃ h, (system 0).Path .new Sample.crowdedTrace h ∧
    (∀ c session, h.sessions c = some session → (c ∈ h.clients ↔ session.closed = false)) ∧
    h.crashed = false := by
  obtain ⟨h, reached⟩ := System.exists_path_of_run
    (show ((system 0).run .new Sample.crowded).map Prod.snd = some Sample.crowdedTrace by
      decide +kernel)
  obtain ⟨_, hopen, hintact, _⟩ := channels_safe reached
  exact ⟨h, reached, hopen, hintact⟩

end Hub

end VynxRelayer.Ingress
