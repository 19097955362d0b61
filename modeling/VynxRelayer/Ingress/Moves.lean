import VynxRelayer.Ingress.Membership

/-!
# What a move does

A move of the hub is seen by the broadcasts and by the clients, and each of them sees little of it.
`BroadcastMove` is all that a move can do to one broadcast, and `ClientMove` all that it can do to
one client; `broadcastMove` and `clientMove` say so of every move. What holds of a broadcast or of a
client along a run is proved over these two.
-/

namespace VynxRelayer.Ingress

open Lib

namespace Hub

variable {sendBufSize : Nat} {tr : List Shown} {h h' : Hub}

namespace Shown

/-- The broadcast that an event belongs to. -/
def broadcast? : Shown → Option BroadcastId
  | .called b _ => some b
  | .put b _ _ => some b
  | .slow b _ => some b
  | .released b => some b
  | .returned b => some b
  | _ => none

/-- The client whose registration or queue an event is about. -/
def client? : Shown → Option ClientId
  | .joined c => some c
  | .put _ c _ => some c
  | .taken c _ => some c
  | _ => none

end Shown

/-! ## A broadcast's view -/

theorem setBroadcast_unregister (h : Hub) (b : BroadcastId) (c : ClientId)
    (broadcast : Broadcast) :
    ((h.unregisterClient c).setBroadcast b broadcast).broadcasts =
      Function.update h.broadcasts b (some broadcast) := by
  rw [Hub.setBroadcast, (unregisterClient_frame h c).1]

/-- What a move does to one broadcast. -/
inductive BroadcastMove (b : BroadcastId) (h h' : Hub) (o : Option Shown) : Prop
  | rest (same : h'.broadcasts b = h.broadcasts b)
      (map : h'.clients = h.clients ∨ h.readers = 0)
      (quiet : ∀ e, o = some e → e.broadcast? ≠ some b)
  | call {intent} (fresh : h.broadcasts b = none)
      (called : h'.broadcasts b = some (.entered intent)) (shows : o = some (.called b intent))
  | lock {intent} (called : h.broadcasts b = some (.entered intent))
      (sending : h'.broadcasts b = some (.sending intent h.clients []))
      (map : h'.clients = h.clients) (shows : o = none)
  | offer {intent todo slow c} (sending : h.broadcasts b = some (.sending intent todo slow))
      (due : c ∈ todo) (served : h'.broadcasts b = some (.sending intent (todo.erase c) slow))
      (map : h'.clients = h.clients) (shows : o = some (.put b c intent))
  | slow {intent todo slow c} (sending : h.broadcasts b = some (.sending intent todo slow))
      (due : c ∈ todo)
      (noted : h'.broadcasts b = some (.sending intent (todo.erase c) (slow ++ [c])))
      (map : h'.clients = h.clients) (shows : o = some (.slow b c))
  | release {intent slow} (sending : h.broadcasts b = some (.sending intent [] slow))
      (released : h'.broadcasts b = some (.dropping slow)) (shows : o = some (.released b))
  | drop {c slow} (dropping : h.broadcasts b = some (.dropping (c :: slow)))
      (dropped : h'.broadcasts b = some (.dropping slow))
      (map : h'.clients = (h.unregisterClient c).clients) (shows : o = none)
  | finish (dropping : h.broadcasts b = some (.dropping []))
      (finished : h'.broadcasts b = some .finished) (shows : o = some (.returned b))

/-- Another broadcast moves on. -/
theorem BroadcastMove.other {b b' : BroadcastId} {new : Broadcast} {o : Option Shown} (ne : b ≠ b')
    (update : h'.broadcasts = Function.update h.broadcasts b' (some new))
    (map : h'.clients = h.clients ∨ h.readers = 0)
    (own : ∀ e, o = some e → e.broadcast? = some b') : BroadcastMove b h h' o := by
  refine .rest ?_ map ?_
  · rw [update, Function.update_of_ne ne]
  · intro e he heq
    rw [own e he] at heq
    exact ne (Option.some.inj heq).symm

/-- **Every move, as one broadcast sees it.** -/
theorem broadcastMove {m : Move} {o : Option Shown} (moved : h.move sendBufSize m = some (h', o))
    (b : BroadcastId) : BroadcastMove b h h' o := by
  rcases move_cases moved with ⟨b', intent, _, fresh, rfl, rfl⟩ | ⟨a, e, _, step, rfl⟩
  · by_cases hb : b = b'
    · subst hb
      exact .call fresh (Function.update_self ..) rfl
    · exact .other hb rfl (.inl rfl) (by intro e he; cases he; rfl)
  · cases step with
    | @rlock b' _ called =>
      by_cases hb : b = b'
      · subst hb
        exact .lock called (Function.update_self ..) rfl rfl
      · exact .other hb rfl (.inl rfl) (by intro e he; cases he)
    | @offer b' _ _ _ _ _ _ sending due _ _ _ =>
      simp only [shown, message, sending, Option.map_some]
      by_cases hb : b = b'
      · subst hb
        exact .offer sending due (Function.update_self ..) rfl rfl
      · exact .other hb rfl (.inl rfl) (by intro e he; cases he; rfl)
    | @slow b' _ _ _ _ _ sending due _ _ _ =>
      by_cases hb : b = b'
      · subst hb
        exact .slow sending due (Function.update_self ..) rfl rfl
      · exact .other hb rfl (.inl rfl) (by intro e he; cases he; rfl)
    | @runlock b' _ _ sending =>
      by_cases hb : b = b'
      · subst hb
        exact .release sending (Function.update_self ..) rfl
      · exact .other hb rfl (.inl rfl) (by intro e he; cases he; rfl)
    | @drop b' c slow dropping free =>
      have hupdate := setBroadcast_unregister h b' c (.dropping slow)
      by_cases hb : b = b'
      · subst hb
        exact .drop dropping (by rw [hupdate, Function.update_self]) rfl rfl
      · exact .other hb hupdate (.inr free) (by intro e he; cases he)
    | @finish b' dropping =>
      by_cases hb : b = b'
      · subst hb
        exact .finish dropping (Function.update_self ..) rfl
      · exact .other hb rfl (.inl rfl) (by intro e he; cases he; rfl)
    | serve _ free => exact .rest rfl (.inr free) (by intro e he; cases he; simp [Shown.broadcast?])
    | unregister _ _ free =>
      exact .rest (by rw [(unregisterClient_frame _ _).1]; rfl) (.inr free) (by intro e he; cases he)
    | shutdown free =>
      exact .rest (by rw [(closeAll_frame _).1]) (.inr free) (by intro e he; cases he)
    | sendClosed _ _ _ _ | write _ _ _ | failWrite _ _ _ =>
      exact .rest rfl (.inl rfl) (by intro e he; cases he; simp [Shown.broadcast?])
    | parkWriter _ _ _ _ | ping _ _ _ | stopWriter _ _ _ | stopReader _ _ =>
      exact .rest rfl (.inl rfl) (by intro e he; cases he)

/-! ## A client's view -/

/-- What a move does to a queue. -/
inductive QueueMove (c : ClientId) (old new : Chan (Ref Intent)) (o : Option Shown) : Prop
  | put {b intent} (sent : old.trySend intent = some new) (shows : o = some (.put b c intent))
  | take {intent} (taken : old.take = some (intent, new)) (shows : o = some (.taken c intent))
  | rest (pending : new.pending = old.pending) (cap : new.cap = old.cap)
      (quiet : ∀ e, o = some e → e.client? ≠ some c)

/-- What a move does to one client. -/
inductive ClientMove (sendBufSize : Nat) (c : ClientId) (h h' : Hub) (o : Option Shown) : Prop
  | idle (session : h'.sessions c = h.sessions c) (member : c ∈ h'.clients ↔ c ∈ h.clients)
      (quiet : ∀ e, o = some e → e.client? ≠ some c)
  | joins {session} (fresh : h.sessions c = none) (joined : h'.sessions c = some session)
      (queue : session.send = .make sendBufSize) (shows : o = some (.joined c))
  | moves {old new} (client : h.sessions c = some old) (moved : h'.sessions c = some new)
      (member : c ∈ h'.clients ↔ c ∈ h.clients) (queue : QueueMove c old.send new.send o)
  | leaves {old new} (client : h.sessions c = some old) (moved : h'.sessions c = some new)
      (queue : new.send = old.send) (gone : c ∉ h'.clients)
      (quiet : ∀ e, o = some e → e.client? ≠ some c)

/-- A client sees its connection and the map. -/
theorem ClientMove.congr {c : ClientId} {h'' : Hub} {o : Option Shown}
    (view : ClientMove sendBufSize c h h' o) (sessions : h''.sessions = h'.sessions)
    (clients : h''.clients = h'.clients) : ClientMove sendBufSize c h h'' o := by
  cases view with
  | idle session member quiet =>
    exact .idle (by rw [sessions, session]) (by rw [clients, member]) quiet
  | joins fresh joined queue shows => exact .joins fresh (by rw [sessions, joined]) queue shows
  | moves client moved member queue =>
    exact .moves client (by rw [sessions, moved]) (by rw [clients, member]) queue
  | leaves client moved queue gone quiet =>
    exact .leaves client (by rw [sessions, moved]) queue (by rw [clients]; exact gone) quiet

/-- A connection moves on: its own client sees it, the others see nothing. -/
theorem ClientMove.setSession {c d : ClientId} {old new : Session} {o : Option Shown}
    (client : h.sessions d = some old) (queue : QueueMove d old.send new.send o)
    (others : c ≠ d → ∀ e, o = some e → e.client? ≠ some c) :
    ClientMove sendBufSize c h (h.setSession d new) o := by
  by_cases hc : c = d
  · subst hc
    exact .moves client (Function.update_self ..) .rfl queue
  · exact .idle (Function.update_of_ne hc ..) .rfl (others hc)

/-- Unregistering one client is nothing to another one. -/
theorem unregisterClient_other (sound : Sound h) {c d : ClientId} (other : c ≠ d) :
    (h.unregisterClient d).sessions c = h.sessions c ∧
      (c ∈ (h.unregisterClient d).clients ↔ c ∈ h.clients) := by
  by_cases hd : d ∈ h.clients
  · obtain ⟨session, client⟩ := sound.known d hd
    rw [sound.unregisterClient_eq client, if_pos hd]
    exact ⟨Function.update_of_ne other .., List.mem_erase_of_ne other⟩
  · rw [unregisterClient, if_neg hd]
    exact ⟨rfl, .rfl⟩

theorem unregisterClient_self (sound : Sound h) (c : ClientId) :
    c ∉ (h.unregisterClient c).clients := by
  by_cases hin : c ∈ h.clients
  · obtain ⟨session, client⟩ := sound.known c hin
    rw [sound.unregisterClient_eq client, if_pos hin]
    exact sound.distinct.not_mem_erase
  · rw [unregisterClient, if_neg hin]
    exact hin

/-- A client is unregistered: it leaves the map, or had left it before. -/
theorem ClientMove.unregister (sound : Sound h) (c d : ClientId) :
    ClientMove sendBufSize c h (h.unregisterClient d) none := by
  by_cases hc : c = d
  · subst hc
    by_cases hin : c ∈ h.clients
    · obtain ⟨session, client⟩ := sound.known c hin
      rw [sound.unregisterClient_eq client, if_pos hin]
      refine .leaves client (Function.update_self ..) rfl ?_ (by intro e he; cases he)
      exact sound.distinct.not_mem_erase
    · rw [unregisterClient, if_neg hin]
      exact .idle rfl .rfl (by intro e he; cases he)
  · obtain ⟨hsession, hmember⟩ := unregisterClient_other sound hc
    exact .idle hsession hmember (by intro e he; cases he)

/-- **Every move, as one client sees it.** -/
theorem clientMove {m : Move} {o : Option Shown} (sound : Sound h)
    (moved : h.move sendBufSize m = some (h', o)) (c : ClientId) :
    ClientMove sendBufSize c h h' o := by
  rcases move_cases moved with ⟨b, intent, _, _, rfl, rfl⟩ | ⟨a, e, _, step, rfl⟩
  · exact .idle rfl .rfl (by intro e he; cases he; simp [Shown.client?])
  · cases step with
    | @serve d fresh _ =>
      by_cases hc : c = d
      · subst hc
        exact .joins fresh (Function.update_self ..) rfl rfl
      · refine .idle (Function.update_of_ne hc ..) ?_ ?_
        · simp [Hub.setSession, hc]
        · intro e he
          cases he
          simp [Shown.client?, Ne.symm hc]
    | @offer b d intent _ _ session send sending _ client _ sent =>
      simp only [shown, message, sending, Option.map_some]
      have hview : ClientMove sendBufSize c h (h.setSession d { session with send })
          (some (.put b d intent)) :=
        .setSession client (.put sent rfl)
          (by intro hc e he; cases he; simp [Shown.client?, Ne.symm hc])
      exact hview.congr rfl rfl
    | sendClosed _ _ _ _ | slow _ _ _ _ _ | rlock _ | runlock _ | finish _ =>
      exact .idle rfl .rfl (by intro e he; cases he <;> simp [Shown.client?])
    | write client _ taken | failWrite client _ taken =>
      exact .setSession client (.take taken rfl)
        (by intro hc e he; cases he; simp [Shown.client?, Ne.symm hc])
    | parkWriter client _ _ parked =>
      exact .setSession client (.rest (Chan.pending_park parked).1 (Chan.pending_park parked).2
        (by intro e he; cases he)) (by intro _ e he; cases he)
    | ping client _ parked =>
      have hidle := Chan.pending_abandon (Chan.handed_of_parked parked)
      exact .setSession client (.rest hidle.1 hidle.2 (by intro e he; cases he))
        (by intro _ e he; cases he)
    | stopWriter client _ idle =>
      have hidle := Chan.pending_abandon idle
      exact .setSession client (.rest hidle.1 hidle.2 (by intro e he; cases he))
        (by intro _ e he; cases he)
    | stopReader client _ =>
      exact .setSession client (.rest rfl rfl (by intro e he; cases he)) (by intro _ e he; cases he)
    | drop _ _ => exact (ClientMove.unregister sound c _).congr rfl rfl
    | @unregister d session client _ _ =>
      have hleft : Sound (h.setSession d { session with reader := .left }) :=
        sound.setSession client rfl
      rw [hleft.unregisterClient_eq (Function.update_self ..)]
      by_cases hc : c = d
      · subst hc
        split
        · refine .leaves client (Function.update_self ..) rfl ?_ (by intro e he; cases he)
          exact sound.distinct.not_mem_erase
        · exact .moves client (Function.update_self ..) .rfl
            (.rest rfl rfl (by intro e he; cases he))
      · split
        · refine .idle ?_ (List.mem_erase_of_ne hc) (by intro e he; cases he)
          exact (Function.update_of_ne hc ..).trans (Function.update_of_ne hc ..)
        · exact .idle (Function.update_of_ne hc ..) .rfl (by intro e he; cases he)
    | shutdown _ =>
      have hclosed := sound.closeAll_eq
      by_cases hc : c ∈ h.clients
      · obtain ⟨session, client⟩ := sound.known c hc
        have hshut : h.closeAll.sessions c = some (shut session) := by
          rw [hclosed]
          simp [hc, client]
        exact .leaves client hshut rfl List.not_mem_nil (by intro e he; cases he)
      · refine .idle ?_ ?_ (by intro e he; cases he)
        · rw [hclosed]
          simp [hc]
        · simp [Hub.closeAll, hc]

/-- A client has a connection exactly when it has joined. -/
theorem joined_iff (reached : (system sendBufSize).Path .new tr h) (c : ClientId) :
    h.sessions c ≠ none ↔ .joined c ∈ tr := by
  induction reached with
  | nil => simp [new]
  | snoc reached _ moved ih =>
    rw [List.mem_append, ← ih, Option.mem_toList]
    have hnot : ∀ {o : Option Shown}, (∀ e, o = some e → e.client? ≠ some c) →
        o ≠ some (.joined c) := by
      intro o quiet ho
      exact quiet _ ho rfl
    cases clientMove (reached_sound reached) moved c with
    | idle session _ quiet => simp [session, hnot quiet]
    | joins fresh joined _ shows => simp [fresh, joined, shows]
    | moves client moved _ _ => simp [client, moved]
    | leaves client moved _ _ _ => simp [client, moved]

/-- No move forgets a client. -/
theorem move_known {m : Move} {o : Option Shown} {c : ClientId} (sound : Sound h)
    (moved : h.move sendBufSize m = some (h', o)) (known : h.sessions c ≠ none) :
    h'.sessions c ≠ none := by
  cases clientMove sound moved c with
  | idle session _ _ => rwa [session]
  | joins fresh _ _ _ => exact absurd fresh known
  | moves _ moved _ _ | leaves _ moved _ _ _ => simp [moved]

/-- A client that has left does not come back. -/
theorem move_gone {m : Move} {o : Option Shown} {c : ClientId} (sound : Sound h)
    (moved : h.move sendBufSize m = some (h', o)) (known : h.sessions c ≠ none)
    (gone : c ∉ h.clients) : c ∉ h'.clients := by
  cases clientMove sound moved c with
  | idle _ member _ | moves _ _ member _ => rwa [member]
  | joins fresh _ _ _ => exact absurd fresh known
  | leaves _ _ _ gone _ => exact gone

/-- Who is in the map at the end of a run, and had joined before its beginning, was in it then. -/
theorem was_registered {c : ClientId} (sound : Sound h)
    (path : (system sendBufSize).Path h tr h') (known : h.sessions c ≠ none)
    (registered : c ∈ h'.clients) : c ∈ h.clients := by
  by_contra gone
  have hgone : Sound h' ∧ h'.sessions c ≠ none ∧ c ∉ h'.clients := by
    refine path.preserved (I := fun h => Sound h ∧ h.sessions c ≠ none ∧ c ∉ h.clients)
      ⟨sound, known, gone⟩ ?_
    rintro h₁ m h₂ o ⟨hsound, hknown, hout⟩ moved
    exact ⟨sound_move hsound moved, move_known hsound moved hknown,
      move_gone hsound moved hknown hout⟩
  exact hgone.2.2 registered

end Hub

end VynxRelayer.Ingress
