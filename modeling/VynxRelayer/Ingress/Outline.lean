import VynxRelayer.Ingress.Hub
import VynxRelayer.Lib.Relabel

/-!
# What the hub sees of an intent

A broadcast carries an intent from its handler to the solvers, and the hub decides nothing by it:
which clients it is offered to, which of them are slow and who is unregistered is the same for any
intent. Outlining every intent in a hub commutes with every step (`Hub.next_outline`).
-/

namespace VynxRelayer.Ingress

open Lib

def Session.outline (session : Session) : Session :=
  { session with send := session.send.map outlined }

def Broadcast.outline : Broadcast → Broadcast
  | .entered intent => .entered (outlined intent)
  | .sending intent todo slow => .sending (outlined intent) todo slow
  | .dropping slow => .dropping slow
  | .finished => .finished

namespace Hub

/-- A hub with every intent in it outlined. -/
def outline (h : Hub) : Hub :=
  { h with
    sessions := fun c => (h.sessions c).map Session.outline
    broadcasts := fun b => (h.broadcasts b).map Broadcast.outline }

/-- An event with every intent in it outlined. -/
def Event.outline : Event → Event
  | .delivered c intent => .delivered c (outlined intent)
  | .lost c intent => .lost c (outlined intent)
  | e => e

variable (h : Hub)

theorem setSession_outline (c : ClientId) (session : Session) :
    (h.setSession c session).outline = h.outline.setSession c session.outline := by
  simp only [outline, setSession, map_update, Option.map_some]

theorem setBroadcast_outline (b : BroadcastId) (broadcast : Broadcast) :
    (h.setBroadcast b broadcast).outline = h.outline.setBroadcast b broadcast.outline := by
  simp only [outline, setBroadcast, map_update, Option.map_some]

theorem call_outline (b : BroadcastId) (intent : Ref Intent) :
    (h.call b intent).outline = h.outline.call b (outlined intent) :=
  setBroadcast_outline h b (.entered intent)

theorem close_outline (c : ClientId) : (h.close c).outline = h.outline.close c := by
  unfold close
  rw [show h.outline.sessions c = (h.sessions c).map Session.outline from rfl]
  cases h.sessions c with
  | none => rfl
  | some session =>
    rw [Option.map_some]
    simp only [show session.outline.closed = session.closed from rfl]
    split
    · rfl
    · exact setSession_outline h c _

theorem unregisterClient_outline (c : ClientId) :
    (h.unregisterClient c).outline = h.outline.unregisterClient c := by
  unfold unregisterClient
  rw [show h.outline.clients = h.clients from rfl]
  split
  · exact close_outline _ c
  · rfl

theorem foldl_close_outline (clients : List ClientId) :
    (clients.foldl close h).outline = clients.foldl close h.outline := by
  induction clients generalizing h with
  | nil => rfl
  | cons c rest ih => rw [List.foldl_cons, List.foldl_cons, ih, close_outline]

theorem closeAll_outline : h.closeAll.outline = h.outline.closeAll := by
  unfold closeAll
  rw [show h.outline.clients = h.clients from rfl, ← foldl_close_outline]
  rfl

/-- **A step of the hub depends on no intent.** -/
theorem next_outline (sendBufSize : Nat) (a : Action) :
    h.outline.next sendBufSize a =
      (h.next sendBufSize a).map (Prod.map outline (Option.map Event.outline)) := by
  have hsessions : ∀ c, h.outline.sessions c = (h.sessions c).map Session.outline := fun _ => rfl
  have hbroadcasts : ∀ b, h.outline.broadcasts b = (h.broadcasts b).map Broadcast.outline :=
    fun _ => rfl
  have hreaders : h.outline.readers = h.readers := rfl
  cases a with
  | serve c =>
    simp only [next, hsessions, hreaders]
    cases h.sessions c with
    | some _ => rfl
    | none =>
      cases h.readers with
      | succ _ => rfl
      | zero =>
        simp only [Option.map_none, Option.map_some, Prod.map, setSession_outline]
        rfl
  | rlock b =>
    simp only [next, hbroadcasts]
    cases h.broadcasts b with
    | none => rfl
    | some broadcast =>
      cases broadcast with
      | sending _ _ _ | dropping _ | finished => rfl
      | entered intent =>
        simp only [Option.map_some, Prod.map, setBroadcast_outline]
        rfl
  | offer b c =>
    simp only [next, hbroadcasts]
    cases h.broadcasts b with
    | none => rfl
    | some broadcast =>
      cases broadcast with
      | entered _ | dropping _ | finished => rfl
      | sending intent todo slow =>
        simp only [Option.map_some, Broadcast.outline, hsessions]
        split
        · cases h.sessions c with
          | none => rfl
          | some session =>
            simp only [Option.map_some, show session.outline.closed = session.closed from rfl,
              show session.outline.send = session.send.map outlined from rfl, Chan.trySend_map]
            split
            · rfl
            · cases session.send.trySend intent with
              | some send =>
                simp only [Option.map_some, Prod.map, setBroadcast_outline, setSession_outline]
                rfl
              | none =>
                simp only [Option.map_none, Option.map_some, Prod.map, setBroadcast_outline]
                rfl
        · rfl
  | runlock b =>
    simp only [next, hbroadcasts]
    cases h.broadcasts b with
    | none => rfl
    | some broadcast =>
      cases broadcast with
      | entered _ | dropping _ | finished => rfl
      | sending intent todo slow =>
        cases todo with
        | cons _ _ => rfl
        | nil =>
          simp only [Option.map_some, Prod.map, setBroadcast_outline]
          rfl
  | drop b =>
    simp only [next, hbroadcasts, hreaders]
    cases h.broadcasts b with
    | none => rfl
    | some broadcast =>
      cases broadcast with
      | entered _ | sending _ _ _ | finished => rfl
      | dropping slow =>
        cases slow with
        | nil => rfl
        | cons c slow =>
          cases h.readers with
          | succ _ => rfl
          | zero =>
            simp only [Option.map_some, Prod.map, setBroadcast_outline, unregisterClient_outline]
            rfl
  | finish b =>
    simp only [next, hbroadcasts]
    cases h.broadcasts b with
    | none => rfl
    | some broadcast =>
      cases broadcast with
      | entered _ | sending _ _ _ | finished => rfl
      | dropping slow =>
        cases slow with
        | cons _ _ => rfl
        | nil =>
          simp only [Option.map_some, Prod.map, setBroadcast_outline]
          rfl
  | write c | failWrite c =>
    simp only [next, hsessions]
    cases h.sessions c with
    | none => rfl
    | some session =>
      simp only [Option.map_some, show session.outline.writing = session.writing from rfl,
        show session.outline.send = session.send.map outlined from rfl, Chan.take_map]
      split
      · cases session.send.take with
        | none => rfl
        | some taken =>
          simp only [Option.map_some, Prod.map, setSession_outline]
          rfl
      · rfl
  | parkWriter c =>
    simp only [next, hsessions]
    cases h.sessions c with
    | none => rfl
    | some session =>
      simp only [Option.map_some, show session.outline.writing = session.writing from rfl,
        show session.outline.closed = session.closed from rfl,
        show session.outline.send = session.send.map outlined from rfl, Chan.park_map]
      split
      · cases session.send.park with
        | none => rfl
        | some send =>
          simp only [Option.map_some, Prod.map, setSession_outline]
          rfl
      · rfl
  | ping c =>
    simp only [next, hsessions]
    cases h.sessions c with
    | none => rfl
    | some session =>
      have hparked : session.outline.send.receiver.isParked = session.send.receiver.isParked :=
        Receiver.isParked_map _ _
      simp only [Option.map_some, show session.outline.writing = session.writing from rfl, hparked]
      split
      · simp only [Option.map_some, Prod.map, setSession_outline]
        rfl
      · rfl
  | stopWriter c =>
    simp only [next, hsessions]
    cases h.sessions c with
    | none => rfl
    | some session =>
      have hhanded : session.outline.send.receiver.handed = [] ↔
          session.send.receiver.handed = [] := by
        rw [show session.outline.send.receiver = session.send.receiver.map outlined from rfl,
          Receiver.handed_map, List.map_eq_nil_iff]
      simp only [Option.map_some, show session.outline.writing = session.writing from rfl, hhanded]
      split
      · simp only [Option.map_some, Prod.map, setSession_outline]
        rfl
      · rfl
  | stopReader c =>
    simp only [next, hsessions]
    cases h.sessions c with
    | none => rfl
    | some session =>
      simp only [Option.map_some, show session.outline.reader = session.reader from rfl]
      cases session.reader with
      | leaving | left => rfl
      | reading =>
        simp only [Option.map_some, Prod.map, setSession_outline]
        rfl
  | unregister c =>
    simp only [next, hsessions, hreaders]
    cases h.sessions c with
    | none => rfl
    | some session =>
      cases h.readers with
      | succ _ => rfl
      | zero =>
        simp only [Option.map_some, show session.outline.reader = session.reader from rfl]
        cases session.reader with
        | reading | left => rfl
        | leaving =>
          simp only [Option.map_some, Prod.map, setSession_outline, unregisterClient_outline]
          rfl
  | shutdown =>
    simp only [next, hreaders]
    split
    · simp only [Option.map_some, Prod.map, closeAll_outline]
      rfl
    · rfl

end Hub

end VynxRelayer.Ingress
