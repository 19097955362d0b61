import VynxRelayer.Core
import VynxRelayer.Lib.Chan
import Mathlib.Logic.Function.Basic

/-!
# The solver hub

`internal/ingress/mempool_ws.go`: the registry of connected solvers, the broadcasts of new intents
to them, and the two goroutines of each connection.

A registration, an unregistration and the shutdown hold the write lock of `Hub.mu` for all they do,
so each is one step, possible while no broadcast holds the read lock. A broadcast is many: it takes
the read lock, offers the message to one registered client after the other (in an order the map
chooses, so the next one is any that is left), lets go of the lock, and then unregisters the clients
whose queue was full. A send on a closed channel, and a second close, would panic; both are kept as
outcomes (`crashed`).

A connection can fail at any time. Its `writePump` then stops, with the message it has just received
or without one, or its `readPump` leaves its loop and unregisters the client. Messages are intents,
of which a solver is shown the fields of `IntentPayload`: their JSON rendering is left out, and so
are the deadlines of reads and writes.

`Step` lists what an action can do, guard and effect, and `next_cases` says that it can do nothing
else.
-/

namespace VynxRelayer.Ingress

open Lib

/-- The name of one connection. -/
abbrev ClientId := Nat

/-- The name of one call of `BroadcastIntent`. -/
abbrev BroadcastId := Nat

/-- What a broadcast tells the solvers of an intent. -/
structure IntentPayload where
  id : IntentID
  tokenIn : Address
  tokenOut : Address
  amountIn : Int
  minAmountOut : Int
  deadline : Int64
  deriving DecidableEq

/-- The payload `BroadcastIntent` builds. -/
def payload (intent : Intent) : IntentPayload where
  id := intent.id
  tokenIn := intent.tokenIn
  tokenOut := intent.tokenOut
  amountIn := intent.amountIn
  minAmountOut := intent.minAmountOut
  deadline := intent.deadline

/-- Where the `readPump` of a connection stands. -/
inductive Reader where
  | reading
  /-- its loop is left, the deferred `unregisterClient` is next -/
  | leaving
  | left
  deriving DecidableEq

/-- A connected solver: its outbound queue, whether the hub has closed it, and its two
goroutines. -/
structure Session where
  send : Chan (Ref Intent)
  closed : Bool
  reader : Reader
  writing : Bool

/-- Where a call of `BroadcastIntent` stands. -/
inductive Broadcast where
  | entered (intent : Ref Intent)
  /-- it holds the read lock, with the clients still to serve and those found slow -/
  | sending (intent : Ref Intent) (todo slow : List ClientId)
  /-- the lock is released, the slow clients are to be unregistered -/
  | dropping (slow : List ClientId)
  | finished
  deriving DecidableEq

/-- The hub: the registered clients, all connections there ever were, the broadcasts, the number of
those that hold the read lock, and whether a goroutine has panicked. -/
structure Hub where
  clients : List ClientId
  sessions : ClientId → Option Session
  broadcasts : BroadcastId → Option Broadcast
  readers : Nat
  crashed : Bool

namespace Hub

inductive Action where
  | serve (c : ClientId)
  | rlock (b : BroadcastId)
  | offer (b : BroadcastId) (c : ClientId)
  | runlock (b : BroadcastId)
  | drop (b : BroadcastId)
  | finish (b : BroadcastId)
  | write (c : ClientId)
  | failWrite (c : ClientId)
  | parkWriter (c : ClientId)
  | ping (c : ClientId)
  | stopWriter (c : ClientId)
  | stopReader (c : ClientId)
  | unregister (c : ClientId)
  | shutdown
  deriving DecidableEq

inductive Event where
  | joined (c : ClientId)
  /-- broadcast `b` put its message into the queue of client `c` -/
  | offered (b : BroadcastId) (c : ClientId)
  | slow (b : BroadcastId) (c : ClientId)
  /-- the message was written to the connection of client `c` -/
  | delivered (c : ClientId) (intent : Ref Intent)
  /-- the message was received for client `c`, and its write failed -/
  | lost (c : ClientId) (intent : Ref Intent)
  | panicked
  deriving DecidableEq

/-- `NewHub`. -/
def new : Hub where
  clients := []
  sessions := fun _ => none
  broadcasts := fun _ => none
  readers := 0
  crashed := false

def setSession (h : Hub) (c : ClientId) (session : Session) : Hub :=
  { h with sessions := Function.update h.sessions c (some session) }

def setBroadcast (h : Hub) (b : BroadcastId) (broadcast : Broadcast) : Hub :=
  { h with broadcasts := Function.update h.broadcasts b (some broadcast) }

/-- A call of `BroadcastIntent` begins. -/
def call (h : Hub) (b : BroadcastId) (intent : Ref Intent) : Hub :=
  h.setBroadcast b (.entered intent)

/-- `close(c.send)`. -/
def close (h : Hub) (c : ClientId) : Hub :=
  match h.sessions c with
  | none => h
  | some session =>
    if session.closed then { h with crashed := true }
    else h.setSession c { session with closed := true }

/-- `unregisterClient` under the write lock. -/
def unregisterClient (h : Hub) (c : ClientId) : Hub :=
  if c ∈ h.clients then { h with clients := h.clients.erase c }.close c else h

/-- The loop of `Run` at shutdown, under the write lock. -/
def closeAll (h : Hub) : Hub := { h.clients.foldl close h with clients := [] }

/-- One step of one goroutine. -/
def next (sendBufSize : Nat) (h : Hub) : Action → Option (Hub × Option Event)
  | .serve c =>
    match h.sessions c, h.readers with
    | none, 0 =>
      some ({ h with clients := c :: h.clients }.setSession c
        { send := .make sendBufSize, closed := false, reader := .reading, writing := true },
        some (.joined c))
    | _, _ => none
  | .rlock b =>
    match h.broadcasts b with
    | some (.entered intent) =>
      some ({ h with readers := h.readers + 1 }.setBroadcast b (.sending intent h.clients []), none)
    | _ => none
  | .offer b c =>
    match h.broadcasts b with
    | some (.sending intent todo slow) =>
      if c ∈ todo then
        match h.sessions c with
        | none => none
        | some session =>
          if session.closed then some ({ h with crashed := true }, some .panicked)
          else
            match session.send.trySend intent with
            | some send =>
              some ((h.setSession c { session with send }).setBroadcast b
                (.sending intent (todo.erase c) slow), some (.offered b c))
            | none =>
              some (h.setBroadcast b (.sending intent (todo.erase c) (slow ++ [c])),
                some (.slow b c))
      else none
    | _ => none
  | .runlock b =>
    match h.broadcasts b with
    | some (.sending _ [] slow) =>
      some ({ h with readers := h.readers - 1 }.setBroadcast b (.dropping slow), none)
    | _ => none
  | .drop b =>
    match h.broadcasts b, h.readers with
    | some (.dropping (c :: slow)), 0 =>
      some ((h.unregisterClient c).setBroadcast b (.dropping slow), none)
    | _, _ => none
  | .finish b =>
    match h.broadcasts b with
    | some (.dropping []) => some (h.setBroadcast b .finished, none)
    | _ => none
  | .write c =>
    match h.sessions c with
    | some session =>
      if session.writing then
        match session.send.take with
        | some (intent, send) =>
          some (h.setSession c { session with send }, some (.delivered c intent))
        | none => none
      else none
    | none => none
  | .failWrite c =>
    match h.sessions c with
    | some session =>
      if session.writing then
        match session.send.take with
        | some (intent, send) =>
          some (h.setSession c { session with send, writing := false }, some (.lost c intent))
        | none => none
      else none
    | none => none
  | .parkWriter c =>
    match h.sessions c with
    | some session =>
      if session.writing ∧ session.closed = false then
        match session.send.park with
        | some send => some (h.setSession c { session with send }, none)
        | none => none
      else none
    | none => none
  | .ping c =>
    match h.sessions c with
    | some session =>
      if session.writing ∧ session.send.receiver.isParked = true then
        some (h.setSession c { session with send := session.send.abandon }, none)
      else none
    | none => none
  | .stopWriter c =>
    match h.sessions c with
    | some session =>
      -- with a message in its hands it goes on to write it
      if session.writing ∧ session.send.receiver.handed = [] then
        some (h.setSession c { session with send := session.send.abandon, writing := false }, none)
      else none
    | none => none
  | .stopReader c =>
    match h.sessions c with
    | some session =>
      match session.reader with
      | .reading => some (h.setSession c { session with reader := .leaving }, none)
      | _ => none
    | none => none
  | .unregister c =>
    match h.sessions c, h.readers with
    | some session, 0 =>
      match session.reader with
      | .leaving =>
        some ((h.setSession c { session with reader := .left }).unregisterClient c, none)
      | _ => none
    | _, _ => none
  | .shutdown => if h.readers = 0 then some (h.closeAll, none) else none

/-- **What one step can do**: guard, next state and event. -/
inductive Step (sendBufSize : Nat) (h : Hub) : Action → Hub → Option Event → Prop
  | serve {c} (fresh : h.sessions c = none) (free : h.readers = 0) :
      Step sendBufSize h (.serve c)
        ({ h with clients := c :: h.clients }.setSession c
          { send := .make sendBufSize, closed := false, reader := .reading, writing := true })
        (some (.joined c))
  | rlock {b intent} (called : h.broadcasts b = some (.entered intent)) :
      Step sendBufSize h (.rlock b)
        ({ h with readers := h.readers + 1 }.setBroadcast b (.sending intent h.clients [])) none
  | sendClosed {b c intent todo slow session}
      (sending : h.broadcasts b = some (.sending intent todo slow)) (due : c ∈ todo)
      (client : h.sessions c = some session) (shut : session.closed = true) :
      Step sendBufSize h (.offer b c) { h with crashed := true } (some .panicked)
  | offer {b c intent todo slow session send}
      (sending : h.broadcasts b = some (.sending intent todo slow)) (due : c ∈ todo)
      (client : h.sessions c = some session) (isOpen : session.closed = false)
      (sent : session.send.trySend intent = some send) :
      Step sendBufSize h (.offer b c)
        ((h.setSession c { session with send }).setBroadcast b
          (.sending intent (todo.erase c) slow))
        (some (.offered b c))
  | slow {b c intent todo slow session}
      (sending : h.broadcasts b = some (.sending intent todo slow)) (due : c ∈ todo)
      (client : h.sessions c = some session) (isOpen : session.closed = false)
      (full : session.send.trySend intent = none) :
      Step sendBufSize h (.offer b c)
        (h.setBroadcast b (.sending intent (todo.erase c) (slow ++ [c]))) (some (.slow b c))
  | runlock {b intent slow} (sending : h.broadcasts b = some (.sending intent [] slow)) :
      Step sendBufSize h (.runlock b)
        ({ h with readers := h.readers - 1 }.setBroadcast b (.dropping slow)) none
  | drop {b c slow} (dropping : h.broadcasts b = some (.dropping (c :: slow)))
      (free : h.readers = 0) :
      Step sendBufSize h (.drop b) ((h.unregisterClient c).setBroadcast b (.dropping slow)) none
  | finish {b} (dropping : h.broadcasts b = some (.dropping [])) :
      Step sendBufSize h (.finish b) (h.setBroadcast b .finished) none
  | write {c session intent send} (client : h.sessions c = some session)
      (writing : session.writing = true) (taken : session.send.take = some (intent, send)) :
      Step sendBufSize h (.write c) (h.setSession c { session with send })
        (some (.delivered c intent))
  | failWrite {c session intent send} (client : h.sessions c = some session)
      (writing : session.writing = true) (taken : session.send.take = some (intent, send)) :
      Step sendBufSize h (.failWrite c) (h.setSession c { session with send, writing := false })
        (some (.lost c intent))
  | parkWriter {c session send} (client : h.sessions c = some session)
      (writing : session.writing = true) (isOpen : session.closed = false)
      (parked : session.send.park = some send) :
      Step sendBufSize h (.parkWriter c) (h.setSession c { session with send }) none
  | ping {c session} (client : h.sessions c = some session) (writing : session.writing = true)
      (parked : session.send.receiver.isParked = true) :
      Step sendBufSize h (.ping c) (h.setSession c { session with send := session.send.abandon })
        none
  | stopWriter {c session} (client : h.sessions c = some session)
      (writing : session.writing = true) (idle : session.send.receiver.handed = []) :
      Step sendBufSize h (.stopWriter c)
        (h.setSession c { session with send := session.send.abandon, writing := false }) none
  | stopReader {c session} (client : h.sessions c = some session)
      (reading : session.reader = .reading) :
      Step sendBufSize h (.stopReader c) (h.setSession c { session with reader := .leaving }) none
  | unregister {c session} (client : h.sessions c = some session)
      (leaving : session.reader = .leaving) (free : h.readers = 0) :
      Step sendBufSize h (.unregister c)
        ((h.setSession c { session with reader := .left }).unregisterClient c) none
  | shutdown (free : h.readers = 0) : Step sendBufSize h .shutdown h.closeAll none

/-- **Every step is one of `Step`'s.** -/
theorem next_cases {sendBufSize : Nat} {h h' : Hub} {a : Action} {o : Option Event}
    (step : h.next sendBufSize a = some (h', o)) : Step sendBufSize h a h' o := by
  cases a with
  | serve c =>
    simp only [next] at step
    split at step <;> cases step
    exact .serve ‹_› ‹_›
  | rlock b =>
    simp only [next] at step
    split at step <;> cases step
    exact .rlock ‹_›
  | offer b c =>
    simp only [next] at step
    split at step
    · split at step
      · split at step
        · cases step
        · split at step
          · cases step
            exact .sendClosed ‹_› ‹_› ‹_› ‹_›
          · rename_i isOpen
            rw [Bool.not_eq_true] at isOpen
            split at step <;> cases step
            · exact .offer ‹_› ‹_› ‹_› isOpen ‹_›
            · exact .slow ‹_› ‹_› ‹_› isOpen ‹_›
      · cases step
    · cases step
  | runlock b =>
    simp only [next] at step
    split at step <;> cases step
    exact .runlock ‹_›
  | drop b =>
    simp only [next] at step
    split at step <;> cases step
    exact .drop ‹_› ‹_›
  | finish b =>
    simp only [next] at step
    split at step <;> cases step
    exact .finish ‹_›
  | write c =>
    simp only [next] at step
    split at step
    · split at step
      · split at step <;> cases step
        exact .write ‹_› ‹_› ‹_›
      · cases step
    · cases step
  | failWrite c =>
    simp only [next] at step
    split at step
    · split at step
      · split at step <;> cases step
        exact .failWrite ‹_› ‹_› ‹_›
      · cases step
    · cases step
  | parkWriter c =>
    simp only [next] at step
    split at step
    · split at step
      · rename_i guard
        split at step <;> cases step
        exact .parkWriter ‹_› guard.1 guard.2 ‹_›
      · cases step
    · cases step
  | ping c =>
    simp only [next] at step
    split at step
    · split at step <;> cases step
      rename_i guard
      exact .ping ‹_› guard.1 guard.2
    · cases step
  | stopWriter c =>
    simp only [next] at step
    split at step
    · split at step <;> cases step
      rename_i guard
      exact .stopWriter ‹_› guard.1 guard.2
    · cases step
  | stopReader c =>
    simp only [next] at step
    split at step
    · split at step <;> cases step
      exact .stopReader ‹_› ‹_›
    · cases step
  | unregister c =>
    simp only [next] at step
    split at step
    · split at step <;> cases step
      exact .unregister ‹_› ‹_› ‹_›
    · cases step
  | shutdown =>
    simp only [next] at step
    split at step <;> cases step
    exact .shutdown ‹_›

end Hub

end VynxRelayer.Ingress
