import VynxRelayer.Ingress.Membership
import VynxRelayer.Lib.Locks

/-!
# The hub with its lock

`VynxRelayer.Ingress.Hub` takes a section under the write lock of `Hub.mu` for one step. Here it is
what the source has in its place: the lock is asked for, waited for, and given back, and in between
the map is read and written, and channels are closed, one at a time, while every other goroutine may
move. `unregisterClient` looks its client up, deletes it and closes its channel; the loop of `Run`
closes a channel and then deletes the client, over and over, in the order the map chooses;
`BroadcastIntent` asks the map for one client after the other, and the goroutines of a connection
are launched by `ServeWS` after it has let go of the lock.

A method is a function from where its goroutine stands to what it does next (`ServePc.step`,
`Stage.step`, `CastPc.step`, `RunPc.step`). The choice that `range` makes among the keys of the map
is the scheduler's. The two pumps of a connection need no lock; what a `writePump` does to its queue
is `Line.pump`, and a `readPump` matters here from the moment it leaves its loop.
-/

namespace VynxRelayer.Ingress.Locked

open Lib

/-! ## Goroutines -/

/-- A goroutine inside the hub: the handler of a connection, its `readPump` once it has left its
loop, a call of `BroadcastIntent`, and `Run`. -/
inductive Thread where
  | serve (c : ClientId)
  | reader (c : ClientId)
  | cast (b : BroadcastId)
  | run
  deriving DecidableEq

/-- Where `ServeWS` stands, after the upgrade. -/
inductive ServePc where
  | upgraded
  /-- in `h.mu.Lock()`, with the readers still to leave -/
  | announced
  | locked
  /-- the map is written, `h.mu.Unlock()` is next -/
  | inserted
  /-- `go c.writePump(h)` is next -/
  | unlocked
  /-- `go c.readPump(h)` is next -/
  | half
  | served
  deriving DecidableEq

/-- Where a call of `unregisterClient` stands. -/
inductive Stage where
  | entered
  | announced
  | locked
  /-- the client is in the map, `delete` is next -/
  | found
  /-- `close(c.send)` is next -/
  | deleted
  /-- `h.mu.Unlock()` is next -/
  | leaving
  | done
  deriving DecidableEq

/-- Where a call of `BroadcastIntent` stands. -/
inductive CastPc where
  | entered (intent : Ref Intent)
  /-- it holds the read lock, and is to ask the map for a client it has not visited -/
  | ranging (intent : Ref Intent) (visited slow : List ClientId)
  /-- the `select` on the channel of `c` is next -/
  | offering (intent : Ref Intent) (c : ClientId) (visited slow : List ClientId)
  /-- the lock is released, the slow clients are to be unregistered -/
  | dropping (slow : List ClientId)
  | unregistering (c : ClientId) (stage : Stage) (rest : List ClientId)
  | finished
  deriving DecidableEq

/-- Where `Run` stands, once its context is cancelled. -/
inductive RunPc where
  | woken
  | announced
  /-- it has the lock, and is to ask the map for a client that is left -/
  | ranging
  /-- `close(c.send)` is next -/
  | picked (c : ClientId)
  /-- `delete` is next -/
  | closed (c : ClientId)
  /-- the map is empty, `h.mu.Unlock()` is next -/
  | cleared
  | done
  deriving DecidableEq

/-- The places of a goroutine. -/
@[reducible] def Thread.Pc : Thread → Type
  | .serve _ => ServePc
  | .reader _ => Stage
  | .cast _ => CastPc
  | .run => RunPc

/-! ## Memory -/

/-- A `writePump` from its `go` statement on. -/
inductive Writer where
  | starting
  | running
  | stopped
  deriving DecidableEq

/-- A connection: its outbound queue and whether that is closed, its `writePump`, and whether its
`readPump` was launched. -/
structure Line where
  send : Chan (Ref Intent)
  closed : Bool
  writer : Writer
  reading : Bool

/-- What the goroutines share: the map, the connections, and whether one of them has panicked. -/
structure Mem where
  clients : List ClientId
  lines : ClientId → Option Line
  crashed : Bool

namespace Mem

def setLine (m : Mem) (c : ClientId) (line : Line) : Mem :=
  { m with lines := Function.update m.lines c (some line) }

/-- `delete(h.clients, c)`. -/
def delete (m : Mem) (c : ClientId) : Mem := { m with clients := m.clients.erase c }

/-- `close(c.send)`; the second close of a channel panics. -/
def close (m : Mem) (c : ClientId) : Mem :=
  match m.lines c with
  | none => m
  | some line =>
    if line.closed then { m with crashed := true } else m.setLine c { line with closed := true }

/-- `h.clients[c] = struct{}{}`, for a client nobody else has seen. -/
def insert (m : Mem) (sendBufSize : Nat) (c : ClientId) : Mem :=
  { m with clients := c :: m.clients }.setLine c
    { send := .make sendBufSize, closed := false, writer := .starting, reading := false }

end Mem

/-- What a goroutine does in one step: to itself, to the lock and to the memory, and what is seen.
-/
structure Effect (π : Type) where
  pc : π
  op : LockOp Empty
  mem : Mem
  shown : Option Hub.Shown

namespace Effect

variable {π : Type}

/-- A step that concerns the lock only. -/
def sync (m : Mem) (op : LockOp Empty) (pc : π) : Effect π := ⟨pc, op, m, none⟩

/-- A step away from the lock. -/
def go (m : Mem) (pc : π) : Effect π := ⟨pc, .none, m, none⟩

/-- A step away from the lock that is seen. -/
def «show» (m : Mem) (pc : π) (shown : Hub.Shown) : Effect π := ⟨pc, .none, m, some shown⟩

def map {ρ : Type} (f : π → ρ) (eff : Effect π) : Effect ρ := ⟨f eff.pc, eff.op, eff.mem, eff.shown⟩

end Effect

/-! ## Methods -/

/-- `ServeWS`, one step at a time. -/
def ServePc.step (sendBufSize : Nat) (c : ClientId) (m : Mem) : ServePc → Option (Effect ServePc)
  | .upgraded => some (.sync m .announce .announced)
  | .announced => some (.sync m .lock .locked)
  | .locked => some (.show (m.insert sendBufSize c) .inserted (.joined c))
  | .inserted => some (.sync m .unlock .unlocked)
  | .unlocked =>
    (m.lines c).map fun line => .go (m.setLine c { line with writer := .running }) .half
  | .half => (m.lines c).map fun line => .go (m.setLine c { line with reading := true }) .served
  | .served => none

/-- `unregisterClient`, one step at a time. -/
def Stage.step (c : ClientId) (m : Mem) : Stage → Option (Effect Stage)
  | .entered => some (.sync m .announce .announced)
  | .announced => some (.sync m .lock .locked)
  | .locked => if c ∈ m.clients then some (.go m .found) else some (.go m .leaving)
  | .found => some (.go (m.delete c) .deleted)
  | .deleted => some (.go (m.close c) .leaving)
  | .leaving => some (.sync m .unlock .done)
  | .done => none

/-- The `select` of `BroadcastIntent` on the channel of `c`; a send on a closed channel panics. -/
def offer (b : BroadcastId) (m : Mem) (intent : Ref Intent) (c : ClientId)
    (visited slow : List ClientId) (line : Line) : Effect CastPc :=
  if line.closed then
    .show { m with crashed := true } (.offering intent c visited slow) .panicked
  else
    match line.send.trySend intent with
    | some send =>
      .show (m.setLine c { line with send }) (.ranging intent (visited ++ [c]) slow)
        (.put b c intent)
    | none => .show m (.ranging intent (visited ++ [c]) (slow ++ [c])) (.slow b c)

/-- `BroadcastIntent`, one step at a time; `pick` is the client that `range` chooses. -/
def CastPc.step (b : BroadcastId) (m : Mem) (pick : ClientId) : CastPc → Option (Effect CastPc)
  | .entered intent => some (.sync m .rlock (.ranging intent [] []))
  | .ranging intent visited slow =>
    if ∀ c ∈ m.clients, c ∈ visited then some ⟨.dropping slow, .runlock, m, some (.released b)⟩
    else if pick ∈ m.clients ∧ pick ∉ visited then
      some (.go m (.offering intent pick visited slow))
    else none
  | .offering intent c visited slow => (m.lines c).map (offer b m intent c visited slow)
  | .dropping [] => some (.show m .finished (.returned b))
  | .dropping (c :: rest) => some (.go m (.unregistering c .entered rest))
  | .unregistering c stage rest =>
    match stage with
    | .done => some (.go m (.dropping rest))
    | stage => (stage.step c m).map (.map (.unregistering c · rest))
  | .finished => none

/-- `Run` after `<-ctx.Done()`, one step at a time; `pick` is the client that `range` chooses. -/
def RunPc.step (m : Mem) (pick : ClientId) : RunPc → Option (Effect RunPc)
  | .woken => some (.sync m .announce .announced)
  | .announced => some (.sync m .lock .ranging)
  | .ranging =>
    if m.clients = [] then some (.go m .cleared)
    else if pick ∈ m.clients then some (.go m (.picked pick))
    else none
  | .picked c => some (.go (m.close c) (.closed c))
  | .closed c => some (.go (m.delete c) .ranging)
  | .cleared => some (.sync m .unlock .done)
  | .done => none

/-- The next step of a goroutine. -/
def Thread.step (sendBufSize : Nat) (m : Mem) (pick : ClientId) :
    (t : Thread) → t.Pc → Option (Effect t.Pc)
  | .serve c, pc => ServePc.step sendBufSize c m pc
  | .reader c, stage => Stage.step c m stage
  | .cast b, pc => CastPc.step b m pick pc
  | .run, pc => RunPc.step m pick pc

/-- What a `writePump` does between two looks at its queue. -/
inductive Pump where
  | write
  | failWrite
  | park
  | ping
  | stop
  deriving DecidableEq

/-- What it does to its connection, and the message it received. -/
def Line.pump (line : Line) : Pump → Option (Line × Option (Ref Intent))
  | .write => line.send.take.map fun (intent, send) => ({ line with send }, some intent)
  | .failWrite =>
    line.send.take.map fun (intent, send) => ({ line with send, writer := .stopped }, some intent)
  | .park =>
    if line.closed then none else line.send.park.map fun send => ({ line with send }, none)
  | .ping =>
    if line.send.receiver.isParked then some ({ line with send := line.send.abandon }, none)
    else none
  | .stop =>
    if line.send.receiver.handed = [] then
      some ({ line with send := line.send.abandon, writer := .stopped }, none)
    else none

/-! ## The system -/

/-- The hub: its memory, its lock, and the goroutines inside it. -/
structure State where
  mem : Mem
  locks : Locks Thread Empty
  threads : (t : Thread) → Option t.Pc

/-- What a scheduler can choose to do next. -/
inductive Action where
  | call (b : BroadcastId) (intent : Ref Intent)
  | upgrade (c : ClientId)
  | cancel
  | step (t : Thread) (pick : ClientId)
  | stopReader (c : ClientId)
  | pump (c : ClientId) (p : Pump)

namespace State

/-- `NewHub`. -/
def init : State where
  mem := ⟨[], fun _ => none, false⟩
  locks := .new
  threads := fun _ => none

def setThread (s : State) (t : Thread) (pc : t.Pc) : State :=
  { s with threads := Function.update s.threads t (some pc) }

def setMem (s : State) (mem : Mem) : State := { s with mem }

def setLocks (s : State) (locks : Locks Thread Empty) : State := { s with locks }

end State

/-- A goroutine begins. -/
def launch (s : State) (t : Thread) (pc : t.Pc) (shown : Option Hub.Shown) :
    Option (State × Option Hub.Shown) :=
  match s.threads t with
  | none => some (s.setThread t pc, shown)
  | some _ => none

/-- One step of one goroutine. -/
def next (sendBufSize : Nat) (s : State) : Action → Option (State × Option Hub.Shown)
  | .call b intent => launch s (.cast b) (.entered intent) (some (.called b intent))
  | .upgrade c => launch s (.serve c) .upgraded none
  | .cancel => launch s .run .woken none
  | .step t pick =>
    match s.threads t with
    | none => none
    | some pc =>
      match t.step sendBufSize s.mem pick pc with
      | none => none
      | some eff =>
        (s.locks.apply t eff.op).map fun locks =>
          (((s.setMem eff.mem).setLocks locks).setThread t eff.pc, eff.shown)
  | .stopReader c =>
    match s.mem.lines c with
    | none => none
    | some line => if line.reading then launch s (.reader c) .entered none else none
  | .pump c p =>
    match s.mem.lines c with
    | none => none
    | some line =>
      if line.writer = .running then
        (line.pump p).map fun (line', received) =>
          (s.setMem (s.mem.setLine c line'), received.map (.taken c))
      else none

/-- The hub with its lock, under every interleaving. -/
def system (sendBufSize : Nat) : System State Action Hub.Shown := ⟨next sendBufSize⟩

/-- **What one step can do.** -/
inductive Step (sendBufSize : Nat) (s : State) : Action → State → Option Hub.Shown → Prop
  | call {b intent} (fresh : s.threads (.cast b) = none) :
      Step sendBufSize s (.call b intent) (s.setThread (.cast b) (.entered intent))
        (some (.called b intent))
  | upgrade {c} (fresh : s.threads (.serve c) = none) :
      Step sendBufSize s (.upgrade c) (s.setThread (.serve c) .upgraded) none
  | cancel (fresh : s.threads .run = none) :
      Step sendBufSize s .cancel (s.setThread .run .woken) none
  | step {t pick pc eff locks} (standing : s.threads t = some pc)
      (does : t.step sendBufSize s.mem pick pc = some eff)
      (granted : s.locks.apply t eff.op = some locks) :
      Step sendBufSize s (.step t pick) (((s.setMem eff.mem).setLocks locks).setThread t eff.pc)
        eff.shown
  | stopReader {c line} (client : s.mem.lines c = some line) (reads : line.reading = true)
      (fresh : s.threads (.reader c) = none) :
      Step sendBufSize s (.stopReader c) (s.setThread (.reader c) .entered) none
  | pump {c p line line' received} (client : s.mem.lines c = some line)
      (runs : line.writer = .running) (pumped : line.pump p = some (line', received)) :
      Step sendBufSize s (.pump c p) (s.setMem (s.mem.setLine c line')) (received.map (.taken c))

theorem launch_eq_some {s s' : State} {t : Thread} {pc : t.Pc} {shown o : Option Hub.Shown}
    (h : launch s t pc shown = some (s', o)) :
    s.threads t = none ∧ s' = s.setThread t pc ∧ o = shown := by
  unfold launch at h
  split at h <;> cases h
  exact ⟨‹_›, rfl, rfl⟩

/-- **Every step is one of `Step`'s.** -/
theorem next_cases {sendBufSize : Nat} {s s' : State} {a : Action} {o : Option Hub.Shown}
    (h : next sendBufSize s a = some (s', o)) : Step sendBufSize s a s' o := by
  cases a with
  | call b intent =>
    obtain ⟨fresh, rfl, rfl⟩ := launch_eq_some h
    exact .call fresh
  | upgrade c =>
    obtain ⟨fresh, rfl, rfl⟩ := launch_eq_some h
    exact .upgrade fresh
  | cancel =>
    obtain ⟨fresh, rfl, rfl⟩ := launch_eq_some h
    exact .cancel fresh
  | step t pick =>
    simp only [next] at h
    split at h
    · cases h
    · split at h
      · cases h
      · obtain ⟨locks, hlocks, heq⟩ := Option.map_eq_some_iff.mp h
        cases heq
        exact .step ‹_› ‹_› hlocks
  | stopReader c =>
    simp only [next] at h
    split at h
    · cases h
    · split at h
      · obtain ⟨fresh, rfl, rfl⟩ := launch_eq_some h
        exact .stopReader ‹_› ‹_› fresh
      · cases h
  | pump c p =>
    simp only [next] at h
    split at h
    · cases h
    · split at h
      · obtain ⟨⟨line', received⟩, hpump, heq⟩ := Option.map_eq_some_iff.mp h
        cases heq
        exact .pump ‹_› ‹_› hpump
      · cases h

end VynxRelayer.Ingress.Locked
