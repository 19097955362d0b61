import VynxRelayer.Auction.Lifecycle
import VynxRelayer.Lib.Locks

/-!
# The engine with its locks

`VynxRelayer.Auction.Threads` takes a critical section for one step. Here a section is what the
source has in its place: the lock is asked for, waited for, and given back, and in between the
shared memory is accessed one read or one write at a time, while every other thread may move.
`StartAuction` reads the map before it writes it, `append` reads the slice of an entry before it
stores the longer one, and `selectWinner` goes through its loop bid by bid.

A method is a function from where its thread stands to what it does next (`StartPc.step`,
`BidPc.step`, `TaskPc.step`): what becomes of the locks, of the memory, and of the thread itself.
`Engine.mu` is the reader-writer lock of `VynxRelayer.Lib.Locks`, the mutex of an entry the one of
its pointer.

Sections are atomic because of what the locks exclude, and that is proved: a run of the engine with
its locks is, event for event, a run of the engine of sections, and the other way round
(`sections_atomic`). A section takes place where it writes, or where it has read what it returns.
-/

namespace VynxRelayer.Auction.Locked

open Lib

/-- A thread inside the engine: a call of `StartAuction` or `SubmitBid`, or a `runAuction`
goroutine. -/
inductive Thread where
  | start (c : CallId)
  | bid (c : CallId)
  | task (g : CallId)
  deriving DecidableEq

/-- Where a call of `StartAuction` stands. -/
inductive StartPc where
  | entered (intent : Ref Intent)
  /-- in `e.mu.Lock()`, with the readers still to leave -/
  | announced (intent : Ref Intent)
  | locked (intent : Ref Intent)
  /-- the map has an entry for the ID, `e.mu.Unlock()` is next -/
  | refusing (intent : Ref Intent)
  /-- the map has none -/
  | vacant (intent : Ref Intent)
  /-- the map is written, `e.mu.Unlock()` is next -/
  | inserted (intent : Ref Intent)
  /-- the `go` statement is next -/
  | registered (intent : Ref Intent)
  | finished (intent : Ref Intent) (err : Option EngineError)
  | returned

/-- Where a call of `SubmitBid` stands. -/
inductive BidPc where
  | entered (bid : Bid)
  /-- the amounts are there, `submitBidLocked` is next -/
  | checked (bid : Bid)
  | rlocked (bid : Bid)
  /-- the map is read, `e.mu.RUnlock()` is next -/
  | read (bid : Bid) (p : Option EntryPtr)
  | located (bid : Bid) (p : EntryPtr)
  /-- inside the mutex of the entry -/
  | holding (bid : Bid) (p : EntryPtr)
  /-- `append` has read the slice -/
  | fetched (bid : Bid) (p : EntryPtr) (seen : List Bid)
  /-- the longer slice is stored, `entry.mu.Unlock()` is next -/
  | appended (bid : Bid) (p : EntryPtr)
  | finished (bid : Bid) (err : Option EngineError)
  | returned

/-- Where a `runAuction` goroutine stands. -/
inductive TaskPc where
  | launching
  | waiting
  | fired
  | rlocked
  /-- the map is read, `e.mu.RUnlock()` is next -/
  | read (p : Option EntryPtr)
  | located (p : Option EntryPtr)
  /-- inside the mutex of the entry -/
  | holding (p : EntryPtr)
  /-- in the loop over `seen`, with the winner so far and the bids to come -/
  | comparing (p : EntryPtr) (seen : List Bid) (winner : Option Bid) (rest : List Bid)
  /-- the loop is done, the deferred `entry.mu.Unlock()` is next -/
  | compared (p : EntryPtr) (winner : Option Bid)
  /-- the loop has panicked, the deferred `entry.mu.Unlock()` is next -/
  | panicking (p : EntryPtr)
  | chosen (winner : Option Bid)
  /-- `Cleanup` is next -/
  | closing
  /-- in `e.mu.Lock()`, with the readers still to leave -/
  | announced
  | locked
  /-- the map is written, `e.mu.Unlock()` is next -/
  | deleted
  | done
  | panicked

structure TaskAt where
  intent : Ref Intent
  pc : TaskPc

/-! ## The methods -/

/-- What a thread does in one step: where it goes, what it does to the locks, the memory it leaves,
the goroutine it prepares or launches, and what is seen of it. -/
structure Effect (π : Type) where
  pc : π
  op : LockOp EntryPtr
  engine : Engine
  task : Option TaskAt
  shown : Option Event

/-- A step that touches neither the locks nor the memory. -/
def Effect.go {π : Type} (e : Engine) (pc : π) : Effect π := ⟨pc, .none, e, none, none⟩

/-- A step at the locks. -/
def Effect.sync {π : Type} (e : Engine) (op : LockOp EntryPtr) (pc : π) : Effect π :=
  ⟨pc, op, e, none, none⟩

/-- A step that leaves the memory `e`, and is seen. -/
def Effect.show {π : Type} (e : Engine) (pc : π) (event : Event) : Effect π :=
  ⟨pc, .none, e, none, some event⟩

/-- The slice of an entry is stored. -/
def writeBids (e : Engine) (p : EntryPtr) (bids : List Bid) : Engine :=
  { e with entries := Function.update e.entries p ((e.entries p).map ({ · with bids })) }

/-- The slice of an entry, as a load of it finds it. -/
def bidsOf (e : Engine) (p : EntryPtr) : Option (List Bid) := (e.entries p).map (·.bids)

/-- `StartAuction`, one step at a time. -/
def StartPc.step (c : CallId) (e : Engine) : StartPc → Option (Effect StartPc)
  | .entered intent => some (.sync e .announce (.announced intent))
  | .announced intent => some (.sync e .lock (.locked intent))
  | .locked intent =>
    match e.auctions intent.val.id with
    | some _ => some (.show e (.refusing intent) (.refused c intent))
    | none => some (.go e (.vacant intent))
  | .refusing intent =>
    some (.sync e .unlock (.finished intent (some (.alreadyActive intent.val.id))))
  | .vacant intent =>
    some { Effect.show (e.insert c intent) (.inserted intent) (.registered c intent) with
      task := some ⟨intent, .launching⟩ }
  | .inserted intent => some (.sync e .unlock (.registered intent))
  | .registered intent =>
    some { Effect.go e (.finished intent none) with task := some ⟨intent, .waiting⟩ }
  | .finished _ err => some (.show e .returned (.startReturned c err))
  | .returned => none

/-- `SubmitBid` and `submitBidLocked`, one step at a time. -/
def BidPc.step (c : CallId) (e : Engine) : BidPc → Option (Effect BidPc)
  | .entered bid =>
    match checkBid bid with
    | some err => some (.go e (.finished bid (some err)))
    | none => some (.go e (.checked bid))
  | .checked bid => some (.sync e .rlock (.rlocked bid))
  | .rlocked bid =>
    match e.auctions bid.intentID with
    | none => some (.show e (.read bid none) (.missed c bid))
    | some p => some (.go e (.read bid (some p)))
  | .read bid none => some (.sync e .runlock (.finished bid (some (.notFound bid.intentID))))
  | .read bid (some p) => some (.sync e .runlock (.located bid p))
  | .located bid p => some (.sync e (.hold p) (.holding bid p))
  | .holding bid p =>
    match bidsOf e p with
    | none => none
    | some seen => some (.go e (.fetched bid p seen))
  | .fetched bid p seen =>
    some (.show (writeBids e p (seen ++ [bid])) (.appended bid p) (.appended c bid p))
  | .appended bid p => some (.sync e (.release p) (.finished bid none))
  | .finished _ err => some (.show e .returned (.bidReturned c err))
  | .returned => none

/-- One turn of the loop of `selectWinner`. -/
def compareNext (p : EntryPtr) (seen : List Bid) (bid : Bid) (rest : List Bid) :
    Option Bid → TaskPc
  | none => .comparing p seen (some bid) rest
  | some winner =>
    match outbids bid winner with
    | .ok true => .comparing p seen (some bid) rest
    | .ok false => .comparing p seen (some winner) rest
    | .error .nilDereference => .panicking p

/-- `runAuction`, `selectWinner` and `Cleanup`, one step at a time. -/
def TaskPc.step (g : CallId) (intent : Ref Intent) (e : Engine) : TaskPc → Option (Effect TaskPc)
  | .launching => none
  | .waiting => some (.go e .fired)
  | .fired => some (.sync e .rlock .rlocked)
  | .rlocked => some (.go e (.read (e.auctions intent.val.id)))
  | .read p => some (.sync e .runlock (.located p))
  | .located none => some (.go e (.chosen none))
  | .located (some p) => some (.sync e (.hold p) (.holding p))
  | .holding p =>
    match bidsOf e p with
    | none => none
    | some seen => some (.go e (.comparing p seen none seen))
  | .comparing p seen winner [] =>
    some (.show e (.compared p winner) (.selected g p seen winner))
  | .comparing p seen winner (bid :: rest) => some (.go e (compareNext p seen bid rest winner))
  | .compared p winner => some (.sync e (.release p) (.chosen winner))
  | .panicking p => some (.sync e (.release p) .panicked)
  | .chosen none => some (.show e .closing (.noBids g))
  | .chosen (some winner) =>
    match e.voucherCh.trySend (voucherFor intent winner) with
    | some voucherCh =>
      some (.show { e with voucherCh } .closing (.emitted g (voucherFor intent winner)))
    | none => some (.show e .closing (.dropped g (voucherFor intent winner)))
  | .closing => some (.sync e .announce .announced)
  | .announced => some (.sync e .lock .locked)
  | .locked => some (.show (e.cleanup intent.val.id) .deleted (.closed g))
  | .deleted => some (.sync e .unlock .done)
  | .done => none
  | .panicked => none

/-! ## The system -/

/-- The engine, its locks, and the threads inside its methods. -/
structure State where
  engine : Engine
  locks : Locks Thread EntryPtr
  starts : CallId → Option StartPc
  bids : CallId → Option BidPc
  tasks : CallId → Option TaskAt

/-- What a scheduler can choose to do next. -/
inductive Action where
  | invokeStart (c : CallId) (intent : Ref Intent)
  | invokeBid (c : CallId) (bid : Bid)
  | step (t : Thread)
  | receive
  | park

namespace State

/-- A new engine that nobody has called. -/
def init (voucherBufSize : Nat) : State where
  engine := .new voucherBufSize
  locks := .new
  starts := fun _ => none
  bids := fun _ => none
  tasks := fun _ => none

def setStart (s : State) (c : CallId) (pc : StartPc) : State :=
  { s with starts := Function.update s.starts c (some pc) }

def setBid (s : State) (c : CallId) (pc : BidPc) : State :=
  { s with bids := Function.update s.bids c (some pc) }

def setTask (s : State) (g : CallId) (task : TaskAt) : State :=
  { s with tasks := Function.update s.tasks g (some task) }

def setEngine (s : State) (engine : Engine) : State := { s with engine }

def setLocks (s : State) (locks : Locks Thread EntryPtr) : State := { s with locks }

def setChan (s : State) (voucherCh : Chan Voucher) : State :=
  { s with engine := { s.engine with voucherCh } }

/-- The goroutine that a call of `StartAuction` prepares or launches. -/
def spawn (s : State) (c : CallId) : Option TaskAt → State
  | none => s
  | some task => s.setTask c task

end State

/-- One step of one thread. -/
def next (s : State) : Action → Option (State × Option Event)
  | .invokeStart c intent =>
    match s.starts c with
    | none => some (s.setStart c (.entered intent), some (.startInvoked c intent))
    | some _ => none
  | .invokeBid c bid =>
    match s.bids c with
    | none => some (s.setBid c (.entered bid), some (.bidInvoked c bid))
    | some _ => none
  | .step (.start c) =>
    match s.starts c with
    | none => none
    | some pc =>
      match pc.step c s.engine with
      | none => none
      | some eff =>
        (s.locks.apply (.start c) eff.op).map fun locks =>
          ((((s.setEngine eff.engine).setLocks locks).spawn c eff.task).setStart c eff.pc, eff.shown)
  | .step (.bid c) =>
    match s.bids c with
    | none => none
    | some pc =>
      match pc.step c s.engine with
      | none => none
      | some eff =>
        (s.locks.apply (.bid c) eff.op).map fun locks =>
          (((s.setEngine eff.engine).setLocks locks).setBid c eff.pc, eff.shown)
  | .step (.task g) =>
    match s.tasks g with
    | none => none
    | some task =>
      match task.pc.step g task.intent s.engine with
      | none => none
      | some eff =>
        (s.locks.apply (.task g) eff.op).map fun locks =>
          (((s.setEngine eff.engine).setLocks locks).setTask g ⟨task.intent, eff.pc⟩, eff.shown)
  | .receive =>
    match s.engine.voucherCh.take with
    | some (v, ch) => some (s.setChan ch, some (.received v))
    | none => none
  | .park =>
    match s.engine.voucherCh.park with
    | some ch => some (s.setChan ch, none)
    | none => none

/-- The engine with its locks, under every interleaving. -/
def system : System State Action Event := ⟨next⟩

/-- **What one step can do.** -/
inductive Step (s : State) : Action → State → Option Event → Prop
  | invokeStart {c intent} (fresh : s.starts c = none) :
      Step s (.invokeStart c intent) (s.setStart c (.entered intent)) (some (.startInvoked c intent))
  | invokeBid {c bid} (fresh : s.bids c = none) :
      Step s (.invokeBid c bid) (s.setBid c (.entered bid)) (some (.bidInvoked c bid))
  | start {c pc eff locks} (call : s.starts c = some pc) (does : pc.step c s.engine = some eff)
      (granted : s.locks.apply (.start c) eff.op = some locks) :
      Step s (.step (.start c))
        ((((s.setEngine eff.engine).setLocks locks).spawn c eff.task).setStart c eff.pc) eff.shown
  | bid {c pc eff locks} (call : s.bids c = some pc) (does : pc.step c s.engine = some eff)
      (granted : s.locks.apply (.bid c) eff.op = some locks) :
      Step s (.step (.bid c)) (((s.setEngine eff.engine).setLocks locks).setBid c eff.pc) eff.shown
  | task {g intent pc eff locks} (task : s.tasks g = some ⟨intent, pc⟩)
      (does : pc.step g intent s.engine = some eff)
      (granted : s.locks.apply (.task g) eff.op = some locks) :
      Step s (.step (.task g)) (((s.setEngine eff.engine).setLocks locks).setTask g ⟨intent, eff.pc⟩)
        eff.shown
  | receive {v ch} (taken : s.engine.voucherCh.take = some (v, ch)) :
      Step s .receive (s.setChan ch) (some (.received v))
  | park {ch} (parked : s.engine.voucherCh.park = some ch) : Step s .park (s.setChan ch) none

/-- **Every step is one of `Step`'s.** -/
theorem next_cases {s s' : State} {a : Action} {o : Option Event} (h : next s a = some (s', o)) :
    Step s a s' o := by
  cases a with
  | invokeStart c intent =>
    simp only [next] at h
    split at h <;> cases h
    exact .invokeStart ‹_›
  | invokeBid c bid =>
    simp only [next] at h
    split at h <;> cases h
    exact .invokeBid ‹_›
  | step t =>
    cases t with
    | start c =>
      simp only [next] at h
      split at h
      · cases h
      · split at h
        · cases h
        · obtain ⟨locks, hlocks, heq⟩ := Option.map_eq_some_iff.mp h
          cases heq
          exact .start ‹_› ‹_› hlocks
    | bid c =>
      simp only [next] at h
      split at h
      · cases h
      · split at h
        · cases h
        · obtain ⟨locks, hlocks, heq⟩ := Option.map_eq_some_iff.mp h
          cases heq
          exact .bid ‹_› ‹_› hlocks
    | task g =>
      simp only [next] at h
      split at h
      · cases h
      · split at h
        · cases h
        · obtain ⟨locks, hlocks, heq⟩ := Option.map_eq_some_iff.mp h
          cases heq
          exact .task ‹_› ‹_› hlocks
  | receive =>
    simp only [next] at h
    split at h <;> cases h
    exact .receive ‹_›
  | park =>
    simp only [next] at h
    split at h <;> cases h
    exact .park ‹_›

end VynxRelayer.Auction.Locked
