import VynxRelayer.Auction.Engine
import VynxRelayer.Lib.System

/-!
# The engine's methods as threads

`StartAuction`, `SubmitBid` and `runAuction` as the threads that execute them. A thread moves by the
critical sections of `VynxRelayer.Auction.Engine`, one at a time, and between two of them any other
thread may move: `SubmitBid` reads the map in one step and appends to the entry it found in a later
one; `runAuction` waits for its timer, looks its entry up, selects under the entry's lock, sends and
cleans up in five. Code that touches nothing shared is part of the step before or after it.

A call is named by a number that is never reused. The entry that a call of `StartAuction` allocates
and the goroutine it launches carry the call's number, so an auction **instance** (one successful
`StartAuction` and its goroutine) is one number, and a later instance of the same intent ID is
another one.

Nothing below fixes who calls, how often, or in which order: a schedule is any list of `Action`s.
The consumer of the voucher channel takes part with `receive` and `park`.

`Step` lists what an action can do, guard and effect, and `next_cases` says that it can do nothing
else. The proofs about the engine read `Step` and never unfold `next`.
-/

namespace VynxRelayer.Auction

open Lib

/-- The name of one call of an exported method. -/
abbrev CallId := Nat

/-- Where a call of `StartAuction` stands. -/
inductive StartCall where
  /-- called, before it takes `Engine.mu` -/
  | entered (intent : Ref Intent)
  /-- its entry is in the map, the `go` statement is next -/
  | registered (intent : Ref Intent)
  /-- about to return -/
  | finished (intent : Ref Intent) (err : Option EngineError)
  | returned
  deriving DecidableEq

/-- Where a call of `SubmitBid` stands. -/
inductive BidCall where
  /-- called, before its checks and its map read -/
  | entered (bid : Bid)
  /-- it holds an entry pointer and has not appended yet -/
  | located (bid : Bid) (p : EntryPtr)
  /-- about to return -/
  | finished (bid : Bid) (err : Option EngineError)
  | returned
  deriving DecidableEq

/-- Where a `runAuction` goroutine stands. -/
inductive Phase where
  /-- its entry is registered, the goroutine is not launched yet -/
  | launching
  /-- blocked on its timer -/
  | waiting
  /-- the timer fired, `selectWinner` is next -/
  | fired
  /-- `selectWinner` has read the map -/
  | located (p : Option EntryPtr)
  /-- `selectWinner` has returned -/
  | chosen (winner : Option Bid)
  /-- the body is left, the deferred `Cleanup` is next -/
  | closing
  | done
  | panicked
  deriving DecidableEq

/-- A `runAuction` goroutine: the intent it was given and where it stands. -/
structure Task where
  intent : Ref Intent
  phase : Phase
  deriving DecidableEq

/-- The engine and the threads inside its methods. -/
structure State where
  engine : Engine
  starts : CallId → Option StartCall
  bids : CallId → Option BidCall
  tasks : CallId → Option Task

/-- What a scheduler can choose to do next. -/
inductive Action where
  | invokeStart (c : CallId) (intent : Ref Intent)
  | register (c : CallId)
  | launch (c : CallId)
  | returnStart (c : CallId)
  | invokeBid (c : CallId) (bid : Bid)
  | lookupBid (c : CallId)
  | appendBid (c : CallId)
  | returnBid (c : CallId)
  | fireTimer (g : CallId)
  | lookupWinner (g : CallId)
  | selectWinner (g : CallId)
  | publish (g : CallId)
  | cleanup (g : CallId)
  | receive
  | park
  deriving DecidableEq

/-- What a step shows. -/
inductive Event where
  | startInvoked (c : CallId) (intent : Ref Intent)
  | registered (c : CallId) (intent : Ref Intent)
  | refused (c : CallId) (intent : Ref Intent)
  | startReturned (c : CallId) (err : Option EngineError)
  | bidInvoked (c : CallId) (bid : Bid)
  /-- the map read of `SubmitBid` found no auction -/
  | missed (c : CallId) (bid : Bid)
  | appended (c : CallId) (bid : Bid) (p : EntryPtr)
  | bidReturned (c : CallId) (err : Option EngineError)
  /-- `selectWinner` of instance `g` locked entry `p`, saw `bids` there and picked `winner` -/
  | selected (g : CallId) (p : EntryPtr) (bids : List Bid) (winner : Option Bid)
  | noBids (g : CallId)
  | emitted (g : CallId) (v : Voucher)
  | dropped (g : CallId) (v : Voucher)
  | closed (g : CallId)
  | received (v : Voucher)
  deriving DecidableEq

namespace State

/-- A new engine that nobody has called. -/
def init (voucherBufSize : Nat) : State where
  engine := .new voucherBufSize
  starts := fun _ => none
  bids := fun _ => none
  tasks := fun _ => none

/-- A call of `StartAuction` moves on. -/
def setStart (s : State) (c : CallId) (call : StartCall) : State :=
  { s with starts := Function.update s.starts c (some call) }

/-- A call of `SubmitBid` moves on. -/
def setBid (s : State) (c : CallId) (call : BidCall) : State :=
  { s with bids := Function.update s.bids c (some call) }

/-- A goroutine moves on. -/
def setTask (s : State) (g : CallId) (intent : Ref Intent) (phase : Phase) : State :=
  { s with tasks := Function.update s.tasks g (some { intent, phase }) }

/-- A section changes the engine. -/
def setEngine (s : State) (engine : Engine) : State := { s with engine }

/-- The voucher channel moves on. -/
def setChan (s : State) (voucherCh : Chan Voucher) : State :=
  { s with engine := { s.engine with voucherCh } }

end State

open State

/-- One step of one thread. -/
def next (s : State) : Action → Option (State × Option Event)
  | .invokeStart c intent =>
    match s.starts c with
    | none => some (s.setStart c (.entered intent), some (.startInvoked c intent))
    | some _ => none
  | .register c =>
    match s.starts c with
    | some (.entered intent) =>
      match s.engine.register c intent with
      | none =>
        some (s.setStart c (.finished intent (some (.alreadyActive intent.val.id))),
          some (.refused c intent))
      | some engine =>
        some (((s.setEngine engine).setTask c intent .launching).setStart c (.registered intent),
          some (.registered c intent))
    | _ => none
  | .launch c =>
    match s.starts c with
    | some (.registered intent) =>
      some ((s.setTask c intent .waiting).setStart c (.finished intent none), none)
    | _ => none
  | .returnStart c =>
    match s.starts c with
    | some (.finished _ err) => some (s.setStart c .returned, some (.startReturned c err))
    | _ => none
  | .invokeBid c bid =>
    match s.bids c with
    | none => some (s.setBid c (.entered bid), some (.bidInvoked c bid))
    | some _ => none
  | .lookupBid c =>
    match s.bids c with
    | some (.entered bid) =>
      match checkBid bid with
      | some err => some (s.setBid c (.finished bid (some err)), none)
      | none =>
        match s.engine.lookup bid.intentID with
        | none =>
          some (s.setBid c (.finished bid (some (.notFound bid.intentID))), some (.missed c bid))
        | some p => some (s.setBid c (.located bid p), none)
    | _ => none
  | .appendBid c =>
    match s.bids c with
    | some (.located bid p) =>
      some ((s.setEngine (s.engine.appendBid p bid)).setBid c (.finished bid none),
        some (.appended c bid p))
    | _ => none
  | .returnBid c =>
    match s.bids c with
    | some (.finished _ err) => some (s.setBid c .returned, some (.bidReturned c err))
    | _ => none
  | .fireTimer g =>
    match s.tasks g with
    | some ⟨intent, .waiting⟩ => some (s.setTask g intent .fired, none)
    | _ => none
  | .lookupWinner g =>
    match s.tasks g with
    | some ⟨intent, .fired⟩ =>
      some (s.setTask g intent (.located (s.engine.lookup intent.val.id)), none)
    | _ => none
  | .selectWinner g =>
    match s.tasks g with
    | some ⟨intent, .located none⟩ => some (s.setTask g intent (.chosen none), none)
    | some ⟨intent, .located (some p)⟩ =>
      match s.engine.entries p with
      | none => none
      | some entry =>
        match selectLoop none entry.bids with
        | .ok winner =>
          some (s.setTask g intent (.chosen winner), some (.selected g p entry.bids winner))
        | .error .nilDereference => some (s.setTask g intent .panicked, none)
    | _ => none
  | .publish g =>
    match s.tasks g with
    | some ⟨intent, .chosen none⟩ => some (s.setTask g intent .closing, some (.noBids g))
    | some ⟨intent, .chosen (some winner)⟩ =>
      match s.engine.voucherCh.trySend (voucherFor intent winner) with
      | some ch =>
        some ((s.setChan ch).setTask g intent .closing,
          some (.emitted g (voucherFor intent winner)))
      | none => some (s.setTask g intent .closing, some (.dropped g (voucherFor intent winner)))
    | _ => none
  | .cleanup g =>
    match s.tasks g with
    | some ⟨intent, .closing⟩ =>
      some ((s.setEngine (s.engine.cleanup intent.val.id)).setTask g intent .done,
        some (.closed g))
    | _ => none
  | .receive =>
    match s.engine.voucherCh.take with
    | some (v, ch) => some (s.setChan ch, some (.received v))
    | none => none
  | .park =>
    match s.engine.voucherCh.park with
    | some ch => some (s.setChan ch, none)
    | none => none

/-- The engine under every interleaving of its callers and its goroutines. -/
def system : System State Action Event := ⟨next⟩

/-- **What one step can do**: guard, next state and event, per branch of the source. -/
inductive Step (s : State) : Action → State → Option Event → Prop
  | invokeStart {c intent} (fresh : s.starts c = none) :
      Step s (.invokeStart c intent) (s.setStart c (.entered intent))
        (some (.startInvoked c intent))
  | refuse {c intent p} (call : s.starts c = some (.entered intent))
      (active : s.engine.auctions intent.val.id = some p) :
      Step s (.register c)
        (s.setStart c (.finished intent (some (.alreadyActive intent.val.id))))
        (some (.refused c intent))
  | register {c intent} (call : s.starts c = some (.entered intent))
      (free : s.engine.auctions intent.val.id = none) :
      Step s (.register c)
        (((s.setEngine (s.engine.insert c intent)).setTask c intent .launching).setStart c
          (.registered intent))
        (some (.registered c intent))
  | launch {c intent} (call : s.starts c = some (.registered intent)) :
      Step s (.launch c) ((s.setTask c intent .waiting).setStart c (.finished intent none)) none
  | returnStart {c intent err} (call : s.starts c = some (.finished intent err)) :
      Step s (.returnStart c) (s.setStart c .returned) (some (.startReturned c err))
  | invokeBid {c bid} (fresh : s.bids c = none) :
      Step s (.invokeBid c bid) (s.setBid c (.entered bid)) (some (.bidInvoked c bid))
  | checkFails {c bid err} (call : s.bids c = some (.entered bid))
      (bad : checkBid bid = some err) :
      Step s (.lookupBid c) (s.setBid c (.finished bid (some err))) none
  | miss {c bid} (call : s.bids c = some (.entered bid)) (priced : bid.Priced)
      (absent : s.engine.auctions bid.intentID = none) :
      Step s (.lookupBid c) (s.setBid c (.finished bid (some (.notFound bid.intentID))))
        (some (.missed c bid))
  | locate {c bid p} (call : s.bids c = some (.entered bid)) (priced : bid.Priced)
      (found : s.engine.auctions bid.intentID = some p) :
      Step s (.lookupBid c) (s.setBid c (.located bid p)) none
  | append {c bid p} (call : s.bids c = some (.located bid p)) :
      Step s (.appendBid c)
        ((s.setEngine (s.engine.appendBid p bid)).setBid c (.finished bid none))
        (some (.appended c bid p))
  | returnBid {c bid err} (call : s.bids c = some (.finished bid err)) :
      Step s (.returnBid c) (s.setBid c .returned) (some (.bidReturned c err))
  | fireTimer {g intent} (task : s.tasks g = some ⟨intent, .waiting⟩) :
      Step s (.fireTimer g) (s.setTask g intent .fired) none
  | lookupWinner {g intent} (task : s.tasks g = some ⟨intent, .fired⟩) :
      Step s (.lookupWinner g)
        (s.setTask g intent (.located (s.engine.auctions intent.val.id))) none
  | selectNil {g intent} (task : s.tasks g = some ⟨intent, .located none⟩) :
      Step s (.selectWinner g) (s.setTask g intent (.chosen none)) none
  | select {g intent p entry winner} (task : s.tasks g = some ⟨intent, .located (some p)⟩)
      (object : s.engine.entries p = some entry)
      (loop : selectLoop none entry.bids = .ok winner) :
      Step s (.selectWinner g) (s.setTask g intent (.chosen winner))
        (some (.selected g p entry.bids winner))
  | selectPanics {g intent p entry} (task : s.tasks g = some ⟨intent, .located (some p)⟩)
      (object : s.engine.entries p = some entry)
      (loop : selectLoop none entry.bids = .error .nilDereference) :
      Step s (.selectWinner g) (s.setTask g intent .panicked) none
  | noBids {g intent} (task : s.tasks g = some ⟨intent, .chosen none⟩) :
      Step s (.publish g) (s.setTask g intent .closing) (some (.noBids g))
  | emit {g intent winner ch} (task : s.tasks g = some ⟨intent, .chosen (some winner)⟩)
      (sent : s.engine.voucherCh.trySend (voucherFor intent winner) = some ch) :
      Step s (.publish g) ((s.setChan ch).setTask g intent .closing)
        (some (.emitted g (voucherFor intent winner)))
  | drop {g intent winner} (task : s.tasks g = some ⟨intent, .chosen (some winner)⟩)
      (full : s.engine.voucherCh.trySend (voucherFor intent winner) = none) :
      Step s (.publish g) (s.setTask g intent .closing)
        (some (.dropped g (voucherFor intent winner)))
  | cleanup {g intent} (task : s.tasks g = some ⟨intent, .closing⟩) :
      Step s (.cleanup g) ((s.setEngine (s.engine.cleanup intent.val.id)).setTask g intent .done)
        (some (.closed g))
  | receive {v ch} (taken : s.engine.voucherCh.take = some (v, ch)) :
      Step s .receive (s.setChan ch) (some (.received v))
  | park {ch} (parked : s.engine.voucherCh.park = some ch) :
      Step s .park (s.setChan ch) none

/-- **Every step is one of `Step`'s.** -/
theorem next_cases {s s' : State} {a : Action} {o : Option Event} (h : next s a = some (s', o)) :
    Step s a s' o := by
  cases a with
  | invokeStart c intent =>
    simp only [next] at h
    split at h <;> cases h
    exact .invokeStart ‹_›
  | register c =>
    simp only [next] at h
    split at h
    · rename_i intent call
      cases hact : s.engine.auctions intent.val.id with
      | none =>
        simp only [Engine.register, hact] at h
        cases h
        exact .register call hact
      | some p =>
        simp only [Engine.register, hact] at h
        cases h
        exact .refuse call hact
    · cases h
  | launch c =>
    simp only [next] at h
    split at h <;> cases h
    exact .launch ‹_›
  | returnStart c =>
    simp only [next] at h
    split at h <;> cases h
    exact .returnStart ‹_›
  | invokeBid c bid =>
    simp only [next] at h
    split at h <;> cases h
    exact .invokeBid ‹_›
  | lookupBid c =>
    simp only [next] at h
    split at h
    · rename_i bid call
      cases hc : checkBid bid with
      | some err =>
        simp only [hc] at h
        cases h
        exact .checkFails call hc
      | none =>
        have priced := checkBid_eq_none.mp hc
        simp only [hc, Engine.lookup] at h
        cases hl : s.engine.auctions bid.intentID with
        | none => simp only [hl] at h; cases h; exact .miss call priced hl
        | some p => simp only [hl] at h; cases h; exact .locate call priced hl
    · cases h
  | appendBid c =>
    simp only [next] at h
    split at h <;> cases h
    exact .append ‹_›
  | returnBid c =>
    simp only [next] at h
    split at h <;> cases h
    exact .returnBid ‹_›
  | fireTimer g =>
    simp only [next] at h
    split at h <;> cases h
    exact .fireTimer ‹_›
  | lookupWinner g =>
    simp only [next] at h
    split at h <;> cases h
    exact .lookupWinner ‹_›
  | selectWinner g =>
    simp only [next] at h
    split at h
    · cases h
      exact .selectNil ‹_›
    · rename_i intent p task
      split at h
      · cases h
      · split at h <;> cases h
        · exact .select task ‹_› ‹_›
        · exact .selectPanics task ‹_› ‹_›
    · cases h
  | publish g =>
    simp only [next] at h
    split at h
    · cases h
      exact .noBids ‹_›
    · split at h <;> cases h
      · exact .emit ‹_› ‹_›
      · exact .drop ‹_› ‹_›
    · cases h
  | cleanup g =>
    simp only [next] at h
    split at h <;> cases h
    exact .cleanup ‹_›
  | receive =>
    simp only [next] at h
    split at h <;> cases h
    exact .receive ‹_›
  | park =>
    simp only [next] at h
    split at h <;> cases h
    exact .park ‹_›

/-- An invariant of the engine's states: it holds of a new engine, and each step keeps it. -/
theorem preserved {I : State → Prop} {cap : Nat} {tr : List Event} {s : State}
    (h : system.Path (.init cap) tr s) (base : I (.init cap))
    (step : ∀ s a s' o, I s → Step s a s' o → I s') : I s :=
  h.preserved base fun s a s' o hI hn => step s a s' o hI (next_cases hn)

/-! ## A small auction to play -/

namespace Sample

open VynxRelayer.Sample

/-- Start an auction and submit `low`. -/
def opening : List Action :=
  [.invokeStart 0 intent, .register 0, .launch 0, .returnStart 0,
    .invokeBid 1 low, .lookupBid 1, .appendBid 1, .returnBid 1]

/-- What the opening shows. -/
def opened : List Event :=
  [.startInvoked 0 intent, .registered 0 intent, .startReturned 0 none,
    .bidInvoked 1 low, .appended 1 low 0, .bidReturned 1 none]

/-- Let the timer fire, select, publish and clean up. -/
def closing : List Action :=
  [.fireTimer 0, .lookupWinner 0, .selectWinner 0, .publish 0, .cleanup 0]

/-- What the closing shows. -/
def closed : List Event :=
  [.selected 0 0 [low] (some low), .emitted 0 (voucherFor intent low), .closed 0]

end Sample

end VynxRelayer.Auction
