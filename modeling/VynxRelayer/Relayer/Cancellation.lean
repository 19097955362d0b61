import VynxRelayer.Lib.Parking
import VynxRelayer.Relayer.Rest

/-!
# The relayer and its context

`main` hands one context to its background goroutines: the two dispatchers, the executor, the
drainer and `Hub.Run`. On SIGTERM, or when the HTTP server fails, the context is cancelled. Each
worker then returns at its next `select` that picks `ctx.Done()`; while its channel has something to
receive as well, `select` may pick that instead, any number of times. `Hub.Run` closes every channel
that is registered at that moment, once. Nothing else is told: handlers, auctions and pumps go on
until the process ends, and the process may end at any moment after the cancellation, which is to
say that every prefix of a run is a run.

A worker that has returned does not come back to its channel. Apart from that, the cancellation adds
nothing: `shutdown_traces` finds for every run a run of the relayer of
`VynxRelayer.Relayer.Pipeline`, with its hub closed at the same moments, that shows the same. The
one difference between their states is whether a receiver has parked, and parking shows nothing. So
whatever holds of every trace of the relayer holds of every trace of a relayer that is being shut
down.
-/

namespace VynxRelayer.Relayer

open Lib Auction Ingress TxManager

namespace Shutdown

/-! ## The workers -/

/-- The goroutines with a `select` on the context and a channel. -/
inductive Worker where
  | intentDispatcher
  | bidDispatcher
  | executor
  | drainer
  deriving DecidableEq

/-- Whose step it is, if it is a worker's. -/
def worker? : Action → Option Worker
  | .dispatchIntent => some .intentDispatcher
  | .parkIntent => some .intentDispatcher
  | .returnIntent => some .intentDispatcher
  | .dispatchBid => some .bidDispatcher
  | .parkBid => some .bidDispatcher
  | .returnBid => some .bidDispatcher
  | .receive => some .executor
  | .parkExecutor => some .executor
  | .execute _ => some .executor
  | .notify => some .executor
  | .drain => some .drainer
  | .parkDrain => some .drainer
  | _ => none

/-- A worker's `select` picks `ctx.Done()`: it is at its channel and leaves it. -/
def leave (s : Relayer.State) : Worker → Option Relayer.State
  | .intentDispatcher =>
    match s.intentDispatcher with
    | .calling _ => none
    | .waiting => s.intentCh.leave.map fun intentCh => { s with intentCh }
  | .bidDispatcher =>
    match s.bidDispatcher with
    | .calling _ => none
    | .waiting => s.bidCh.leave.map fun bidCh => { s with bidCh }
  | .executor =>
    match s.executor with
    | .waiting =>
      s.engine.engine.voucherCh.leave.map fun ch => { s with engine := s.engine.setChan ch }
    | _ => none
  | .drainer => s.txFailedCh.leave.map fun txFailedCh => { s with txFailedCh }

/-! ## The relayer with its context -/

structure State where
  relayer : Relayer.State
  cancelled : Bool
  /-- `Hub.Run` has closed the hub. -/
  hubClosed : Bool
  stopped : Worker → Bool

inductive Action where
  | relayer (a : Relayer.Action)
  | cancel
  | closeHub
  | stop (w : Worker)

inductive Event where
  | relayer (e : Relayer.Event)
  | cancelled
  | stopped (w : Worker)
  deriving DecidableEq

def Event.relayer? : Event → Option Relayer.Event
  | .relayer e => some e
  | _ => none

def State.init (buf : Buffers) (nonceQueue : NonceQueue) : State where
  relayer := .init buf nonceQueue
  cancelled := false
  hubClosed := false
  stopped := fun _ => false

/-- The step is taken by `Hub.Run`, or by a worker that has returned. -/
def State.barred (s : State) : Relayer.Action → Bool
  | .hub .shutdown => true
  | a => (worker? a).any s.stopped

/-- One step of one goroutine. -/
def next (p : Platform) (s : State) : Action → Option (State × Option Event)
  | .relayer a =>
    if s.barred a then none
    else
      match Relayer.next p s.relayer a with
      | none => none
      | some (relayer, o) => some ({ s with relayer }, o.map .relayer)
  | .cancel => if s.cancelled then none else some ({ s with cancelled := true }, some .cancelled)
  | .closeHub =>
    if s.cancelled ∧ s.hubClosed = false then
      match Relayer.next p s.relayer (.hub .shutdown) with
      | none => none
      | some (relayer, o) => some ({ s with relayer, hubClosed := true }, o.map .relayer)
    else none
  | .stop w =>
    if s.cancelled ∧ s.stopped w = false then
      match leave s.relayer w with
      | none => none
      | some relayer =>
        some ({ s with relayer, stopped := Function.update s.stopped w true }, some (.stopped w))
    else none

/-- The relayer and its context, under every interleaving. -/
def system (p : Platform) : System State Action Event := ⟨next p⟩

/-- **What one step can do**: guard, next state and event. -/
inductive Step (p : Platform) (s : State) : Action → State → Option Event → Prop
  | relayer {a relayer o} (may : s.barred a = false)
      (step : Relayer.next p s.relayer a = some (relayer, o)) :
      Step p s (.relayer a) { s with relayer } (o.map .relayer)
  | cancel (running : s.cancelled = false) :
      Step p s .cancel { s with cancelled := true } (some .cancelled)
  | closeHub {relayer o} (cancelled : s.cancelled = true) (isOpen : s.hubClosed = false)
      (step : Relayer.next p s.relayer (.hub .shutdown) = some (relayer, o)) :
      Step p s .closeHub { s with relayer, hubClosed := true } (o.map .relayer)
  | stop {w relayer} (cancelled : s.cancelled = true) (runs : s.stopped w = false)
      (left : leave s.relayer w = some relayer) :
      Step p s (.stop w) { s with relayer, stopped := Function.update s.stopped w true }
        (some (.stopped w))

/-- **Every step is one of `Step`'s.** -/
theorem next_cases {p : Platform} {s s' : State} {a : Action} {o : Option Event}
    (h : next p s a = some (s', o)) : Step p s a s' o := by
  cases a with
  | relayer a =>
    simp only [next] at h
    split at h
    · cases h
    · rename_i may
      split at h <;> cases h
      exact .relayer (Bool.eq_false_iff.mpr may) ‹_›
  | cancel =>
    simp only [next] at h
    split at h <;> cases h
    rename_i running
    exact .cancel (Bool.eq_false_iff.mpr running)
  | closeHub =>
    simp only [next] at h
    split at h
    · rename_i guard
      split at h <;> cases h
      exact .closeHub guard.1 guard.2 ‹_›
    · cases h
  | stop w =>
    simp only [next] at h
    split at h
    · rename_i guard
      split at h <;> cases h
      exact .stop guard.1 guard.2 ‹_›
    · cases h

/-- What a worker that leaves does to the relayer. -/
inductive Leaves (s : Relayer.State) : Worker → Relayer.State → Prop
  | intentDispatcher {intentCh} (waiting : s.intentDispatcher = .waiting)
      (left : s.intentCh.leave = some intentCh) : Leaves s .intentDispatcher { s with intentCh }
  | bidDispatcher {bidCh} (waiting : s.bidDispatcher = .waiting)
      (left : s.bidCh.leave = some bidCh) : Leaves s .bidDispatcher { s with bidCh }
  | executor {ch} (waiting : s.executor = .waiting)
      (left : s.engine.engine.voucherCh.leave = some ch) :
      Leaves s .executor { s with engine := s.engine.setChan ch }
  | drainer {txFailedCh} (left : s.txFailedCh.leave = some txFailedCh) :
      Leaves s .drainer { s with txFailedCh }

theorem leave_cases {s s' : Relayer.State} {w : Worker} (h : leave s w = some s') :
    Leaves s w s' := by
  cases w with
  | intentDispatcher =>
    simp only [leave] at h
    split at h
    · cases h
    · obtain ⟨ch, hleave, rfl⟩ := Option.map_eq_some_iff.mp h
      exact .intentDispatcher ‹_› hleave
  | bidDispatcher =>
    simp only [leave] at h
    split at h
    · cases h
    · obtain ⟨ch, hleave, rfl⟩ := Option.map_eq_some_iff.mp h
      exact .bidDispatcher ‹_› hleave
  | executor =>
    simp only [leave] at h
    split at h
    · obtain ⟨ch, hleave, rfl⟩ := Option.map_eq_some_iff.mp h
      exact .executor ‹_› hleave
    · cases h
  | drainer =>
    obtain ⟨ch, hleave, rfl⟩ := Option.map_eq_some_iff.mp h
    exact .drainer hleave

end Shutdown

/-! ## A relayer whose receivers park late -/

variable {p : Platform} {buf : Buffers} {q : NonceQueue} {s s' : State} {a : Action}
  {o : Option Event}

/-- The state with no receiver parked yet. -/
def State.awake (s : State) : State :=
  { s with
    intentCh := s.intentCh.awake
    bidCh := s.bidCh.awake
    engine := s.engine.setChan s.engine.engine.voucherCh.awake
    txFailedCh := s.txFailedCh.awake }

/-- Who is parked is at its channel. -/
structure Parked (s : State) : Prop where
  intents : s.intentCh.receiver.isParked = true → s.intentDispatcher = .waiting
  bids : s.bidCh.receiver.isParked = true → s.bidDispatcher = .waiting
  vouchers : s.engine.engine.voucherCh.receiver.isParked = true → s.executor = .waiting

theorem parked_init : Parked (.init buf q) :=
  ⟨fun h => (nomatch h), fun h => (nomatch h), fun h => (nomatch h)⟩

/-- The engine's own steps, but those that send, do not look at the voucher channel. -/
theorem internal_setChan {b : Auction.Action} {e e' : Auction.State} {o : Option Auction.Event}
    (inside : internal b = true) (step : Auction.Step e b e' o) (calm : ∀ g, b ≠ .publish g)
    (ch : Chan Voucher) :
    Auction.next (e.setChan ch) b = some (e'.setChan ch, o) ∧
      e'.engine.voucherCh = e.engine.voucherCh := by
  cases step with
  | invokeStart _ | returnStart _ | invokeBid _ | returnBid _ | receive _ | park _ => cases inside
  | noBids _ | emit _ _ | drop _ _ => exact absurd rfl (calm _)
  | refuse call active =>
    exact ⟨by simp [Auction.next, Auction.State.setChan, call, Engine.register, active,
      Auction.State.setStart], rfl⟩
  | register call free =>
    exact ⟨by simp [Auction.next, Auction.State.setChan, call, Engine.register, free,
      Auction.State.setStart, Auction.State.setTask, Auction.State.setEngine, Engine.insert], rfl⟩
  | launch call =>
    exact ⟨by simp [Auction.next, Auction.State.setChan, call, Auction.State.setStart,
      Auction.State.setTask], rfl⟩
  | checkFails call bad =>
    exact ⟨by simp [Auction.next, Auction.State.setChan, call, bad, Auction.State.setBid], rfl⟩
  | miss call priced absent =>
    exact ⟨by simp [Auction.next, Auction.State.setChan, call, checkBid_eq_none.mpr priced,
      Engine.lookup, absent, Auction.State.setBid], rfl⟩
  | locate call priced found =>
    exact ⟨by simp [Auction.next, Auction.State.setChan, call, checkBid_eq_none.mpr priced,
      Engine.lookup, found, Auction.State.setBid], rfl⟩
  | append call =>
    exact ⟨by simp [Auction.next, Auction.State.setChan, call, Auction.State.setBid,
      Auction.State.setEngine, Engine.appendBid], rfl⟩
  | fireTimer task | lookupWinner task | selectNil task =>
    exact ⟨by simp [Auction.next, Auction.State.setChan, task, Auction.State.setTask,
      Engine.lookup], rfl⟩
  | select task object loop | selectPanics task object loop =>
    exact ⟨by simp [Auction.next, Auction.State.setChan, task, object, loop,
      Auction.State.setTask], rfl⟩
  | cleanup task =>
    exact ⟨by simp [Auction.next, Auction.State.setChan, task, Auction.State.setTask,
      Auction.State.setEngine, Engine.cleanup], rfl⟩

/-! ### Parking in time -/

/-- The intent dispatcher parks, if it has parked. -/
theorem Parked.late_intents (parked : Parked s) :
    (system p).Path s.awake [] { s.awake with intentCh := s.intentCh } := by
  rcases Chan.awake_cases s.intentCh with ⟨_, hsame⟩ | ⟨hparked, hpark⟩
  · have heq : { s.awake with intentCh := s.intentCh } = s.awake := by
      simp only [State.awake, hsame]
    rw [heq]
    exact .nil
  · have hstep : (system p).next s.awake .parkIntent =
        some ({ s.awake with intentCh := s.intentCh }, none) := by
      simp [system, next, State.awake, parked.intents hparked, hpark]
    exact System.Path.single hstep

/-- The bid dispatcher parks, if it has parked. -/
theorem Parked.late_bids (parked : Parked s) :
    (system p).Path s.awake [] { s.awake with bidCh := s.bidCh } := by
  rcases Chan.awake_cases s.bidCh with ⟨_, hsame⟩ | ⟨hparked, hpark⟩
  · have heq : { s.awake with bidCh := s.bidCh } = s.awake := by
      simp only [State.awake, hsame]
    rw [heq]
    exact .nil
  · have hstep : (system p).next s.awake .parkBid =
        some ({ s.awake with bidCh := s.bidCh }, none) := by
      simp [system, next, State.awake, parked.bids hparked, hpark]
    exact System.Path.single hstep

/-- The executor parks, if it has parked. -/
theorem Parked.late_vouchers (parked : Parked s) :
    (system p).Path s.awake [] { s.awake with engine := s.engine } := by
  rcases Chan.awake_cases s.engine.engine.voucherCh with ⟨_, hsame⟩ | ⟨hparked, hpark⟩
  · have heq : { s.awake with engine := s.engine } = s.awake := by
      simp only [State.awake, hsame, Auction.State.setChan]
    rw [heq]
    exact .nil
  · have hstep : (system p).next s.awake .parkExecutor =
        some ({ s.awake with engine := s.engine }, none) := by
      simp [system, next, State.awake, parked.vouchers hparked, onEngine, Auction.next,
        Auction.State.setChan, hpark]
    exact System.Path.single hstep

/-- The drainer parks, if it has parked. -/
theorem late_failures :
    (system p).Path s.awake [] { s.awake with txFailedCh := s.txFailedCh } := by
  rcases Chan.awake_cases s.txFailedCh with ⟨_, hsame⟩ | ⟨_, hpark⟩
  · have heq : { s.awake with txFailedCh := s.txFailedCh } = s.awake := by
      simp only [State.awake, hsame]
    rw [heq]
    exact .nil
  · have hstep : (system p).next s.awake .parkDrain =
        some ({ s.awake with txFailedCh := s.txFailedCh }, none) := by
      simp [system, next, State.awake, hpark]
    exact System.Path.single hstep

/-- A step after silent ones. -/
theorem path_after {t t' u : State} (silent : (system p).Path t [] t')
    (step : next p t' a = some (u, o)) : (system p).Path t o.toList u := by
  have h := silent.trans (System.Path.single (M := system p) step)
  rwa [List.nil_append] at h

/-- A step of the engine that sends or drops a voucher. -/
theorem Parked.publish_awake {g : CallId} {e : Auction.State} {o : Option Auction.Event}
    (parked : Parked s) (step : Auction.Step s.engine (.publish g) e o) :
    (system p).Path s.awake (o.map Event.engine).toList ({ s with engine := e } : State).awake ∧
      Parked { s with engine := e } := by
  cases step with
  | noBids task =>
    refine ⟨System.Path.single (a := .engine (.publish g)) ?_, { parked with }⟩
    simp [system, next, internal, onEngine, State.awake, Auction.next, Auction.State.setChan, task,
      Auction.State.setTask]
  | @emit _ intent winner ch task sent =>
    have hrunning := Chan.running_of_trySend sent
    refine ⟨path_after (a := .engine (.publish g)) parked.late_vouchers ?_,
      { parked with vouchers := fun h => ?_ }⟩
    · simp [next, internal, onEngine, State.awake, Auction.next, task, sent,
        Auction.State.setChan, Auction.State.setTask, Chan.awake_of_not_parked hrunning]
    · have hparked : ch.receiver.isParked = true := h
      rw [hrunning] at hparked
      cases hparked
  | @drop _ intent winner task full =>
    refine ⟨System.Path.single (a := .engine (.publish g)) ?_, { parked with }⟩
    simp [system, next, internal, onEngine, State.awake, Auction.next, Auction.State.setChan, task,
      Auction.State.setTask, Chan.awake_of_full full, full]

/-- **Every step can be taken by a relayer whose receivers park late.** -/
theorem Parked.step_awake (parked : Parked s) (step : Step p s a s' o) :
    (system p).Path s.awake o.toList s'.awake ∧ Parked s' := by
  cases step with
  | @refuse h r now response fresh invalid =>
    refine ⟨System.Path.single (a := .post h r now) ?_, { parked with }⟩
    simp [system, next, State.awake, fresh, invalid, State.setHandler]
  | @accept h r now intent fresh valid =>
    refine ⟨System.Path.single (a := .post h r now) ?_, { parked with }⟩
    simp [system, next, State.awake, fresh, valid, State.setHandler]
  | @push h intent intentCh ready sent =>
    have hrunning := Chan.running_of_trySend sent
    refine ⟨path_after (a := .push h) parked.late_intents ?_,
      { parked with intents := fun hp => ?_ }⟩
    · simp [next, State.awake, ready, sent, State.setHandler, Chan.awake_of_not_parked hrunning]
    · have hparked : intentCh.receiver.isParked = true := hp
      rw [hrunning] at hparked
      cases hparked
  | @atCapacity h intent ready full =>
    refine ⟨System.Path.single (a := .push h) ?_, { parked with }⟩
    simp [system, next, State.awake, ready, State.setHandler, Chan.awake_of_full full, full]
  | @replyAccepted h intent pushed finished =>
    refine ⟨System.Path.single (a := .reply h) ?_, { parked with }⟩
    simp [system, next, State.awake, pushed, finished, State.setHandler]
  | @replyError h response failing =>
    refine ⟨System.Path.single (a := .reply h) ?_, { parked with }⟩
    simp [system, next, State.awake, failing, State.setHandler]
  | @hub b hub o move =>
    refine ⟨System.Path.single (a := .hub b) ?_, { parked with }⟩
    simp [system, next, State.awake, move]
  | @ignore k msg reading invalid =>
    refine ⟨System.Path.single (a := .message k msg) ?_, parked⟩
    simp [system, next, State.awake, reading, invalid]
  | @readBid k msg bid bidCh reading valid sent =>
    have hrunning := Chan.running_of_trySend sent
    refine ⟨path_after (a := .message k msg) parked.late_bids ?_,
      { parked with bids := fun hp => ?_ }⟩
    · simp [next, State.awake, reading, valid, sent, Chan.awake_of_not_parked hrunning]
    · have hparked : bidCh.receiver.isParked = true := hp
      rw [hrunning] at hparked
      cases hparked
  | @dropBid k msg bid reading valid full =>
    refine ⟨System.Path.single (a := .message k msg) ?_, { parked with }⟩
    simp [system, next, State.awake, reading, valid, Chan.awake_of_full full, full]
  | @dispatchIntent intent intentCh waiting taken fresh =>
    obtain ⟨hbefore, hafter⟩ := Chan.running_of_take taken
    refine ⟨System.Path.single (a := .dispatchIntent) ?_, { parked with intents := fun hp => ?_ }⟩
    · simp [system, next, State.awake, waiting, Chan.awake_of_not_parked hbefore,
        Chan.awake_of_not_parked hafter, taken, onEngine, Auction.next, Auction.State.setChan, fresh,
        Auction.State.setStart]
    · have hparked : intentCh.receiver.isParked = true := hp
      rw [hafter] at hparked
      cases hparked
  | @parkIntent intentCh waiting park =>
    refine ⟨?_, { parked with intents := fun _ => waiting }⟩
    have hsame : ({ s with intentCh } : State).awake = s.awake := by
      simp only [State.awake, Chan.awake_park park]
    rw [hsame]
    exact .nil
  | @returnIntent intent i err calling call =>
    refine ⟨System.Path.single (a := .returnIntent) ?_, { parked with intents := fun _ => rfl }⟩
    simp [system, next, State.awake, calling, onEngine, Auction.next, Auction.State.setChan, call,
      Auction.State.setStart]
  | @dispatchBid bid bidCh waiting taken fresh =>
    obtain ⟨hbefore, hafter⟩ := Chan.running_of_take taken
    refine ⟨System.Path.single (a := .dispatchBid) ?_, { parked with bids := fun hp => ?_ }⟩
    · simp [system, next, State.awake, waiting, Chan.awake_of_not_parked hbefore,
        Chan.awake_of_not_parked hafter, taken, onEngine, Auction.next, Auction.State.setChan, fresh,
        Auction.State.setBid]
    · have hparked : bidCh.receiver.isParked = true := hp
      rw [hafter] at hparked
      cases hparked
  | @parkBid bidCh waiting park =>
    refine ⟨?_, { parked with bids := fun _ => waiting }⟩
    have hsame : ({ s with bidCh } : State).awake = s.awake := by
      simp only [State.awake, Chan.awake_park park]
    rw [hsame]
    exact .nil
  | @returnBid bid b err calling call =>
    refine ⟨System.Path.single (a := .returnBid) ?_, { parked with bids := fun _ => rfl }⟩
    simp [system, next, State.awake, calling, onEngine, Auction.next, Auction.State.setChan, call,
      Auction.State.setBid]
  | @engine b e o inside move =>
    by_cases hpublish : ∃ g, b = .publish g
    · obtain ⟨g, rfl⟩ := hpublish
      exact parked.publish_awake (Auction.next_cases move)
    · obtain ⟨hnext, hsame⟩ := internal_setChan inside (Auction.next_cases move)
        (fun g hg => hpublish ⟨g, hg⟩) s.engine.engine.voucherCh.awake
      refine ⟨System.Path.single (a := .engine b) ?_,
        { parked with vouchers := fun h => parked.vouchers (hsame ▸ h) }⟩
      simp [system, next, State.awake, inside, onEngine, hnext, hsame]
  | @receive v ch waiting taken =>
    obtain ⟨hbefore, hafter⟩ := Chan.running_of_take taken
    refine ⟨System.Path.single (a := .receive) ?_, { parked with vouchers := fun hp => ?_ }⟩
    · simp [system, next, State.awake, waiting, Chan.awake_of_not_parked hbefore,
        Chan.awake_of_not_parked hafter, taken, onEngine, Auction.next, Auction.State.setChan]
    · have hparked : ch.receiver.isParked = true := hp
      rw [hafter] at hparked
      cases hparked
  | @parkExecutor ch waiting park =>
    refine ⟨?_, { parked with vouchers := fun _ => waiting }⟩
    have hsame : ({ s with engine := s.engine.setChan ch } : State).awake = s.awake := by
      simp only [State.awake, Auction.State.setChan, Chan.awake_park park]
    rw [hsame]
    exact .nil
  | @settle out v report executing run ok =>
    refine ⟨System.Path.single (a := .execute out) ?_, { parked with vouchers := fun _ => rfl }⟩
    subst run
    simp [system, next, State.awake, executing, ok]
  | @fail out v report err executing run bad =>
    refine ⟨System.Path.single (a := .execute out) ?_, { parked with vouchers := fun hp => ?_ }⟩
    · subst run
      simp [system, next, State.awake, executing, bad]
    · have hwaiting := parked.vouchers hp
      rw [executing] at hwaiting
      cases hwaiting
  | @notify v txFailedCh failed sent =>
    have hrunning := Chan.running_of_trySend sent
    refine ⟨path_after (a := .notify) late_failures ?_, { parked with vouchers := fun _ => rfl }⟩
    simp [next, State.awake, failed, sent, Chan.awake_of_not_parked hrunning]
  | @notifyDropped v failed full =>
    refine ⟨System.Path.single (a := .notify) ?_, { parked with vouchers := fun _ => rfl }⟩
    simp [system, next, State.awake, failed, Chan.awake_of_full full, full]
  | @drain id txFailedCh taken =>
    obtain ⟨hbefore, hafter⟩ := Chan.running_of_take taken
    refine ⟨System.Path.single (a := .drain) ?_, { parked with }⟩
    simp [system, next, State.awake, Chan.awake_of_not_parked hbefore,
      Chan.awake_of_not_parked hafter, taken]
  | @parkDrain txFailedCh park =>
    refine ⟨?_, { parked with }⟩
    have hsame : ({ s with txFailedCh } : State).awake = s.awake := by
      simp only [State.awake, Chan.awake_park park]
    rw [hsame]
    exact .nil

namespace Shutdown

variable {tr : List Event} {s : State}

/-- A worker that leaves was parked, or might have been. -/
theorem Leaves.awake {r r' : Relayer.State} {w : Worker} (leaves : Leaves r w r')
    (parked : Parked r) : r'.awake = r.awake ∧ Parked r' := by
  cases leaves with
  | intentDispatcher waiting left =>
    exact ⟨by simp only [State.awake, Chan.awake_leave left],
      { parked with intents := fun _ => waiting }⟩
  | bidDispatcher waiting left =>
    exact ⟨by simp only [State.awake, Chan.awake_leave left],
      { parked with bids := fun _ => waiting }⟩
  | executor waiting left =>
    exact ⟨by simp only [State.awake, Auction.State.setChan, Chan.awake_leave left],
      { parked with vouchers := fun _ => waiting }⟩
  | drainer left =>
    exact ⟨by simp only [State.awake, Chan.awake_leave left], { parked with }⟩

theorem relayer_map (o : Option Relayer.Event) :
    (o.map Event.relayer).toList.filterMap Event.relayer? = o.toList := by
  cases o <;> rfl

theorem traces (h : (system p).Path (.init buf q) tr s) :
    (Relayer.system p).Path (.init buf q) (tr.filterMap Event.relayer?) s.relayer.awake ∧
      Parked s.relayer := by
  induction h with
  | nil => exact ⟨.nil, parked_init⟩
  | snoc _ _ step ih =>
    obtain ⟨hpath, hparked⟩ := ih
    rw [List.filterMap_append]
    cases next_cases step with
    | relayer _ move | closeHub _ _ move =>
      obtain ⟨hmove, hparked'⟩ := hparked.step_awake (Relayer.next_cases move)
      rw [relayer_map]
      exact ⟨hpath.trans hmove, hparked'⟩
    | cancel _ =>
      rw [show (some Event.cancelled).toList.filterMap Event.relayer? = [] from rfl, List.append_nil]
      exact ⟨hpath, hparked⟩
    | @stop w r _ _ left =>
      obtain ⟨hsame, hparked'⟩ := (leave_cases left).awake hparked
      rw [show (some (Event.stopped w)).toList.filterMap Event.relayer? = [] from rfl,
        List.append_nil, hsame]
      exact ⟨hpath, hparked'⟩

/-- **Cancellation adds nothing**: what a relayer shows while it is being shut down, a relayer whose
workers never return, and whose hub is closed at the same moments, can show as well. It is then
where the other is, except that its receivers may not have parked yet. -/
theorem shutdown_traces (h : (system p).Path (.init buf q) tr s) :
    (Relayer.system p).Path (.init buf q) (tr.filterMap Event.relayer?) s.relayer.awake :=
  (traces h).1

namespace Sample

open Relayer.Sample

/-- The dispatcher parks, the context is cancelled, the dispatcher leaves, and a request that comes
after it is accepted. -/
def stranding : List Action :=
  [.relayer .parkIntent, .cancel, .stop .intentDispatcher] ++
    (submit 0 [1]).filterMap fun a =>
      match a with
      | .hub (.offer _ _) => none
      | .hub (.write _) => none
      | a => some (.relayer a)

def stranded : List Event :=
  [.cancelled, .stopped .intentDispatcher, .relayer (.enqueued 0 (intent 0 [1])),
    .relayer (.replied 0 (.accepted [1]))]

theorem exists_stranded : ∃ s, (system platform).Path (.init buffers ⟨7⟩) stranded s := by
  have hrun : ((system platform).run (.init buffers ⟨7⟩) stranding).map Prod.snd =
      some stranded := by
    decide +kernel
  exact System.exists_path_of_run hrun

end Sample

/-- The request that came too late, in a relayer that goes on. -/
theorem shutdown_traces_stranded : ∃ s,
    (system Relayer.Sample.platform).Path (.init Relayer.Sample.buffers ⟨7⟩) Sample.stranded s ∧
    (Relayer.system Relayer.Sample.platform).Path (.init Relayer.Sample.buffers ⟨7⟩)
      [.enqueued 0 (Relayer.Sample.intent 0 [1]), .replied 0 (.accepted [1])] s.relayer.awake := by
  obtain ⟨s, path⟩ := Sample.exists_stranded
  exact ⟨s, path, shutdown_traces path⟩

end Shutdown

end VynxRelayer.Relayer
