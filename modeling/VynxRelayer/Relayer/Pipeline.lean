import VynxRelayer.Auction.Fates
import VynxRelayer.Ingress.Wire
import VynxRelayer.TxManager.Executor

/-!
# The relayer as one system

`cmd/relayer/main.go` wires the slices together by channels: HTTP handlers push intents onto
`intentCh` and broadcast them, a dispatcher takes them off and calls `StartAuction`; the solvers'
`readPump`s push bids onto `bidCh`, a second dispatcher takes them off and calls `SubmitBid`; the
auctions send vouchers on `voucherCh`, the executor settles them one after the other and notifies
`txFailedCh` of failures, which a drainer empties. There is no shared state but the channels, the
engine and the hub.

Every one of these goroutines is a thread of one system, and a schedule is any interleaving of their
steps. The engine's steps are those of `VynxRelayer.Auction.Threads`: the dispatchers and the
executor take the steps that are theirs (invocations, returns and receives), the engine's own
goroutines and critical sections move by themselves. So a run of the relayer contains a run of the
engine (`engine_pathOn`), and what is proved of the engine holds in the relayer.

An intent lives at the address its handler allocated, which is the handler's number, and its
`StartAuction` call carries that number. Bids are numbered as they are read.

The hub can be closed at any moment (`Shutdown`, a step of the hub). Cancellation of the context,
which makes the workers return, is left to `VynxRelayer.Relayer.Cancellation`; the connections' own
failures before they are registered with the hub are left out.
-/

namespace VynxRelayer.Relayer

open Lib Lib.Json Auction Ingress TxManager

/-- The name of one HTTP request. -/
abbrev HandlerId := Nat

/-- What the relayer is configured with, and third-party code it relies on: the decoders of what
comes in, the hash function and the vault's address, and the depth of a solver's outbound queue. -/
structure Platform where
  intake : Intake
  setup : Setup
  sendBufSize : Nat

/-- The capacities of the four channels. -/
structure Buffers where
  intentBuf : Nat
  bidBuf : Nat
  voucherBuf : Nat
  txFailBuf : Nat

/-- Where a `SubmitIntent` handler stands. -/
inductive Handler where
  /-- the request is valid, the push is next -/
  | ready (intent : Ref Intent)
  /-- the intent is on its channel, `BroadcastIntent` runs -/
  | broadcasting (intent : Ref Intent)
  /-- about to respond with an error -/
  | failing (response : Response)
  | done
  deriving DecidableEq

/-- Where a dispatcher stands: at its channel, or in a call for what it took off it. -/
inductive Dispatcher (α : Type) where
  | waiting
  | calling (item : α)
  deriving DecidableEq

/-- Where the executor stands. -/
inductive Executor where
  | waiting
  | executing (v : Voucher)
  /-- `execute` returned an error, the notification is next -/
  | failed (v : Voucher)
  deriving DecidableEq

structure State where
  handlers : HandlerId → Option Handler
  hub : Hub
  intentCh : Chan (Ref Intent)
  intentDispatcher : Dispatcher (Ref Intent)
  bidCh : Chan (Ref Bid)
  bidDispatcher : Dispatcher (Ref Bid)
  /-- how many bids were read so far -/
  bidCount : Nat
  engine : Auction.State
  executor : Executor
  nonceQueue : NonceQueue
  txFailedCh : Chan IntentID

inductive Action where
  | post (h : HandlerId) (r : Request) (now : Int)
  | push (h : HandlerId)
  | reply (h : HandlerId)
  | hub (a : Hub.Action)
  | message (k : ClientId) (msg : Bytes)
  | dispatchIntent
  | parkIntent
  | returnIntent
  | dispatchBid
  | parkBid
  | returnBid
  | engine (a : Auction.Action)
  | receive
  | parkExecutor
  | execute (out : Outside)
  | notify
  | drain
  | parkDrain

inductive Event where
  /-- handler `h` put its intent onto `intentCh` -/
  | enqueued (h : HandlerId) (intent : Ref Intent)
  | replied (h : HandlerId) (response : Response)
  | hub (e : Hub.Event)
  /-- a message of solver `k` became a bid on `bidCh` -/
  | bidRead (k : ClientId) (bid : Ref Bid)
  | bidDropped (k : ClientId) (bid : Ref Bid)
  | bidIgnored (k : ClientId)
  | engine (e : Auction.Event)
  | executed (v : Voucher) (attempt : Option Attempt) (err : Option ExecuteError)
  | notified (v : Voucher)
  | notifyDropped (v : Voucher)
  | drained (id : IntentID)
  deriving DecidableEq

namespace State

/-- The relayer as `main` starts it. -/
def init (buf : Buffers) (nonceQueue : NonceQueue) : State where
  handlers := fun _ => none
  hub := .new
  intentCh := .make buf.intentBuf
  intentDispatcher := .waiting
  bidCh := .make buf.bidBuf
  bidDispatcher := .waiting
  bidCount := 0
  engine := .init buf.voucherBuf
  executor := .waiting
  nonceQueue
  txFailedCh := .make buf.txFailBuf

def setHandler (s : State) (h : HandlerId) (handler : Handler) : State :=
  { s with handlers := Function.update s.handlers h (some handler) }

end State

/-- The engine's steps that are not those of a caller or a consumer: its critical sections and its
goroutines. -/
def internal : Auction.Action → Bool
  | .register _ => true
  | .launch _ => true
  | .lookupBid _ => true
  | .appendBid _ => true
  | .fireTimer _ => true
  | .lookupWinner _ => true
  | .selectWinner _ => true
  | .publish _ => true
  | .cleanup _ => true
  | _ => false

/-- A step of the engine within the relayer. -/
def onEngine (s : State) (a : Auction.Action) : Option (State × Option Event) :=
  match Auction.next s.engine a with
  | none => none
  | some (engine, o) => some ({ s with engine }, o.map .engine)

/-- One step of one goroutine. -/
def next (p : Platform) (s : State) : Action → Option (State × Option Event)
  | .post h r now =>
    match s.handlers h with
    | some _ => none
    | none =>
      match submitIntent p.intake now h r with
      | .error response => some (s.setHandler h (.failing response), none)
      | .ok intent => some (s.setHandler h (.ready intent), none)
  | .push h =>
    match s.handlers h with
    | some (.ready intent) =>
      match s.intentCh.trySend intent with
      | some intentCh =>
        some ({ s.setHandler h (.broadcasting intent) with
          intentCh, hub := s.hub.call h intent }, some (.enqueued h intent))
      | none => some (s.setHandler h (.failing atCapacity), none)
    | _ => none
  | .reply h =>
    match s.handlers h with
    | some (.broadcasting intent) =>
      match s.hub.broadcasts h with
      | some .finished =>
        some (s.setHandler h .done, some (.replied h (.accepted intent.val.id.bytes)))
      | _ => none
    | some (.failing response) => some (s.setHandler h .done, some (.replied h response))
    | _ => none
  | .hub a =>
    match s.hub.next p.sendBufSize a with
    | none => none
    | some (hub, o) => some ({ s with hub }, o.map .hub)
  | .message k msg =>
    match (s.hub.sessions k).map Session.reader with
    | some .reading =>
      match readBid p.intake msg with
      | none => some (s, some (.bidIgnored k))
      | some bid =>
        match s.bidCh.trySend ⟨s.bidCount, bid⟩ with
        | some bidCh =>
          some ({ s with bidCh, bidCount := s.bidCount + 1 }, some (.bidRead k ⟨s.bidCount, bid⟩))
        | none =>
          some ({ s with bidCount := s.bidCount + 1 }, some (.bidDropped k ⟨s.bidCount, bid⟩))
    | _ => none
  | .dispatchIntent =>
    match s.intentDispatcher with
    | .calling _ => none
    | .waiting =>
      match s.intentCh.take with
      | none => none
      | some (intent, intentCh) =>
        onEngine { s with intentCh, intentDispatcher := .calling intent }
          (.invokeStart intent.addr intent)
  | .parkIntent =>
    match s.intentDispatcher with
    | .calling _ => none
    | .waiting => s.intentCh.park.map fun intentCh => ({ s with intentCh }, none)
  | .returnIntent =>
    match s.intentDispatcher with
    | .waiting => none
    | .calling intent =>
      onEngine { s with intentDispatcher := .waiting } (.returnStart intent.addr)
  | .dispatchBid =>
    match s.bidDispatcher with
    | .calling _ => none
    | .waiting =>
      match s.bidCh.take with
      | none => none
      | some (bid, bidCh) =>
        onEngine { s with bidCh, bidDispatcher := .calling bid } (.invokeBid bid.addr bid.val)
  | .parkBid =>
    match s.bidDispatcher with
    | .calling _ => none
    | .waiting => s.bidCh.park.map fun bidCh => ({ s with bidCh }, none)
  | .returnBid =>
    match s.bidDispatcher with
    | .waiting => none
    | .calling bid => onEngine { s with bidDispatcher := .waiting } (.returnBid bid.addr)
  | .engine a => if internal a then onEngine s a else none
  | .receive =>
    match s.executor with
    | .waiting =>
      match s.engine.engine.voucherCh.take with
      | none => none
      | some (v, _) => onEngine { s with executor := .executing v } .receive
    | _ => none
  | .parkExecutor =>
    match s.executor with
    | .waiting => onEngine s .park
    | _ => none
  | .execute out =>
    match s.executor with
    | .executing v =>
      let report := TxManager.execute p.setup out s.nonceQueue v
      some ({ s with
          nonceQueue := report.queue
          executor := if report.err.isNone then .waiting else .failed v },
        some (.executed v report.attempt report.err))
    | _ => none
  | .notify =>
    match s.executor with
    | .failed v =>
      match s.txFailedCh.trySend v.intentID with
      | some txFailedCh => some ({ s with txFailedCh, executor := .waiting }, some (.notified v))
      | none => some ({ s with executor := .waiting }, some (.notifyDropped v))
    | _ => none
  | .drain =>
    match s.txFailedCh.take with
    | none => none
    | some (id, txFailedCh) => some ({ s with txFailedCh }, some (.drained id))
  | .parkDrain => s.txFailedCh.park.map fun txFailedCh => ({ s with txFailedCh }, none)

/-- The relayer under every interleaving of its goroutines. -/
def system (p : Platform) : System State Action Event := ⟨next p⟩

/-- **What one step can do**: guard, next state and event. -/
inductive Step (p : Platform) (s : State) : Action → State → Option Event → Prop
  | refuse {h r now response} (fresh : s.handlers h = none)
      (invalid : submitIntent p.intake now h r = .error response) :
      Step p s (.post h r now) (s.setHandler h (.failing response)) none
  | accept {h r now intent} (fresh : s.handlers h = none)
      (valid : submitIntent p.intake now h r = .ok intent) :
      Step p s (.post h r now) (s.setHandler h (.ready intent)) none
  | push {h intent intentCh} (ready : s.handlers h = some (.ready intent))
      (sent : s.intentCh.trySend intent = some intentCh) :
      Step p s (.push h)
        { s.setHandler h (.broadcasting intent) with intentCh, hub := s.hub.call h intent }
        (some (.enqueued h intent))
  | atCapacity {h intent} (ready : s.handlers h = some (.ready intent))
      (full : s.intentCh.trySend intent = none) :
      Step p s (.push h) (s.setHandler h (.failing atCapacity)) none
  | replyAccepted {h intent} (pushed : s.handlers h = some (.broadcasting intent))
      (finished : s.hub.broadcasts h = some .finished) :
      Step p s (.reply h) (s.setHandler h .done)
        (some (.replied h (.accepted intent.val.id.bytes)))
  | replyError {h response} (failing : s.handlers h = some (.failing response)) :
      Step p s (.reply h) (s.setHandler h .done) (some (.replied h response))
  | hub {a hub o} (step : s.hub.next p.sendBufSize a = some (hub, o)) :
      Step p s (.hub a) { s with hub } (o.map .hub)
  | ignore {k msg} (reading : (s.hub.sessions k).map Session.reader = some .reading)
      (invalid : readBid p.intake msg = none) :
      Step p s (.message k msg) s (some (.bidIgnored k))
  | readBid {k msg bid bidCh} (reading : (s.hub.sessions k).map Session.reader = some .reading)
      (valid : readBid p.intake msg = some bid)
      (sent : s.bidCh.trySend ⟨s.bidCount, bid⟩ = some bidCh) :
      Step p s (.message k msg) { s with bidCh, bidCount := s.bidCount + 1 }
        (some (.bidRead k ⟨s.bidCount, bid⟩))
  | dropBid {k msg bid} (reading : (s.hub.sessions k).map Session.reader = some .reading)
      (valid : readBid p.intake msg = some bid)
      (full : s.bidCh.trySend ⟨s.bidCount, bid⟩ = none) :
      Step p s (.message k msg) { s with bidCount := s.bidCount + 1 }
        (some (.bidDropped k ⟨s.bidCount, bid⟩))
  | dispatchIntent {intent intentCh} (waiting : s.intentDispatcher = .waiting)
      (taken : s.intentCh.take = some (intent, intentCh))
      (fresh : s.engine.starts intent.addr = none) :
      Step p s .dispatchIntent
        { s with
          intentCh
          intentDispatcher := .calling intent
          engine := s.engine.setStart intent.addr (.entered intent) }
        (some (.engine (.startInvoked intent.addr intent)))
  | parkIntent {intentCh} (waiting : s.intentDispatcher = .waiting)
      (parked : s.intentCh.park = some intentCh) :
      Step p s .parkIntent { s with intentCh } none
  | returnIntent {intent i err} (calling : s.intentDispatcher = .calling intent)
      (call : s.engine.starts intent.addr = some (.finished i err)) :
      Step p s .returnIntent
        { s with
          intentDispatcher := .waiting
          engine := s.engine.setStart intent.addr .returned }
        (some (.engine (.startReturned intent.addr err)))
  | dispatchBid {bid bidCh} (waiting : s.bidDispatcher = .waiting)
      (taken : s.bidCh.take = some (bid, bidCh)) (fresh : s.engine.bids bid.addr = none) :
      Step p s .dispatchBid
        { s with
          bidCh
          bidDispatcher := .calling bid
          engine := s.engine.setBid bid.addr (.entered bid.val) }
        (some (.engine (.bidInvoked bid.addr bid.val)))
  | parkBid {bidCh} (waiting : s.bidDispatcher = .waiting) (parked : s.bidCh.park = some bidCh) :
      Step p s .parkBid { s with bidCh } none
  | returnBid {bid b err} (calling : s.bidDispatcher = .calling bid)
      (call : s.engine.bids bid.addr = some (.finished b err)) :
      Step p s .returnBid
        { s with bidDispatcher := .waiting, engine := s.engine.setBid bid.addr .returned }
        (some (.engine (.bidReturned bid.addr err)))
  | engine {a engine o} (inside : internal a = true)
      (step : Auction.next s.engine a = some (engine, o)) :
      Step p s (.engine a) { s with engine } (o.map .engine)
  | receive {v ch} (waiting : s.executor = .waiting)
      (taken : s.engine.engine.voucherCh.take = some (v, ch)) :
      Step p s .receive { s with executor := .executing v, engine := s.engine.setChan ch }
        (some (.engine (.received v)))
  | parkExecutor {ch} (waiting : s.executor = .waiting)
      (parked : s.engine.engine.voucherCh.park = some ch) :
      Step p s .parkExecutor { s with engine := s.engine.setChan ch } none
  | settle {out v report} (executing : s.executor = .executing v)
      (run : TxManager.execute p.setup out s.nonceQueue v = report) (ok : report.err = none) :
      Step p s (.execute out) { s with nonceQueue := report.queue, executor := .waiting }
        (some (.executed v report.attempt none))
  | fail {out v report err} (executing : s.executor = .executing v)
      (run : TxManager.execute p.setup out s.nonceQueue v = report) (bad : report.err = some err) :
      Step p s (.execute out) { s with nonceQueue := report.queue, executor := .failed v }
        (some (.executed v report.attempt (some err)))
  | notify {v txFailedCh} (failed : s.executor = .failed v)
      (sent : s.txFailedCh.trySend v.intentID = some txFailedCh) :
      Step p s .notify { s with txFailedCh, executor := .waiting } (some (.notified v))
  | notifyDropped {v} (failed : s.executor = .failed v)
      (full : s.txFailedCh.trySend v.intentID = none) :
      Step p s .notify { s with executor := .waiting } (some (.notifyDropped v))
  | drain {id txFailedCh} (taken : s.txFailedCh.take = some (id, txFailedCh)) :
      Step p s .drain { s with txFailedCh } (some (.drained id))
  | parkDrain {txFailedCh} (parked : s.txFailedCh.park = some txFailedCh) :
      Step p s .parkDrain { s with txFailedCh } none

/-- **Every step is one of `Step`'s.** -/
theorem next_cases {p : Platform} {s s' : State} {a : Action} {o : Option Event}
    (h : next p s a = some (s', o)) : Step p s a s' o := by
  cases a with
  | post r req now =>
    simp only [next] at h
    split at h
    · cases h
    · split at h <;> cases h
      · exact .refuse ‹_› ‹_›
      · exact .accept ‹_› ‹_›
  | push r =>
    simp only [next] at h
    split at h
    · split at h <;> cases h
      · exact .push ‹_› ‹_›
      · exact .atCapacity ‹_› ‹_›
    · cases h
  | reply r =>
    simp only [next] at h
    split at h
    · split at h <;> cases h
      exact .replyAccepted ‹_› ‹_›
    · cases h
      exact .replyError ‹_›
    · cases h
  | hub a =>
    simp only [next] at h
    split at h <;> cases h
    exact .hub ‹_›
  | message k msg =>
    simp only [next] at h
    split at h
    · split at h
      · cases h
        exact .ignore ‹_› ‹_›
      · split at h <;> cases h
        · exact .readBid ‹_› ‹_› ‹_›
        · exact .dropBid ‹_› ‹_› ‹_›
    · cases h
  | dispatchIntent =>
    simp only [next] at h
    split at h
    · cases h
    · split at h
      · cases h
      · simp only [onEngine] at h
        split at h <;> cases h
        rename_i hstep
        cases Auction.next_cases hstep with
        | invokeStart fresh => exact .dispatchIntent ‹_› ‹_› fresh
  | parkIntent =>
    simp only [next] at h
    split at h
    · cases h
    · obtain ⟨ch, hpark, heq⟩ := Option.map_eq_some_iff.mp h
      cases heq
      exact .parkIntent ‹_› hpark
  | returnIntent =>
    simp only [next] at h
    split at h
    · cases h
    · simp only [onEngine] at h
      split at h <;> cases h
      rename_i hstep
      cases Auction.next_cases hstep with
      | returnStart call => exact .returnIntent ‹_› call
  | dispatchBid =>
    simp only [next] at h
    split at h
    · cases h
    · split at h
      · cases h
      · simp only [onEngine] at h
        split at h <;> cases h
        rename_i hstep
        cases Auction.next_cases hstep with
        | invokeBid fresh => exact .dispatchBid ‹_› ‹_› fresh
  | parkBid =>
    simp only [next] at h
    split at h
    · cases h
    · obtain ⟨ch, hpark, heq⟩ := Option.map_eq_some_iff.mp h
      cases heq
      exact .parkBid ‹_› hpark
  | returnBid =>
    simp only [next] at h
    split at h
    · cases h
    · simp only [onEngine] at h
      split at h <;> cases h
      rename_i hstep
      cases Auction.next_cases hstep with
      | returnBid call => exact .returnBid ‹_› call
  | engine a =>
    simp only [next] at h
    split at h
    · simp only [onEngine] at h
      split at h <;> cases h
      exact .engine ‹_› ‹_›
    · cases h
  | receive =>
    simp only [next] at h
    split at h
    · split at h
      · cases h
      · rename_i v ch htake
        simp only [onEngine] at h
        split at h <;> cases h
        rename_i hstep
        cases Auction.next_cases hstep with
        | receive taken =>
          rw [htake] at taken
          cases taken
          exact .receive ‹_› htake
    · cases h
  | parkExecutor =>
    simp only [next] at h
    split at h
    · simp only [onEngine] at h
      split at h <;> cases h
      rename_i hstep
      cases Auction.next_cases hstep with
      | park parked => exact .parkExecutor ‹_› parked
    · cases h
  | execute out =>
    simp only [next] at h
    split at h
    · rename_i v hexec
      cases h
      cases herr : (TxManager.execute p.setup out s.nonceQueue v).err with
      | none => exact .settle hexec rfl herr
      | some err => exact .fail hexec rfl herr
    · cases h
  | notify =>
    simp only [next] at h
    split at h
    · split at h <;> cases h
      · exact .notify ‹_› ‹_›
      · exact .notifyDropped ‹_› ‹_›
    · cases h
  | drain =>
    simp only [next] at h
    split at h <;> cases h
    exact .drain ‹_›
  | parkDrain =>
    simp only [next] at h
    obtain ⟨ch, hpark, heq⟩ := Option.map_eq_some_iff.mp h
    cases heq
    exact .parkDrain hpark

/-! ## The engine within the relayer -/

/-- The event of the engine within an event of the relayer. -/
def Event.engine? : Event → Option Auction.Event
  | .engine e => some e
  | _ => none

/-- What a trace of the relayer shows of the engine. -/
def engineTrace (tr : List Event) : List Auction.Event := tr.filterMap Event.engine?

theorem engineTrace_append (tr tr' : List Event) :
    engineTrace (tr ++ tr') = engineTrace tr ++ engineTrace tr' :=
  List.filterMap_append

theorem mem_engineTrace {tr : List Event} {e : Auction.Event} :
    e ∈ engineTrace tr ↔ .engine e ∈ tr := by
  unfold engineTrace
  rw [List.mem_filterMap]
  constructor
  · rintro ⟨e', hmem, he⟩
    cases e' <;> cases he
    exact hmem
  · intro hmem
    exact ⟨_, hmem, rfl⟩

/-- A step of the relayer is one step of the engine, or none. -/
theorem Step.onEngine {p : Platform} {s s' : State} {a : Action} {o : Option Event}
    (h : Step p s a s' o) :
    (s'.engine = s.engine ∧ engineTrace o.toList = []) ∨
      ∃ b, (a = .engine b ∨ internal b = false) ∧
        Auction.next s.engine b = some (s'.engine, (o.bind Event.engine?)) ∧
        engineTrace o.toList = (o.bind Event.engine?).toList := by
  cases h with
  | refuse _ _ | accept _ _ | push _ _ | atCapacity _ _ | replyAccepted _ _ | replyError _
  | ignore _ _ | readBid _ _ _ | dropBid _ _ _ | parkIntent _ _ | parkBid _ _ | settle _ _ _
  | fail _ _ _ | notify _ _ | notifyDropped _ _ | drain _ | parkDrain _ => exact .inl ⟨rfl, rfl⟩
  | @hub _ _ o _ => exact .inl ⟨rfl, by cases o <;> rfl⟩
  | @dispatchIntent intent _ _ _ fresh =>
    refine .inr ⟨.invokeStart intent.addr intent, .inr rfl, ?_, rfl⟩
    simp only [Auction.next, fresh]
    rfl
  | @returnIntent intent _ _ _ call =>
    refine .inr ⟨.returnStart intent.addr, .inr rfl, ?_, rfl⟩
    simp only [Auction.next, call]
    rfl
  | @dispatchBid bid _ _ _ fresh =>
    refine .inr ⟨.invokeBid bid.addr bid.val, .inr rfl, ?_, rfl⟩
    simp only [Auction.next, fresh]
    rfl
  | @returnBid bid _ _ _ call =>
    refine .inr ⟨.returnBid bid.addr, .inr rfl, ?_, rfl⟩
    simp only [Auction.next, call]
    rfl
  | @engine a _ o _ step =>
    refine .inr ⟨a, .inl rfl, ?_, ?_⟩
    · rw [step]
      cases o <;> rfl
    · cases o <;> rfl
  | receive _ taken =>
    refine .inr ⟨.receive, .inr rfl, ?_, rfl⟩
    simp only [Auction.next, taken]
    rfl
  | parkExecutor _ parked =>
    refine .inr ⟨.park, .inr rfl, ?_, rfl⟩
    simp only [Auction.next, parked]
    rfl

/-- **A run of the relayer contains a run of the engine**, under any guard that concerns the
engine's own steps only. -/
theorem engine_pathOn {p : Platform} {buf : Buffers} {q : NonceQueue} {tr : List Event} {s : State}
    {P : State → Action → Prop} {Q : Auction.State → Auction.Action → Prop}
    (h : (system p).PathOn P (.init buf q) tr s) (own : ∀ s a, P s (.engine a) → Q s.engine a)
    (others : ∀ e a, internal a = false → Q e a) :
    Auction.system.PathOn Q (.init buf.voucherBuf) (engineTrace tr) s.engine := by
  induction h with
  | nil => exact .nil
  | @snoc tr s s' a o hpath guard step ih =>
    rw [engineTrace_append]
    rcases (next_cases step).onEngine with ⟨hsame, hnone⟩ | ⟨b, hb, hnext, htrace⟩
    · rw [hsame, hnone, List.append_nil]
      exact ih
    · rw [htrace]
      refine .snoc ih ?_ hnext
      rcases hb with rfl | hb
      · exact own s b guard
      · exact others s.engine b hb

theorem engine_path {p : Platform} {buf : Buffers} {q : NonceQueue} {tr : List Event} {s : State}
    (h : (system p).Path (.init buf q) tr s) :
    Auction.system.Path (.init buf.voucherBuf) (engineTrace tr) s.engine :=
  engine_pathOn h (fun _ _ _ => trivial) fun _ _ _ => trivial

/-! ## A small relayer to run -/

namespace Sample

/-- A relayer that reads JSON. -/
def platform : Platform where
  intake := readers.toIntake
  setup := TxManager.Sample.setup
  sendBufSize := 1

def buffers : Buffers := ⟨1, 1, 1, 1⟩

/-- A request for `id` with a floor, and without addresses. -/
def request (floor id : Bytes) : IntentRequest where
  id
  sender := []
  tokenIn := []
  tokenOut := []
  amountIn := ascii "1"
  minAmountOut := floor
  deadline := 1
  nonce := 0
  signature := []

/-- The body of a request for `id` with a floor of 5. -/
def body (id : Bytes) : Bytes := intentRequestJson.print (request (ascii "5") id)

/-- The intent that handler `h` builds for `id`. -/
def intent (h : HandlerId) (id : Bytes) : Ref Intent where
  addr := h
  val :=
    { id := ⟨id⟩, sender := Ingress.Sample.hexToAddress [], tokenIn := Ingress.Sample.hexToAddress [],
      tokenOut := Ingress.Sample.hexToAddress [], amountIn := 1, minAmountOut := 5, deadline := 1,
      nonce := 0, signature := [] }

/-- The message of a solver that writes one hex digit for its address, and one decimal digit for the
amount out. -/
def message (solver amountOut : UInt8) (id : Bytes) : Bytes :=
  bidRequestJson.print
    { intentID := id, solver := [solver], amountOut := [amountOut], gasPrice := ascii "1" }

/-- The bid of a solver's message. -/
def bid (solver : UInt8) (amountOut : Int) (id : Bytes) : Bid :=
  ⟨⟨id⟩, Ingress.Sample.hexToAddress [solver], some amountOut, some 1⟩

/-- Solver 0 connects. -/
def connect : List Action := [.hub (.serve 0)]

/-- Handler `h` is sent a request, and broadcasts its intent to solver 0. -/
def post (h : HandlerId) (body : Bytes) : List Action :=
  [.post h ⟨ascii "POST", body⟩ 0, .push h, .hub (.rlock h), .hub (.offer h 0), .hub (.write 0),
    .hub (.runlock h), .hub (.finish h), .reply h]

/-- Handler `h` is asked to auction `id`. -/
def submit (h : HandlerId) (id : Bytes) : List Action := post h (body id)

def submitted (h : HandlerId) (id : Bytes) : List Event :=
  [.enqueued h (intent h id), .hub (.offered h 0), .hub (.delivered 0 (intent h id)),
    .replied h (.accepted id)]

/-- The dispatcher starts the auction of handler `h`. -/
def start (h : HandlerId) : List Action :=
  [.dispatchIntent, .engine (.register h), .engine (.launch h), .returnIntent]

def started (h : HandlerId) (id : Bytes) : List Event :=
  [.engine (.startInvoked h (intent h id)), .engine (.registered h (intent h id)),
    .engine (.startReturned h none)]

/-- Solver 0 sends the bid numbered `c`, and it is appended. -/
def offer (c : CallId) (msg : Bytes) : List Action :=
  [.message 0 msg, .dispatchBid, .engine (.lookupBid c), .engine (.appendBid c), .returnBid]

def offered (h : HandlerId) (c : CallId) (bid : Bid) : List Event :=
  [.bidRead 0 ⟨c, bid⟩, .engine (.bidInvoked c bid), .engine (.appended c bid h),
    .engine (.bidReturned c none)]

/-- The auction of handler `h` ends, and its voucher is settled. -/
def finish (h : HandlerId) : List Action :=
  [.engine (.fireTimer h), .engine (.lookupWinner h), .engine (.selectWinner h),
    .engine (.publish h), .engine (.cleanup h), .receive,
    .execute (TxManager.Sample.outside (.ok ()) (.ok 0))]

/-- The contract call that settles a bid. -/
def call (nonce : UInt64) (bid : Bid) : ClaimCall where
  sender := platform.setup.vaultAddr
  nonce
  gasTipCap := 1
  intentId := intentIDBytes bid.intentID
  solver := bid.solver
  relayerSignature := normalizeV TxManager.Sample.rawSignature

/-- The voucher of handler `h`'s intent for its one bid. -/
def voucher (h : HandlerId) (bid : Bid) : Voucher := voucherFor (intent h bid.intentID.bytes) bid

/-- Its successful execution. -/
def executed (h : HandlerId) (nonce : UInt64) (bid : Bid) : Event :=
  .executed (voucher h bid) (some ⟨call nonce bid, .taken⟩) none

/-- An auction that has chosen among some bids, and the settlement of its choice. -/
def chosen (h : HandlerId) (nonce : UInt64) (bids : List Bid) (bid : Bid) : List Event :=
  [.engine (.selected h h bids (some bid)), .engine (.emitted h (voucher h bid)),
    .engine (.closed h), .engine (.received (voucher h bid)), executed h nonce bid]

def finished (h : HandlerId) (nonce : UInt64) (bid : Bid) : List Event := chosen h nonce [bid] bid

/-- One request from its submission to its settlement, with the bid numbered `h` as its only one. -/
def round (h : HandlerId) (id : Bytes) (solver amountOut : UInt8) : List Action :=
  submit h id ++ start h ++ offer h (message solver amountOut id) ++ finish h

def rounded (h : HandlerId) (nonce : UInt64) (bid : Bid) : List Event :=
  submitted h bid.intentID.bytes ++ started h bid.intentID.bytes ++ offered h h bid ++
    finished h nonce bid

/-- Two requests. The first one gets three bids, of 4, 6 and 6, and the second one a bid of 7. -/
def contest : List Action :=
  connect ++ submit 0 [1] ++ start 0 ++ offer 0 (message 51 52 [1]) ++ offer 1 (message 52 54 [1]) ++
    offer 2 (message 53 54 [1]) ++ finish 0 ++ submit 1 [2] ++ start 1 ++
    offer 3 (message 54 55 [2]) ++ finish 1

/-- The bids of the first one, in the order they arrived. -/
def contestedBids : List Bid := [bid 51 4 [1], bid 52 6 [1], bid 53 6 [1]]

def contested : List Event :=
  .hub (.joined 0) :: (submitted 0 [1] ++ started 0 [1] ++ offered 0 0 (bid 51 4 [1]) ++
    offered 0 1 (bid 52 6 [1]) ++ offered 0 2 (bid 53 6 [1]) ++
    chosen 0 7 contestedBids (bid 52 6 [1]) ++ submitted 1 [2] ++ started 1 [2] ++
    offered 1 3 (bid 54 7 [2]) ++ finished 1 8 (bid 54 7 [2]))

end Sample

end VynxRelayer.Relayer
