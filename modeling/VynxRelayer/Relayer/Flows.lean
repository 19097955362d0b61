import VynxRelayer.Relayer.Pipeline

/-!
# What flows through the relayer

Every goroutine of the pipeline hands on what it is given, and each stage obeys the law of
`Lib.Fifo`: what went in is what came out, followed by what is inside, in order.

* `intents`: from the handlers' pushes to the dispatcher's calls, through `intentCh`;
* `vouchers`: from the auctions' sends to the executor's receives, through `voucherCh`;
* `executions`: from the receives to the executions, inside `Executor.Run`;
* `failures`: from the failed executions to their notifications, sent or dropped;
* `notifications`: from the notifications sent to the drainer, through `txFailedCh`.
-/

namespace VynxRelayer.Relayer

open Lib Auction Ingress TxManager

variable {p : Platform} {buf : Buffers} {q : NonceQueue} {tr : List Event} {s s' : State}
  {a : Action}

/-! ## The values in an event and in a state -/

namespace Event

def enqueued? : Event → Option (Ref Intent)
  | .enqueued _ intent => some intent
  | _ => none

def started? (e : Event) : Option (Ref Intent) := e.engine?.bind Auction.Event.started?

def emitted? (e : Event) : Option Voucher := e.engine?.bind Auction.Event.emitted?

def received? (e : Event) : Option Voucher := e.engine?.bind Auction.Event.received?

def executed? : Event → Option Voucher
  | .executed v _ _ => some v
  | _ => none

def settled? : Event → Option Voucher
  | .executed v _ none => some v
  | _ => none

def failed? : Event → Option Voucher
  | .executed v _ (some _) => some v
  | _ => none

def notified? : Event → Option Voucher
  | .notified v => some v
  | _ => none

def notifyDropped? : Event → Option Voucher
  | .notifyDropped v => some v
  | _ => none

/-- The failure an event answers for: by a notification, or by dropping it. -/
def answered? : Event → Option Voucher
  | .notified v => some v
  | .notifyDropped v => some v
  | _ => none

def notifiedID? (e : Event) : Option IntentID := e.notified?.map Voucher.intentID

def drained? : Event → Option IntentID
  | .drained id => some id
  | _ => none

end Event

/-- The voucher in execution. -/
def Executor.current : Executor → List Voucher
  | .executing v => [v]
  | _ => []

/-- The voucher whose failure is to be notified. -/
def Executor.failing : Executor → List Voucher
  | .failed v => [v]
  | _ => []

/-! ## The engine's share -/

/-- An event of the engine is a step of the engine. -/
theorem next_engine {e : Auction.Event} (h : next p s a = some (s', some (.engine e))) :
    ∃ b e', Auction.next s.engine b = some (e', some e) := by
  rcases (next_cases h).onEngine with ⟨_, hnone⟩ | ⟨b, _, hnext, _⟩
  · cases hnone
  · exact ⟨b, _, hnext⟩

/-- The engine's own goroutines neither call `StartAuction` nor receive vouchers. -/
theorem internal_quiet {b : Auction.Action} {e e' : Auction.State} {o : Option Auction.Event}
    (inside : internal b = true) (step : Auction.next e b = some (e', o)) {ev : Event}
    (shown : o.map Event.engine = some ev) : ev.started? = none ∧ ev.received? = none := by
  obtain ⟨f, rfl, rfl⟩ := Option.map_eq_some_iff.mp shown
  cases Auction.next_cases step with
  | invokeStart _ | returnStart _ | invokeBid _ | returnBid _ | receive _ => cases inside
  | refuse _ _ | register _ _ | miss _ _ _ | append _ | select _ _ _ | noBids _ | emit _ _
  | drop _ _ | cleanup _ => exact ⟨rfl, rfl⟩

/-- What holds of every event of the hub, or of the engine, holds of the one that a step of it
shows. -/
theorem shown_map {β : Type} {f : β → Event} {o : Option β} {P : Event → Prop}
    (all : ∀ b, P (f b)) : ∀ e, o.map f = some e → P e := by
  intro e he
  obtain ⟨b, _, rfl⟩ := Option.map_eq_some_iff.mp he
  exact all b

theorem filterMap_engine {α : Type} (f : Auction.Event → Option α) (tr : List Event) :
    tr.filterMap (fun e => e.engine?.bind f) = (engineTrace tr).filterMap f := by
  unfold engineTrace
  rw [List.filterMap_filterMap]

/-! ## The flows -/

theorem intents (h : (system p).Path (.init buf q) tr s) :
    Fifo Event.enqueued? Event.started? s.intentCh.pending tr := by
  induction h with
  | nil => exact .nil
  | snoc _ _ step ih =>
    cases next_cases step with
    | push _ sent => exact ih.send rfl rfl (Chan.pending_trySend sent).1
    | dispatchIntent _ taken _ => exact ih.take rfl rfl (Chan.pending_take taken).1
    | parkIntent _ parked => exact ih.silent (Chan.pending_park parked).1 (by intro e he; cases he)
    | engine inside move =>
      refine ih.silent rfl ?_
      intro e he
      obtain ⟨f, _, rfl⟩ := Option.map_eq_some_iff.mp he
      exact ⟨rfl, (internal_quiet inside move he).1⟩
    | hub _ => exact ih.silent rfl (shown_map fun _ => ⟨rfl, rfl⟩)
    | refuse _ _ | accept _ _ | atCapacity _ _ | replyAccepted _ _ | replyError _ | ignore _ _
    | readBid _ _ _ | dropBid _ _ _ | returnIntent _ _ | dispatchBid _ _ _ | parkBid _ _
    | returnBid _ _ | receive _ _ | parkExecutor _ _ | settle _ _ _ | fail _ _ _ | notify _ _
    | notifyDropped _ _ | drain _ | parkDrain _ =>
      exact ih.silent rfl (by intro e he; cases he <;> exact ⟨rfl, rfl⟩)

theorem vouchers (h : (system p).Path (.init buf q) tr s) :
    Fifo Event.emitted? Event.received? s.engine.engine.voucherCh.pending tr := by
  have hflow := (Auction.vouchers (engine_path h)).1
  unfold Fifo at hflow ⊢
  rw [← filterMap_engine, ← filterMap_engine] at hflow
  exact hflow

theorem executions (h : (system p).Path (.init buf q) tr s) :
    Fifo Event.received? Event.executed? s.executor.current tr := by
  induction h with
  | nil => exact .nil
  | snoc _ _ step ih =>
    cases next_cases step with
    | receive waiting _ =>
      rw [waiting] at ih
      exact ih.send rfl rfl rfl
    | settle executing _ _ | fail executing _ _ =>
      rw [executing] at ih
      exact ih.take rfl rfl rfl
    | notify failed _ | notifyDropped failed _ =>
      rw [failed] at ih
      exact ih.silent rfl (by intro e he; cases he; exact ⟨rfl, rfl⟩)
    | engine inside move =>
      refine ih.silent rfl ?_
      intro e he
      obtain ⟨f, _, rfl⟩ := Option.map_eq_some_iff.mp he
      exact ⟨(internal_quiet inside move he).2, rfl⟩
    | hub _ => exact ih.silent rfl (shown_map fun _ => ⟨rfl, rfl⟩)
    | refuse _ _ | accept _ _ | push _ _ | atCapacity _ _ | replyAccepted _ _ | replyError _
    | ignore _ _ | readBid _ _ _ | dropBid _ _ _ | dispatchIntent _ _ _ | parkIntent _ _
    | returnIntent _ _ | dispatchBid _ _ _ | parkBid _ _ | returnBid _ _ | parkExecutor _ _
    | drain _ | parkDrain _ =>
      exact ih.silent rfl (by intro e he; cases he <;> exact ⟨rfl, rfl⟩)

/-- What is executed was emitted. -/
theorem executed_emitted {v : Voucher} {attempt : Option Attempt} {err : Option ExecuteError}
    (h : (system p).Path (.init buf q) tr s) (executed : .executed v attempt err ∈ tr) :
    ∃ g, .emitted g v ∈ engineTrace tr := by
  obtain ⟨e, he, hreceived⟩ := (executions h).mem_sent executed rfl
  obtain ⟨e', he', hemitted⟩ := (vouchers h).mem_sent he hreceived
  obtain ⟨f, hf, hv⟩ := Option.bind_eq_some_iff.mp hemitted
  cases e' <;> cases hf
  cases f <;> cases hv
  exact ⟨_, mem_engineTrace.mpr he'⟩

theorem failures (h : (system p).Path (.init buf q) tr s) :
    Fifo Event.failed? Event.answered? s.executor.failing tr := by
  induction h with
  | nil => exact .nil
  | snoc _ _ step ih =>
    cases next_cases step with
    | receive waiting _ =>
      rw [waiting] at ih
      exact ih.silent rfl (by intro e he; cases he; exact ⟨rfl, rfl⟩)
    | settle executing _ _ =>
      rw [executing] at ih
      exact ih.silent rfl (by intro e he; cases he; exact ⟨rfl, rfl⟩)
    | fail executing _ _ =>
      rw [executing] at ih
      exact ih.send rfl rfl rfl
    | notify failed _ | notifyDropped failed _ =>
      rw [failed] at ih
      exact ih.take rfl rfl rfl
    | engine _ _ | hub _ => exact ih.silent rfl (shown_map fun _ => ⟨rfl, rfl⟩)
    | refuse _ _ | accept _ _ | push _ _ | atCapacity _ _ | replyAccepted _ _ | replyError _
    | ignore _ _ | readBid _ _ _ | dropBid _ _ _ | dispatchIntent _ _ _ | parkIntent _ _
    | returnIntent _ _ | dispatchBid _ _ _ | parkBid _ _ | returnBid _ _ | parkExecutor _ _
    | drain _ | parkDrain _ =>
      exact ih.silent rfl (by intro e he; cases he <;> exact ⟨rfl, rfl⟩)

theorem notifications (h : (system p).Path (.init buf q) tr s) :
    Fifo Event.notifiedID? Event.drained? s.txFailedCh.pending tr := by
  induction h with
  | nil => exact .nil
  | snoc _ _ step ih =>
    cases next_cases step with
    | notify _ sent => exact ih.send rfl rfl (Chan.pending_trySend sent).1
    | drain taken => exact ih.take rfl rfl (Chan.pending_take taken).1
    | parkDrain parked => exact ih.silent (Chan.pending_park parked).1 (by intro e he; cases he)
    | engine _ _ | hub _ => exact ih.silent rfl (shown_map fun _ => ⟨rfl, rfl⟩)
    | refuse _ _ | accept _ _ | push _ _ | atCapacity _ _ | replyAccepted _ _ | replyError _
    | ignore _ _ | readBid _ _ _ | dropBid _ _ _ | dispatchIntent _ _ _ | parkIntent _ _
    | returnIntent _ _ | dispatchBid _ _ _ | parkBid _ _ | returnBid _ _ | receive _ _
    | parkExecutor _ _ | settle _ _ _ | fail _ _ _ | notifyDropped _ _ =>
      exact ih.silent rfl (by intro e he; cases he <;> exact ⟨rfl, rfl⟩)

end VynxRelayer.Relayer
