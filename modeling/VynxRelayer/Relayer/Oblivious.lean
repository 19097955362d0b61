import Mathlib.Data.List.Forall2
import VynxRelayer.Auction.Outline
import VynxRelayer.Ingress.Outline
import VynxRelayer.Relayer.Pipeline

/-!
# What a request's terms are good for

A request names a sender, two tokens, an amount, a floor, a deadline, a nonce and a signature.
`SubmitIntent` checks that they are well formed, the hub passes them on to the solvers, and that is
all: nothing else in the relayer looks at them. Two schedules that differ in these terms of their
requests, and agree in the IDs, are both possible or both not, and they show the same (`outline`):
the same responses, the same auctions with the same winners, the same contract calls with the same
nonces and the same failures (`terms_inert`).

In particular no signature is ever compared with a sender, and no bid is refused for a floor.
-/

namespace VynxRelayer.Relayer

open Lib Lib.Json Auction Ingress TxManager

/-! ## Outlines -/

def Handler.outline : Handler → Handler
  | .ready intent => .ready (outlined intent)
  | .broadcasting intent => .broadcasting (outlined intent)
  | .failing response => .failing response
  | .done => .done

def Dispatcher.map {α β : Type} (f : α → β) : Dispatcher α → Dispatcher β
  | .waiting => .waiting
  | .calling item => .calling (f item)

def Executor.outline : Executor → Executor
  | .waiting => .waiting
  | .executing v => .executing v.outline
  | .failed v => .failed v.outline

/-- A state with every intent in it outlined. -/
def State.outline (s : State) : State :=
  { s with
    handlers := fun h => (s.handlers h).map Handler.outline
    hub := s.hub.outline
    intentCh := s.intentCh.map outlined
    intentDispatcher := s.intentDispatcher.map outlined
    engine := s.engine.outline
    executor := s.executor.outline }

/-- An event with every intent in it outlined. -/
def Event.outline : Event → Event
  | .enqueued h intent => .enqueued h (outlined intent)
  | .hub e => .hub e.outline
  | .engine e => .engine e.outline
  | .executed v attempt err => .executed v.outline attempt err
  | .notified v => .notified v.outline
  | .notifyDropped v => .notifyDropped v.outline
  | e => e

/-- The contract call of an execution. -/
def Event.attempt? : Event → Option Attempt
  | .executed _ attempt _ => attempt
  | _ => none

/-- The response to a request. -/
def Event.response? : Event → Option (HandlerId × Response)
  | .replied h response => some (h, response)
  | _ => none

theorem Event.attempt?_outline (e : Event) : e.outline.attempt? = e.attempt? := by
  cases e <;> rfl

theorem Event.response?_outline (e : Event) : e.outline.response? = e.response? := by
  cases e <;> rfl

/-- What an event shows besides its intents is in its outline. -/
theorem filterMap_outline {α : Type} {f : Event → Option α} (blind : ∀ e, f e.outline = f e)
    {tr tr' : List Event} (same : tr'.map Event.outline = tr.map Event.outline) :
    tr'.filterMap f = tr.filterMap f := by
  have hmap : ∀ tr : List Event, (tr.map Event.outline).filterMap f = tr.filterMap f := by
    intro tr
    rw [List.filterMap_map]
    exact List.filterMap_congr fun e _ => blind e
  rw [← hmap tr', same, hmap tr]

/-! ## Steps -/

theorem State.setHandler_outline (s : State) (h : HandlerId) (handler : Handler) :
    (s.setHandler h handler).outline = s.outline.setHandler h handler.outline := by
  simp only [outline, setHandler, map_update, Option.map_some]

theorem outline_of_internal {a : Auction.Action} (inside : internal a = true) : a.outline = a := by
  cases a <;> first | rfl | cases inside

theorem onEngine_outline (s : State) (a : Auction.Action) :
    onEngine s.outline a.outline =
      (onEngine s a).map (Prod.map State.outline (Option.map Event.outline)) := by
  unfold onEngine
  rw [show s.outline.engine = s.engine.outline from rfl, Auction.next_outline]
  cases Auction.next s.engine a with
  | none => rfl
  | some q =>
    obtain ⟨engine, o⟩ := q
    cases o <;> rfl

/-- **Past the decoding of a request, a step depends on the IDs of the intents only.** -/
theorem next_outline (p : Platform) (s : State) {a : Action} (decoded : ∀ h r now, a ≠ .post h r now) :
    next p s.outline a = (next p s a).map (Prod.map State.outline (Option.map Event.outline)) := by
  have hhandlers : ∀ h, s.outline.handlers h = (s.handlers h).map Handler.outline := fun _ => rfl
  have hhub : s.outline.hub = s.hub.outline := rfl
  have hintents : s.outline.intentCh = s.intentCh.map outlined := rfl
  have hdispatcher : s.outline.intentDispatcher = s.intentDispatcher.map outlined := rfl
  have hexecutor : s.outline.executor = s.executor.outline := rfl
  cases a with
  | post h r now => exact absurd rfl (decoded h r now)
  | push h =>
    simp only [next, hhandlers]
    cases s.handlers h with
    | none => rfl
    | some handler =>
      cases handler with
      | broadcasting _ | failing _ | done => rfl
      | ready intent =>
        simp only [Option.map_some, Handler.outline, hintents, Chan.trySend_map]
        cases s.intentCh.trySend intent with
        | none =>
          simp only [Option.map_none, Option.map_some, Prod.map, State.setHandler_outline]
          rfl
        | some ch =>
          simp only [Option.map_some, Prod.map, hhub, ← Hub.call_outline]
          simp only [State.outline, State.setHandler, map_update, Option.map_some]
          rfl
  | reply h =>
    simp only [next, hhandlers]
    cases s.handlers h with
    | none => rfl
    | some handler =>
      cases handler with
      | ready _ | done => rfl
      | failing response =>
        simp only [Option.map_some, Prod.map, State.setHandler_outline]
        rfl
      | broadcasting intent =>
        simp only [Option.map_some, Handler.outline,
          show s.outline.hub.broadcasts h = (s.hub.broadcasts h).map Broadcast.outline from rfl]
        cases s.hub.broadcasts h with
        | none => rfl
        | some broadcast =>
          cases broadcast with
          | entered _ | sending _ _ _ | dropping _ => rfl
          | finished =>
            simp only [Option.map_some, Prod.map, State.setHandler_outline]
            rfl
  | hub a =>
    simp only [next, hhub, Hub.next_outline]
    cases s.hub.next p.sendBufSize a with
    | none => rfl
    | some q =>
      obtain ⟨hub, o⟩ := q
      cases o <;> rfl
  | message k msg =>
    have hreader : (s.outline.hub.sessions k).map Session.reader =
        (s.hub.sessions k).map Session.reader := by
      rw [show s.outline.hub.sessions k = (s.hub.sessions k).map Session.outline from rfl,
        Option.map_map]
      rfl
    simp only [next, hreader, show s.outline.bidCh = s.bidCh from rfl,
      show s.outline.bidCount = s.bidCount from rfl]
    split
    · split
      · rfl
      · split <;> rfl
    · rfl
  | dispatchIntent =>
    simp only [next, hdispatcher]
    cases s.intentDispatcher with
    | calling _ => rfl
    | waiting =>
      simp only [Dispatcher.map, hintents, Chan.take_map]
      cases s.intentCh.take with
      | none => rfl
      | some taken =>
        obtain ⟨intent, ch⟩ := taken
        exact onEngine_outline
          { s with intentCh := ch, intentDispatcher := .calling intent } (.invokeStart intent.addr intent)
  | parkIntent =>
    simp only [next, hdispatcher]
    cases s.intentDispatcher with
    | calling _ => rfl
    | waiting =>
      simp only [Dispatcher.map, hintents, Chan.park_map]
      cases s.intentCh.park <;> rfl
  | returnIntent =>
    simp only [next, hdispatcher]
    cases s.intentDispatcher with
    | waiting => rfl
    | calling intent =>
      exact onEngine_outline { s with intentDispatcher := .waiting } (.returnStart intent.addr)
  | dispatchBid =>
    simp only [next, show s.outline.bidDispatcher = s.bidDispatcher from rfl,
      show s.outline.bidCh = s.bidCh from rfl]
    cases s.bidDispatcher with
    | calling _ => rfl
    | waiting =>
      cases s.bidCh.take with
      | none => rfl
      | some taken =>
        obtain ⟨bid, ch⟩ := taken
        exact onEngine_outline { s with bidCh := ch, bidDispatcher := .calling bid }
          (.invokeBid bid.addr bid.val)
  | parkBid =>
    simp only [next, show s.outline.bidDispatcher = s.bidDispatcher from rfl,
      show s.outline.bidCh = s.bidCh from rfl]
    cases s.bidDispatcher with
    | calling _ => rfl
    | waiting => cases s.bidCh.park <;> rfl
  | returnBid =>
    simp only [next, show s.outline.bidDispatcher = s.bidDispatcher from rfl]
    cases s.bidDispatcher with
    | waiting => rfl
    | calling bid => exact onEngine_outline { s with bidDispatcher := .waiting } (.returnBid bid.addr)
  | engine a =>
    simp only [next]
    split
    · rename_i inside
      have hstep := onEngine_outline s a
      rw [outline_of_internal inside] at hstep
      exact hstep
    · rfl
  | receive =>
    simp only [next, hexecutor]
    cases s.executor with
    | executing _ | failed _ => rfl
    | waiting =>
      simp only [Executor.outline,
        show s.outline.engine.engine.voucherCh = s.engine.engine.voucherCh.map Voucher.outline
          from rfl, Chan.take_map]
      cases s.engine.engine.voucherCh.take with
      | none => rfl
      | some taken =>
        obtain ⟨v, ch⟩ := taken
        exact onEngine_outline { s with executor := .executing v } .receive
  | parkExecutor =>
    simp only [next, hexecutor]
    cases s.executor with
    | executing _ | failed _ => rfl
    | waiting => exact onEngine_outline s .park
  | execute out =>
    simp only [next, hexecutor]
    cases s.executor with
    | waiting | failed _ => rfl
    | executing v =>
      have hreport : TxManager.execute p.setup out s.outline.nonceQueue v.outline =
          TxManager.execute p.setup out s.nonceQueue v := rfl
      simp only [Executor.outline, hreport]
      cases (TxManager.execute p.setup out s.nonceQueue v).err <;> rfl
  | notify =>
    simp only [next, hexecutor]
    cases s.executor with
    | waiting | executing _ => rfl
    | failed v =>
      simp only [Executor.outline, show s.outline.txFailedCh = s.txFailedCh from rfl,
        show v.outline.intentID = v.intentID from rfl]
      cases s.txFailedCh.trySend v.intentID <;> rfl
  | drain =>
    simp only [next, show s.outline.txFailedCh = s.txFailedCh from rfl]
    cases s.txFailedCh.take <;> rfl
  | parkDrain =>
    simp only [next, show s.outline.txFailedCh = s.txFailedCh from rfl]
    cases s.txFailedCh.park <;> rfl

/-! ## Runs -/

/-- The same action, or two requests of one handler that are accepted under one ID. -/
inductive Restated (p : Platform) : Action → Action → Prop
  | same (a : Action) : Restated p a a
  | terms {h r r' now now' intent intent'}
      (valid : submitIntent p.intake now h r = .ok intent)
      (valid' : submitIntent p.intake now' h r' = .ok intent')
      (id : intent.val.id = intent'.val.id) : Restated p (.post h r now) (.post h r' now')

/-- The handler a request starts, outlined. -/
def arrival (p : Platform) (h : HandlerId) (r : Request) (now : Int) : Handler :=
  match submitIntent p.intake now h r with
  | .error response => .failing response
  | .ok intent => .ready (outlined intent)

theorem viewed_post (p : Platform) (s : State) (h : HandlerId) (r : Request) (now : Int) :
    (system p).viewed State.outline Event.outline s (.post h r now) =
      if (s.handlers h).isSome then none
      else some (s.outline.setHandler h (arrival p h r now), none) := by
  simp only [System.viewed, system, next, arrival]
  cases s.handlers h with
  | some _ => rfl
  | none =>
    cases submitIntent p.intake now h r <;>
      simp only [Option.map_some, Prod.map, State.setHandler_outline] <;> rfl

theorem handlers_of_outline {s t : State} (same : s.outline = t.outline) (h : HandlerId) :
    (s.handlers h).isSome = (t.handlers h).isSome := by
  have hcell : (s.handlers h).map Handler.outline = (t.handlers h).map Handler.outline :=
    congrFun (congrArg State.handlers same) h
  simpa only [Option.isSome_map] using congrArg Option.isSome hcell

/-- Requests that start the same handler are the same in outline. -/
theorem viewed_post_congr {p : Platform} {s t : State} {h : HandlerId} {r r' : Request}
    {now now' : Int} (same : s.outline = t.outline)
    (starts : arrival p h r now = arrival p h r' now') :
    (system p).viewed State.outline Event.outline s (.post h r now) =
      (system p).viewed State.outline Event.outline t (.post h r' now') := by
  rw [viewed_post, viewed_post, handlers_of_outline same, starts, same]

/-- Accepted requests of one ID start the same handler. -/
theorem arrival_of_id {p : Platform} {h : HandlerId} {r r' : Request} {now now' : Int}
    {intent intent' : Ref Intent} (valid : submitIntent p.intake now h r = .ok intent)
    (valid' : submitIntent p.intake now' h r' = .ok intent')
    (id : intent.val.id = intent'.val.id) : arrival p h r now = arrival p h r' now' := by
  have hsame : outlined intent = outlined intent' :=
    outlined_eq_iff.mpr ⟨(submitIntent_ok valid).1.trans (submitIntent_ok valid').1.symm, id⟩
  simp only [arrival, valid, valid', hsame]

theorem viewed_restated {p : Platform} (s t : State) (a b : Action) (same : s.outline = t.outline)
    (restated : Restated p a b) :
    (system p).viewed State.outline Event.outline s a =
      (system p).viewed State.outline Event.outline t b := by
  cases restated with
  | terms valid valid' id => exact viewed_post_congr same (arrival_of_id valid valid' id)
  | same =>
    by_cases decoded : ∀ h r now, a ≠ .post h r now
    · have hs := next_outline p s decoded
      rw [same, next_outline p t decoded] at hs
      exact hs.symm
    · push Not at decoded
      obtain ⟨h, r, now, rfl⟩ := decoded
      exact viewed_post_congr same rfl

/-- **The terms of a request have no influence** on anything but the messages to the solvers. -/
theorem terms_inert {p : Platform} {buf : Buffers} {q : NonceQueue} {as bs : List Action} {s : State}
    {tr : List Event} (restated : List.Forall₂ (Restated p) as bs)
    (h : (system p).run (.init buf q) as = some (s, tr)) :
    ∃ t tr', (system p).run (.init buf q) bs = some (t, tr') ∧
      tr'.map Event.outline = tr.map Event.outline ∧
      tr'.filterMap Event.attempt? = tr.filterMap Event.attempt? ∧
      tr'.filterMap Event.response? = tr.filterMap Event.response? ∧
      t.nonceQueue = s.nonceQueue := by
  obtain ⟨t, tr', hrun, hend, htrace⟩ := System.run_alike viewed_restated rfl restated h
  have hqueue : t.outline.nonceQueue = s.outline.nonceQueue := congrArg State.nonceQueue hend
  exact ⟨t, tr', hrun, htrace, filterMap_outline Event.attempt?_outline htrace,
    filterMap_outline Event.response?_outline htrace, hqueue⟩

namespace Sample

/-- The body of a request with a floor and a signature of one byte. -/
def haggling (floor sig : UInt8) : Bytes :=
  intentRequestJson.print { request [floor] [1] with signature := [sig, sig] }

/-- Such a request is settled for a bid of 7. -/
def haggle (floor sig : UInt8) : List Action :=
  .post 0 ⟨ascii "POST", haggling floor sig⟩ 0 ::
    (connect ++ (submit 0 []).tail ++ start 0 ++ offer 0 (message 51 55 [1]) ++ finish 0)

/-- The ID under which such a request is accepted. -/
def haggledID (floor sig : UInt8) : Option IntentID :=
  (submitIntent platform.intake 0 0 ⟨ascii "POST", haggling floor sig⟩).toOption.map (·.val.id)

theorem exists_haggled {floor sig : UInt8} (h : haggledID floor sig = some ⟨[1]⟩) :
    ∃ intent, submitIntent platform.intake 0 0 ⟨ascii "POST", haggling floor sig⟩ = .ok intent ∧
      intent.val.id = ⟨[1]⟩ := by
  unfold haggledID at h
  cases hsubmit : submitIntent platform.intake 0 0 ⟨ascii "POST", haggling floor sig⟩ with
  | error response => rw [hsubmit] at h; cases h
  | ok intent =>
    rw [hsubmit] at h
    exact ⟨intent, rfl, Option.some.inj h⟩

end Sample

/-- A floor of 5 and one of 9, under different signatures. -/
theorem terms_inert_haggle :
    ∃ s tr t tr',
      (system Sample.platform).run (.init Sample.buffers ⟨0⟩) (Sample.haggle 53 97) = some (s, tr) ∧
      (system Sample.platform).run (.init Sample.buffers ⟨0⟩) (Sample.haggle 57 98) = some (t, tr') ∧
      tr.filterMap Event.attempt? = [⟨Sample.call 0 (Sample.bid 51 7 [1]), .taken⟩] ∧
      tr'.filterMap Event.attempt? = tr.filterMap Event.attempt? := by
  have hplayed : (((system Sample.platform).run (.init Sample.buffers ⟨0⟩)
      (Sample.haggle 53 97)).map Prod.snd).map (List.filterMap Event.attempt?) =
        some [⟨Sample.call 0 (Sample.bid 51 7 [1]), .taken⟩] := by decide +kernel
  obtain ⟨tr, htr, hcalls⟩ := Option.map_eq_some_iff.mp hplayed
  obtain ⟨⟨s, tr⟩, hrun, rfl⟩ := Option.map_eq_some_iff.mp htr
  have hrestated : List.Forall₂ (Restated Sample.platform) (Sample.haggle 53 97)
      (Sample.haggle 57 98) := by
    obtain ⟨intent, hvalid, hid⟩ := Sample.exists_haggled
      (show Sample.haggledID 53 97 = some ⟨[1]⟩ by decide +kernel)
    obtain ⟨intent', hvalid', hid'⟩ := Sample.exists_haggled
      (show Sample.haggledID 57 98 = some ⟨[1]⟩ by decide +kernel)
    refine .cons (.terms hvalid hvalid' (hid.trans hid'.symm)) ?_
    exact List.forall₂_same.mpr fun a _ => .same a
  obtain ⟨t, tr', hrun', -, hsame, -, -⟩ := terms_inert hrestated hrun
  exact ⟨s, tr, t, tr', hrun, hrun', hcalls, hsame⟩

end VynxRelayer.Relayer
