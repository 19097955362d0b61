import VynxRelayer.Auction.Threads
import VynxRelayer.Lib.Relabel

/-!
# What the engine sees of an intent

The engine keeps intents in its entries, its goroutines and its vouchers, and reads their IDs only.
Blanking everything else in a state (`State.outline`) commutes with every step: the engine takes the
same branch, and shows the same event with the same fields blanked (`next_outline`).
-/

namespace VynxRelayer.Auction

open Lib

def AuctionEntry.outline (entry : AuctionEntry) : AuctionEntry :=
  { entry with intent := outlined entry.intent }

def Engine.outline (e : Engine) : Engine where
  auctions := e.auctions
  entries := fun p => (e.entries p).map AuctionEntry.outline
  voucherCh := e.voucherCh.map Voucher.outline

def StartCall.outline : StartCall → StartCall
  | .entered intent => .entered (outlined intent)
  | .registered intent => .registered (outlined intent)
  | .finished intent err => .finished (outlined intent) err
  | .returned => .returned

def Task.outline (task : Task) : Task := { task with intent := outlined task.intent }

/-- A state with every intent in it outlined. -/
def State.outline (s : State) : State where
  engine := s.engine.outline
  starts := fun c => (s.starts c).map StartCall.outline
  bids := s.bids
  tasks := fun g => (s.tasks g).map Task.outline

def Action.outline : Action → Action
  | .invokeStart c intent => .invokeStart c (outlined intent)
  | a => a

/-- An event with every intent in it outlined. -/
def Event.outline : Event → Event
  | .startInvoked c intent => .startInvoked c (outlined intent)
  | .registered c intent => .registered c (outlined intent)
  | .refused c intent => .refused c (outlined intent)
  | .emitted g v => .emitted g v.outline
  | .dropped g v => .dropped g v.outline
  | .received v => .received v.outline
  | e => e

namespace State

variable (s : State) (c : CallId)

theorem setStart_outline (call : StartCall) :
    (s.setStart c call).outline = s.outline.setStart c call.outline := by
  simp only [outline, setStart, map_update, Option.map_some]

theorem setBid_outline (call : BidCall) : (s.setBid c call).outline = s.outline.setBid c call := rfl

theorem setTask_outline (intent : Ref Intent) (phase : Phase) :
    (s.setTask c intent phase).outline = s.outline.setTask c (outlined intent) phase := by
  simp only [outline, setTask, map_update, Option.map_some, Task.outline]

theorem setEngine_outline (e : Engine) :
    (s.setEngine e).outline = s.outline.setEngine e.outline := rfl

theorem setChan_outline (ch : Chan Voucher) :
    (s.setChan ch).outline = s.outline.setChan (ch.map Voucher.outline) := rfl

end State

theorem Engine.insert_outline (e : Engine) (p : EntryPtr) (intent : Ref Intent) :
    (e.insert p intent).outline = e.outline.insert p (outlined intent) := by
  simp only [outline, insert, map_update, Option.map_some, AuctionEntry.outline, outlined_id]

theorem Engine.register_outline (e : Engine) (p : EntryPtr) (intent : Ref Intent) :
    e.outline.register p (outlined intent) = (e.register p intent).map Engine.outline := by
  unfold register
  rw [outlined_id, show e.outline.auctions = e.auctions from rfl]
  cases e.auctions intent.val.id with
  | some _ => rfl
  | none => exact congrArg some (insert_outline e p intent).symm

theorem Engine.appendBid_outline (e : Engine) (p : EntryPtr) (bid : Bid) :
    (e.appendBid p bid).outline = e.outline.appendBid p bid := by
  simp only [outline, appendBid, map_update, Option.map_map]
  rfl

/-- **A step of the engine depends on the IDs of its intents only.** -/
theorem next_outline (s : State) (a : Action) :
    next s.outline a.outline = (next s a).map (Prod.map State.outline (Option.map Event.outline)) := by
  have hstarts : ∀ c, s.outline.starts c = (s.starts c).map StartCall.outline := fun _ => rfl
  have htasks : ∀ g, s.outline.tasks g = (s.tasks g).map Task.outline := fun _ => rfl
  have hbids : s.outline.bids = s.bids := rfl
  have hengine : s.outline.engine = s.engine.outline := rfl
  have hchan : s.outline.engine.voucherCh = s.engine.voucherCh.map Voucher.outline := rfl
  cases a with
  | invokeStart c intent =>
    simp only [next, Action.outline, hstarts]
    cases s.starts c with
    | some _ => rfl
    | none =>
      simp only [Option.map_none, Option.map_some, Prod.map, State.setStart_outline]
      rfl
  | register c =>
    simp only [next, Action.outline, hstarts]
    cases s.starts c with
    | none => rfl
    | some call =>
      cases call with
      | registered _ | finished _ _ | returned => rfl
      | entered intent =>
        simp only [Option.map_some, StartCall.outline, hengine, Engine.register_outline]
        cases s.engine.register c intent with
        | none =>
          simp only [Option.map_none, Option.map_some, Prod.map, State.setStart_outline]
          rfl
        | some e =>
          simp only [Option.map_some, Prod.map, State.setStart_outline, State.setTask_outline,
            State.setEngine_outline]
          rfl
  | launch c =>
    simp only [next, Action.outline, hstarts]
    cases s.starts c with
    | none => rfl
    | some call =>
      cases call with
      | entered _ | finished _ _ | returned => rfl
      | registered intent =>
        simp only [Option.map_some, Prod.map, State.setStart_outline, State.setTask_outline]
        rfl
  | returnStart c =>
    simp only [next, Action.outline, hstarts]
    cases s.starts c with
    | none => rfl
    | some call =>
      cases call with
      | entered _ | registered _ | returned => rfl
      | finished intent err =>
        simp only [Option.map_some, Prod.map, State.setStart_outline]
        rfl
  | invokeBid c bid =>
    simp only [next, Action.outline, hbids]
    cases s.bids c <;> rfl
  | lookupBid c =>
    simp only [next, Action.outline, hbids]
    cases s.bids c with
    | none => rfl
    | some call =>
      cases call with
      | located _ _ | finished _ _ | returned => rfl
      | entered bid =>
        simp only [Engine.lookup, show s.outline.engine.auctions = s.engine.auctions from rfl]
        cases checkBid bid with
        | some _ => rfl
        | none => cases s.engine.auctions bid.intentID <;> rfl
  | appendBid c =>
    simp only [next, Action.outline, hbids]
    cases s.bids c with
    | none => rfl
    | some call =>
      cases call with
      | entered _ | finished _ _ | returned => rfl
      | located bid p =>
        simp only [Option.map_some, Prod.map, State.setBid_outline, State.setEngine_outline,
          Engine.appendBid_outline]
        rfl
  | returnBid c =>
    simp only [next, Action.outline, hbids]
    cases s.bids c with
    | none => rfl
    | some call => cases call <;> rfl
  | fireTimer g =>
    simp only [next, Action.outline, htasks]
    cases s.tasks g with
    | none => rfl
    | some task =>
      obtain ⟨intent, phase⟩ := task
      cases phase with
      | waiting =>
        simp only [Option.map_some, Prod.map, Task.outline, State.setTask_outline]
        rfl
      | _ => rfl
  | lookupWinner g =>
    simp only [next, Action.outline, htasks]
    cases s.tasks g with
    | none => rfl
    | some task =>
      obtain ⟨intent, phase⟩ := task
      cases phase with
      | fired =>
        simp only [Option.map_some, Prod.map, Task.outline, State.setTask_outline]
        rfl
      | _ => rfl
  | selectWinner g =>
    simp only [next, Action.outline, htasks]
    cases s.tasks g with
    | none => rfl
    | some task =>
      obtain ⟨intent, phase⟩ := task
      cases phase with
      | located found =>
        cases found with
        | none =>
          simp only [Option.map_some, Prod.map, Task.outline, State.setTask_outline]
          rfl
        | some p =>
          simp only [Option.map_some, Task.outline,
            show s.outline.engine.entries p = (s.engine.entries p).map AuctionEntry.outline from rfl]
          cases s.engine.entries p with
          | none => rfl
          | some entry =>
            simp only [Option.map_some, AuctionEntry.outline]
            cases selectLoop none entry.bids with
            | ok winner =>
              simp only [Option.map_some, Prod.map, State.setTask_outline]
              rfl
            | error panic =>
              cases panic
              simp only [Option.map_some, Prod.map, State.setTask_outline]
              rfl
      | _ => rfl
  | publish g =>
    simp only [next, Action.outline, htasks]
    cases s.tasks g with
    | none => rfl
    | some task =>
      obtain ⟨intent, phase⟩ := task
      cases phase with
      | chosen winner =>
        cases winner with
        | none =>
          simp only [Option.map_some, Prod.map, Task.outline, State.setTask_outline]
          rfl
        | some winner =>
          have hvoucher :
              voucherFor (outlined intent) winner = (voucherFor intent winner).outline := rfl
          simp only [Option.map_some, Task.outline, hchan, hvoucher, Chan.trySend_map]
          cases s.engine.voucherCh.trySend (voucherFor intent winner) with
          | some ch =>
            simp only [Option.map_some, Prod.map, State.setTask_outline, State.setChan_outline]
            rfl
          | none =>
            simp only [Option.map_none, Option.map_some, Prod.map, State.setTask_outline]
            rfl
      | _ => rfl
  | cleanup g =>
    simp only [next, Action.outline, htasks]
    cases s.tasks g with
    | none => rfl
    | some task =>
      obtain ⟨intent, phase⟩ := task
      cases phase with
      | closing =>
        simp only [Option.map_some, Prod.map, Task.outline, State.setTask_outline,
          State.setEngine_outline]
        rfl
      | _ => rfl
  | receive =>
    simp only [next, Action.outline, hchan, Chan.take_map]
    cases s.engine.voucherCh.take <;> rfl
  | park =>
    simp only [next, Action.outline, hchan, Chan.park_map]
    cases s.engine.voucherCh.park <;> rfl

end VynxRelayer.Auction
