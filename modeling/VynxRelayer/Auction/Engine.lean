import VynxRelayer.Core
import VynxRelayer.Lib.Chan
import Mathlib.Logic.Function.Basic

/-!
# The auction engine's critical sections

`internal/auction` guards its state by two kinds of lock: `Engine.mu` over the `auctions` map, and
one `auctionEntry.mu` over each entry's bids. Every access is a short section under one of them,
and no section takes both. This module has one function per section, from which
`VynxRelayer.Auction.Threads` builds the methods as threads.

An entry is an object on the heap: the map holds its pointer, and a thread that read the pointer
can use it after the map has let go of it. So `Engine.entries` is the heap, and it never forgets
an entry.

`selectWinner`'s loop dereferences the amounts of the bids it compares, and a `nil` among them
panics. `selectLoop` keeps that outcome. Over priced bids it never happens, and the loop computes
the first bid of the greatest rank (`selectLoop_eq_argmax`).
-/

namespace VynxRelayer.Auction

open Lib

/-- A pointer to an auction entry. The entry is allocated by a call of `StartAuction`, and the
pointer is that call's name. -/
abbrev EntryPtr := Nat

/-- All bids received for one intent in flight. -/
structure AuctionEntry where
  bids : List Bid
  intent : Ref Intent
  deriving DecidableEq

/-- The in-memory auction registry, with the heap its entries live on. -/
structure Engine where
  auctions : IntentID → Option EntryPtr
  entries : EntryPtr → Option AuctionEntry
  voucherCh : Chan Voucher

/-- The errors of the exported methods; `nil` is `none` of `Option EngineError`. -/
inductive EngineError where
  | alreadyActive (id : IntentID)
  | amountOutNil (id : IntentID)
  | gasPriceNil (id : IntentID)
  | notFound (id : IntentID)
  deriving DecidableEq

/-- The text of an error, as `fmt.Errorf` renders it. -/
def EngineError.text : EngineError → Bytes
  | .alreadyActive id =>
    ascii "failed to start auction for intent " ++ id.bytes ++ ascii ": auction already active"
  | .amountOutNil id =>
    ascii "failed to submit bid for intent " ++ id.bytes ++ ascii ": AmountOut is nil"
  | .gasPriceNil id =>
    ascii "failed to submit bid for intent " ++ id.bytes ++ ascii ": GasPrice is nil"
  | .notFound id =>
    ascii "failed to submit bid for intent " ++ id.bytes ++ ascii ": auction not found or expired"

/-- A run-time panic: a `nil` pointer was dereferenced. -/
inductive Panic where
  | nilDereference
  deriving DecidableEq

namespace Engine

/-- `NewEngine`. -/
def new (voucherBufSize : Nat) : Engine where
  auctions := fun _ => none
  entries := fun _ => none
  voucherCh := .make voucherBufSize

/-- A fresh entry at `p`, entered into the map under its intent's ID. -/
def insert (e : Engine) (p : EntryPtr) (intent : Ref Intent) : Engine :=
  { e with
    auctions := Function.update e.auctions intent.val.id (some p)
    entries := Function.update e.entries p (some { bids := [], intent := intent }) }

/-- `StartAuction` under `Engine.mu`: refuse an ID in flight, else register a fresh entry. -/
def register (e : Engine) (p : EntryPtr) (intent : Ref Intent) : Option Engine :=
  match e.auctions intent.val.id with
  | some _ => none
  | none => some (e.insert p intent)

/-- The map read of `submitBidLocked` and `selectWinner`, under the read lock of `Engine.mu`. -/
def lookup (e : Engine) (id : IntentID) : Option EntryPtr := e.auctions id

/-- `submitBidLocked` under the entry's own mutex. -/
def appendBid (e : Engine) (p : EntryPtr) (bid : Bid) : Engine :=
  { e with
    entries := Function.update e.entries p <|
      (e.entries p).map fun entry => { entry with bids := entry.bids ++ [bid] } }

/-- `Cleanup` under `Engine.mu`. -/
def cleanup (e : Engine) (id : IntentID) : Engine :=
  { e with auctions := Function.update e.auctions id none }

end Engine

/-- The checks `SubmitBid` makes before it touches the engine. -/
def checkBid (bid : Bid) : Option EngineError :=
  if bid.amountOut.isNone then some (.amountOutNil bid.intentID)
  else if bid.gasPrice.isNone then some (.gasPriceNil bid.intentID)
  else none

theorem checkBid_eq_none {bid : Bid} : checkBid bid = none ↔ bid.Priced := by
  unfold checkBid Bid.Priced
  cases bid.amountOut <;> cases bid.gasPrice <;> simp

/-- The voucher `runAuction` builds for its winner. -/
def voucherFor (intent : Ref Intent) (winner : Bid) : Voucher where
  intentID := intent.val.id
  winningSolver := winner.solver
  amountOut := winner.amountOut
  intent := intent
  winningBid := winner

/-! ## Winner selection -/

/-- `(*big.Int).Cmp`: equal pointers compare equal before anything is dereferenced. -/
def bigCmp : Option Int → Option Int → Except Panic Ordering
  | none, none => .ok .eq
  | some x, some y => .ok (compare x y)
  | _, _ => .error .nilDereference

/-- The test of the loop: does `bid` replace `winner`? -/
def outbids (bid winner : Bid) : Except Panic Bool :=
  match bigCmp bid.amountOut winner.amountOut with
  | .error p => .error p
  | .ok .gt => .ok true
  | .ok .lt => .ok false
  | .ok .eq =>
    match bigCmp bid.gasPrice winner.gasPrice with
    | .error p => .error p
    | .ok cmp => .ok (cmp == .gt)

/-- The loop of `selectWinner` over the bids, with the winner so far. -/
def selectLoop : Option Bid → List Bid → Except Panic (Option Bid)
  | winner, [] => .ok winner
  | none, bid :: rest => selectLoop (some bid) rest
  | some winner, bid :: rest =>
    match outbids bid winner with
    | .error p => .error p
    | .ok true => selectLoop (some bid) rest
    | .ok false => selectLoop (some winner) rest

/-- Between priced bids the test is the strict order of their ranks. -/
theorem outbids_eq {bid winner : Bid} (hb : bid.Priced) (hw : winner.Priced) :
    outbids bid winner = .ok (decide (winner.rank < bid.rank)) := by
  obtain ⟨a, ha⟩ := Option.isSome_iff_exists.mp hb.1
  obtain ⟨g, hg⟩ := Option.isSome_iff_exists.mp hb.2
  obtain ⟨a', ha'⟩ := Option.isSome_iff_exists.mp hw.1
  obtain ⟨g', hg'⟩ := Option.isSome_iff_exists.mp hw.2
  have hlt : winner.rank < bid.rank ↔ a' < a ∨ a' = a ∧ g' < g := by
    simp only [Bid.rank_lt_rank, ha, hg, ha', hg', Option.getD_some]
  unfold outbids
  rw [ha, ha', hg, hg']
  simp only [bigCmp]
  cases hc : compare a a' with
  | gt =>
    have h : a' < a := compare_gt_iff_gt.mp hc
    simp only [hlt, h, true_or, decide_true]
  | lt =>
    have h : a < a' := compare_lt_iff_lt.mp hc
    have hno : ¬ (winner.rank < bid.rank) := by rw [hlt]; omega
    simp only [hno, decide_false]
  | eq =>
    have h : a = a' := compare_eq_iff_eq.mp hc
    subst h
    have hg : compare g g' = .gt ↔ g' < g := compare_gt_iff_gt
    simp only [hlt, lt_irrefl, false_or, true_and, ← hg]
    cases compare g g' <;> rfl

/-- The loop over priced bids is the fold of `List.argmax`, from any priced winner so far. -/
theorem selectLoop_eq_foldl {bids : List Bid} (priced : ∀ b ∈ bids, b.Priced) :
    ∀ {winner : Option Bid}, (∀ w ∈ winner, w.Priced) →
      selectLoop winner bids =
        .ok (bids.foldl (List.argAux fun b c => c.rank < b.rank) winner) := by
  induction bids with
  | nil => intro winner _; cases winner <;> rfl
  | cons bid rest ih =>
    intro winner hw
    have hbid : bid.Priced := priced bid List.mem_cons_self
    have hrest : ∀ b ∈ rest, b.Priced := fun b hb => priced b (List.mem_cons_of_mem _ hb)
    rw [List.foldl_cons]
    cases winner with
    | none =>
      rw [selectLoop, ih hrest (by intro w h; cases h; exact hbid)]
      rfl
    | some w =>
      have hwp : w.Priced := hw w rfl
      rw [selectLoop, outbids_eq hbid hwp]
      by_cases hlt : w.rank < bid.rank
      · simp only [hlt, decide_true, List.argAux, if_true]
        exact ih hrest (by intro x h; cases h; exact hbid)
      · simp only [hlt, decide_false, List.argAux, if_false]
        exact ih hrest (by intro x h; cases h; exact hwp)

/-- **The loop over priced bids picks the first bid of the greatest rank**, and never panics. -/
theorem selectLoop_eq_argmax {bids : List Bid} (priced : ∀ b ∈ bids, b.Priced) :
    selectLoop none bids = .ok (bids.argmax Bid.rank) :=
  selectLoop_eq_foldl priced (by intro w h; cases h)

/-- The first bid of the greatest rank: those before it rank below it, those after it not above
it. -/
def FirstBest (bids : List Bid) (w : Bid) : Prop :=
  ∃ before after, bids = before ++ w :: after ∧
    (∀ b ∈ before, b.rank < w.rank) ∧ ∀ b ∈ after, b.rank ≤ w.rank

theorem firstBest_of_argmax {bids : List Bid} {w : Bid} (h : some w = bids.argmax Bid.rank) :
    FirstBest bids w := by
  have hw : w ∈ bids.argmax Bid.rank := h.symm
  have hmax : ∀ b ∈ bids, b.rank ≤ w.rank := fun b hb => List.le_of_mem_argmax hb hw
  obtain ⟨before, after, hsplit, hnot⟩ := List.eq_append_cons_of_mem (List.argmax_mem hw)
  refine ⟨before, after, hsplit, ?_, ?_⟩
  · intro b hb
    have hbids : b ∈ bids := by rw [hsplit]; exact List.mem_append_left _ hb
    refine lt_of_le_of_ne (hmax b hbids) ?_
    intro heq
    -- a bid of the same rank further to the front would have been the maximum
    have hindex := List.index_of_argmax hw hbids heq.ge
    rw [hsplit, List.idxOf_append_of_notMem hnot, List.idxOf_cons_self,
      List.idxOf_append_of_mem hb] at hindex
    exact absurd (List.idxOf_lt_length_of_mem hb) (by omega)
  · intro b hb
    exact hmax b (by rw [hsplit]; exact List.mem_append_right _ (List.mem_cons_of_mem _ hb))

end VynxRelayer.Auction
