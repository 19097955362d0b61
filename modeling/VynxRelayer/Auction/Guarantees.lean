import VynxRelayer.Auction.Chronicle
import Mathlib.Logic.Equiv.Defs

/-!
# What the engine guarantees

The engine's contract, read off its invariant (`Consistent`) and its traces (`chronicle`, `ledger`):

* **lifecycle**: the map lists the live goroutines and nothing else, each under its own ID and with
  its own entry (`lifecycle`);
* **winners**: a voucher names the first bid of the greatest rank among those appended to the
  instance's own entry before its selection (`voucher_winner`);
* **acknowledged bids**: a bid for which `SubmitBid` returned `nil` was compared by the selection of
  its instance, *when* it was appended before that selection (`acknowledged_counted`). `SubmitBid`
  does not check this: it reads the map and appends in two sections, and an instance that has
  selected stays in the map until its `Cleanup`. A bid that is appended in between is acknowledged
  and never looked at (`acknowledged_ignored`).
-/

namespace VynxRelayer.Auction

open Lib State

/-! ## The lifecycle of an instance -/

/-- The voucher that an event puts on the voucher channel for instance `g`. -/
def Event.voucherOf (g : CallId) : Event → Option Voucher
  | .emitted g' v => if g' = g then some v else none
  | _ => none

/-- The vouchers a trace emits for instance `g`. -/
def vouchersOf (g : CallId) (tr : List Event) : List Voucher := tr.filterMap (Event.voucherOf g)

/-- A live goroutine of an auction for `id`. -/
def LiveFor (s : State) (id : IntentID) (g : CallId) : Prop :=
  ∃ task, s.tasks g = some task ∧ task.phase ≠ .done ∧ task.intent.val.id = id

/-- **The lifecycle of auctions**, in a state reached with a trace. -/
structure Lifecycle (tr : List Event) (s : State) : Prop where
  /-- The IDs in the map correspond one to one to the live goroutines, each to one for itself. -/
  correspondence : ∃ e : {id // (s.engine.auctions id).isSome} ≃ {g // Live s g},
    ∀ id, s.engine.auctions id.val = some (e id).val ∧ LiveFor s id.val (e id).val
  /-- The entry under an ID is the one that the `StartAuction` of that goroutine made for its
  intent, and it holds complete bids for that ID only. -/
  entry : ∀ id g, s.engine.auctions id = some g → ∃ entry task,
    s.engine.entries g = some entry ∧ s.tasks g = some task ∧ entry.intent = task.intent ∧
    .registered g entry.intent ∈ tr ∧ entry.intent.val.id = id ∧
    ∀ b ∈ entry.bids, b.intentID = id ∧ b.amountOut.isSome ∧ b.gasPrice.isSome
  /-- `StartAuction` fails when a goroutine for the ID is live, and then changes nothing but its own
  return value. -/
  refuses : ∀ c intent, s.starts c = some (.entered intent) → (∃ g, LiveFor s intent.val.id g) →
    next s (.register c) =
      some (s.setStart c (.finished intent (some (.alreadyActive intent.val.id))),
        some (.refused c intent))
  /-- `StartAuction` registers an entry when no goroutine for the ID is live. -/
  accepts : ∀ c intent, s.starts c = some (.entered intent) → (¬ ∃ g, LiveFor s intent.val.id g) →
    next s (.register c) =
      some (((s.setEngine (s.engine.insert c intent)).setTask c intent .launching).setStart c
        (.registered intent), some (.registered c intent))
  /-- `selectWinner` finds the goroutine's own entry, and its loop returns. -/
  finds : ∀ g intent p, s.tasks g = some ⟨intent, .located p⟩ → p = some g ∧
    ∃ entry winner, s.engine.entries g = some entry ∧ selectLoop none entry.bids = .ok winner ∧
      next s (.selectWinner g) =
        some (s.setTask g intent (.chosen winner), some (.selected g g entry.bids winner))
  /-- No goroutine has panicked. -/
  sound : ∀ g task, s.tasks g = some task → task.phase ≠ .panicked
  /-- `Cleanup` removes its own instance's entry and no other one. -/
  cleans : ∀ g s' o, next s (.cleanup g) = some (s', o) →
    ∀ id p, s'.engine.auctions id = some p ↔ s.engine.auctions id = some p ∧ p ≠ g
  /-- An instance emits at most one voucher. -/
  once : ∀ g, (vouchersOf g tr).length ≤ 1
  /-- With no live goroutine the map is empty. -/
  drained : (∀ g, ¬ Live s g) → ∀ id, s.engine.auctions id = none

/-- The map is the table of the live goroutines by ID. -/
theorem Consistent.auctions_iff {s : State} (h : Consistent s) {id : IntentID} {g : CallId} :
    s.engine.auctions id = some g ↔ LiveFor s id g := by
  constructor
  · exact h.owner id g
  · rintro ⟨task, htask, hlive, rfl⟩
    exact h.listed g task htask hlive

theorem LiveFor.live {s : State} {id : IntentID} {g : CallId} (h : LiveFor s id g) : Live s g := by
  obtain ⟨task, htask, hlive, _⟩ := h
  exact ⟨task, htask, hlive⟩

theorem Consistent.correspondence {s : State} (h : Consistent s) :
    ∃ e : {id // (s.engine.auctions id).isSome} ≃ {g // Live s g},
      ∀ id, s.engine.auctions id.val = some (e id).val ∧ LiveFor s id.val (e id).val := by
  let toGoroutine : {id // (s.engine.auctions id).isSome} → {g // Live s g} := fun id =>
    ⟨(s.engine.auctions id.val).get id.property,
      (h.auctions_iff.mp (Option.some_get id.property).symm).live⟩
  have hget : ∀ id, s.engine.auctions id.val = some (toGoroutine id).val := fun id =>
    (Option.some_get id.property).symm
  have hbij : Function.Bijective toGoroutine := by
    constructor
    · intro id₁ id₂ heq
      obtain ⟨t₁, ht₁, _, hid₁⟩ := h.owner _ _ (hget id₁)
      obtain ⟨t₂, ht₂, _, hid₂⟩ := h.owner _ _ (hget id₂)
      rw [heq, ht₂] at ht₁
      cases ht₁
      exact Subtype.ext (hid₁.symm.trans hid₂)
    · rintro ⟨g, task, htask, hlive⟩
      have hlisted := h.listed g task htask hlive
      refine ⟨⟨task.intent.val.id, by rw [hlisted]; rfl⟩, Subtype.ext ?_⟩
      exact Option.some.inj ((hget _).symm.trans hlisted)
  exact ⟨Equiv.ofBijective toGoroutine hbij, fun id => ⟨hget id, h.owner _ _ (hget id)⟩⟩

theorem vouchersOf_eq_life (g : CallId) (tr : List Event) :
    vouchersOf g tr = vouchersOf g (life g tr) := by
  unfold vouchersOf life journal
  rw [List.filterMap_filter]
  congr 1
  funext e
  cases e with
  | emitted g' v =>
    by_cases hg : g' = g
    · subst hg; simp [Event.voucherOf, Event.instance?]
    · simp [Event.voucherOf, hg]
  | _ => simp [Event.voucherOf]

/-- An instance emits at most one voucher: its life has one outcome. -/
theorem vouchersOf_length_le {cap : Nat} {tr : List Event} {s : State}
    (h : system.Path (.init cap) tr s) (g : CallId) : (vouchersOf g tr).length ≤ 1 := by
  cases hv : vouchersOf g tr with
  | nil => exact Nat.zero_le _
  | cons v rest =>
    -- a trace that emits a voucher for `g` tells its story up to that outcome
    have hmem : .emitted g v ∈ tr := by
      have : v ∈ vouchersOf g tr := by rw [hv]; exact List.mem_cons_self
      obtain ⟨e, he, hve⟩ := List.mem_filterMap.mp this
      cases e with
      | emitted g' v' =>
        simp only [Event.voucherOf] at hve
        split at hve <;> cases hve
        rename_i hg
        exact hg ▸ he
      | _ => cases hve
    obtain ⟨intent, bids, w, tail, _, _, htail, hl⟩ := emitted_story h hmem
    rw [← hv, vouchersOf_eq_life, hl]
    rcases htail with rfl | rfl <;> simp [vouchersOf, List.filterMap_cons, Event.voucherOf]

/-- **The auction lifecycle**: in every reachable state the map lists exactly the live goroutines,
each with its own entry, and what follows from it for `StartAuction`, `selectWinner` and
`Cleanup`. -/
theorem lifecycle {cap : Nat} {tr : List Event} {s : State} (h : system.Path (.init cap) tr s) :
    Lifecycle tr s := by
  have hc := consistent h
  refine
    { correspondence := hc.correspondence, entry := ?_, refuses := ?_, accepts := ?_, finds := ?_,
      sound := hc.sound, cleans := ?_, once := vouchersOf_length_le h, drained := ?_ }
  · intro id g hg
    obtain ⟨task, htask, _, hid⟩ := hc.owner id g hg
    obtain ⟨entry, hentry, hint⟩ := hc.object g task htask
    refine ⟨entry, task, hentry, htask, hint, ?_, by rw [hint]; exact hid, ?_⟩
    · rw [hint]
      exact registered_mem h htask
    · intro b hb
      obtain ⟨⟨hout, hgas⟩, hbid⟩ := hc.sorted g entry hentry b hb
      exact ⟨by rw [hbid, hint]; exact hid, hout, hgas⟩
  · rintro c intent call ⟨g, hlive⟩
    simp only [next, call, Engine.register, hc.auctions_iff.mpr hlive]
  · intro c intent call hdead
    have hfree : s.engine.auctions intent.val.id = none := by
      cases hact : s.engine.auctions intent.val.id with
      | none => rfl
      | some g => exact absurd ⟨g, hc.auctions_iff.mp hact⟩ hdead
    simp only [next, call, Engine.register, hfree]
  · intro g intent p htask
    have hown := hc.own g intent p htask
    subst hown
    obtain ⟨entry, hentry, _⟩ := hc.object g _ htask
    refine ⟨rfl, entry, _, hentry, hc.selectLoop hentry, ?_⟩
    simp only [next, htask, hentry, hc.selectLoop hentry]
  · intro g s' o hnext id p
    cases next_cases hnext with
    | @cleanup _ intent task =>
      have hown : s.engine.auctions intent.val.id = some g :=
        hc.listed g ⟨intent, .closing⟩ task (by simp)
      show Function.update s.engine.auctions intent.val.id none id = some p ↔ _
      rw [update_none_eq_some]
      constructor
      · rintro ⟨hne, hp⟩
        refine ⟨hp, ?_⟩
        rintro rfl
        obtain ⟨t, ht, _, hid⟩ := hc.owner id p hp
        rw [task] at ht
        cases ht
        exact hne hid.symm
      · rintro ⟨hp, hne⟩
        refine ⟨?_, hp⟩
        rintro rfl
        rw [hown] at hp
        cases hp
        exact hne rfl
  · intro hdead id
    cases hact : s.engine.auctions id with
    | none => rfl
    | some g => exact absurd (hc.auctions_iff.mp hact).live (hdead g)

namespace Sample

open VynxRelayer.Sample

/-- A bid that ranks with `high`, from another solver. -/
def tied : Bid := { high with solver := address 5 }

/-- An intent with an ID of its own. -/
def other : Ref Intent := ⟨2, { intent.val with id := ⟨[2]⟩ }⟩

/-- A bid for that one. -/
def elsewhere : Bid := { high with intentID := ⟨[2]⟩, amountOut := some 12 }

/-- After the opening two bids of the same rank reach the auction, the one that was invoked last
first. A second auction is started and gets a bid above all of them. -/
def contest : List Action :=
  opening ++ [.invokeBid 2 high, .invokeBid 3 tied, .lookupBid 2, .lookupBid 3, .appendBid 3,
    .appendBid 2, .returnBid 2, .returnBid 3, .invokeStart 4 other, .register 4, .launch 4,
    .returnStart 4, .invokeBid 5 elsewhere, .lookupBid 5, .appendBid 5, .returnBid 5]

def contested : List Event :=
  opened ++ [.bidInvoked 2 high, .bidInvoked 3 tied, .appended 3 tied 0, .appended 2 high 0,
    .bidReturned 2 none, .bidReturned 3 none, .startInvoked 4 other, .registered 4 other,
    .startReturned 4 none, .bidInvoked 5 elsewhere, .appended 5 elsewhere 4, .bidReturned 5 none]

/-- The first auction ends, with the bid that was appended first of the two. -/
def decided : List Event :=
  [.selected 0 0 [low, tied, high] (some tied), .emitted 0 (voucherFor intent tied), .closed 0]

end Sample

/-- Two auctions at once, the first with three bids. When it has ended, the map holds the second
alone. -/
theorem lifecycle_contest :
    (∃ s, system.Path (.init 1) Sample.contested s ∧
      s.engine.auctions Sample.intent.val.id = some 0 ∧
      s.engine.auctions Sample.other.val.id = some 4 ∧ Lifecycle Sample.contested s) ∧
    ∃ s, system.Path (.init 1) (Sample.contested ++ Sample.decided) s ∧
      s.engine.auctions Sample.intent.val.id = none ∧
      s.engine.auctions Sample.other.val.id = some 4 ∧
      Lifecycle (Sample.contested ++ Sample.decided) s := by
  have hopen : system.Path (.init 1) Sample.contested _ :=
    System.path_of_run (show system.run (.init 1) Sample.contest = some (_, _) from rfl)
  have hdecided : system.Path (.init 1) (Sample.contested ++ Sample.decided) _ :=
    System.path_of_run
      (show system.run (.init 1) (Sample.contest ++ Sample.closing) = some (_, _) from rfl)
  exact ⟨⟨_, hopen, rfl, rfl, lifecycle hopen⟩, _, hdecided, rfl, rfl, lifecycle hdecided⟩

/-! ## Winners -/

/-- **Winner correctness**: a voucher's winning bid is the first of the greatest rank among the bids
that were appended to the instance's own entry before its `selectWinner` took the entry's lock, each
by a `SubmitBid` for the voucher's intent. Appends to any other entry, an earlier one for the same
ID included, are not among them. -/
theorem voucher_winner {cap : Nat} {tr : List Event} {s : State} {g : CallId} {v : Voucher}
    (h : system.Path (.init cap) tr s) (emitted : .emitted g v ∈ tr) :
    ∃ pre post bids, tr = pre ++ .selected g g bids (some v.winningBid) :: post ∧
      .emitted g v ∈ post ∧ .registered g v.intent ∈ pre ∧
      bids = appendedTo g pre ∧ FirstBest bids v.winningBid ∧
      (∃ c, [.bidInvoked c v.winningBid, .appended c v.winningBid g].Sublist pre) ∧
      (∀ b ∈ bids, b.Priced ∧ b.intentID = v.intentID) ∧
      v.winningBid.intentID = v.intentID ∧ v.intentID = v.intent.val.id ∧
      v.winningSolver = v.winningBid.solver ∧ v.amountOut = v.winningBid.amountOut := by
  obtain ⟨intent, bids, w, tail, hw, rfl, htail, hl⟩ := emitted_story h emitted
  have hsel : .selected g g bids (some w) ∈ life g tr := by rw [hl]; simp
  obtain ⟨pre, post, rfl⟩ := List.append_of_mem (mem_journal.mp hsel).1
  obtain ⟨intent', hlife, _, hbids, _, hsorted⟩ := selected_justified h
  have hreg : .registered g intent' ∈ life g pre := by rw [hlife]; exact List.mem_cons_self
  -- an instance registers once, so the selection is over the intent the voucher names
  have hsame : intent' = intent := by
    have hmem : .registered g intent' ∈ life g (pre ++ .selected g g bids (some w) :: post) :=
      mem_journal.mpr ⟨List.mem_append_left _ (mem_journal.mp hreg).1, rfl⟩
    rw [hl] at hmem
    rcases htail with rfl | rfl <;> simpa using hmem
  subst hsame
  have hpost : .emitted g (voucherFor intent' w) ∈ post := by
    rcases List.mem_append.mp emitted with hmem | hmem
    · have hearly : .emitted g (voucherFor intent' w) ∈ life g pre := mem_journal.mpr ⟨hmem, rfl⟩
      rw [hlife] at hearly
      simp at hearly
    · simpa using hmem
  have hbest := firstBest_of_argmax hw
  have hwin : w ∈ bids := List.argmax_mem hw.symm
  obtain ⟨c, happ⟩ := mem_appendedTo.mp (hbids ▸ hwin)
  obtain ⟨s₁, _, _, hpre, _⟩ := h.at_event
  exact ⟨pre, post, bids, rfl, hpost, (mem_journal.mp hreg).1, hbids, hbest,
    ⟨c, appended_invoked hpre happ⟩, hsorted, (hsorted w hwin).2, rfl, rfl, rfl⟩

/-- Of three bids two rank highest. The voucher is for the one that was appended first, although it
was invoked last, and the higher bid for the other intent does not count. -/
theorem voucher_winner_contest :
    ∃ s, system.Path (.init 1) (Sample.contested ++ Sample.decided) s ∧
    ∃ pre post bids,
      Sample.contested ++ Sample.decided = pre ++ .selected 0 0 bids (some Sample.tied) :: post ∧
      bids = appendedTo 0 pre ∧ bids = [Sample.low, Sample.tied, Sample.high] ∧
      FirstBest bids Sample.tied ∧ Sample.high.rank = Sample.tied.rank := by
  obtain ⟨s, h⟩ := System.exists_path_of_run
    (show (system.run (.init 1) (Sample.contest ++ Sample.closing)).map Prod.snd =
      some (Sample.contested ++ Sample.decided) from rfl)
  obtain ⟨pre, post, bids, htr, _, _, hbids, hbest, _⟩ :=
    voucher_winner (g := 0) (v := voucherFor Sample.intent Sample.tied) h (by decide)
  -- the trace has one selection
  have hselected : .selected 0 0 bids (some Sample.tied) ∈ Sample.contested ++ Sample.decided := by
    rw [htr]
    exact List.mem_append_right _ List.mem_cons_self
  have hall : bids = [Sample.low, Sample.tied, Sample.high] := by
    simpa [Sample.contested, Sample.opened, Sample.decided] using hselected
  exact ⟨s, h, pre, post, bids, htr, hbids, hall, hbest, rfl⟩

/-! ## Acknowledged bids -/

/-- The selection of the instance is still to come. -/
def Phase.unselected : Phase → Bool
  | .launching => true
  | .waiting => true
  | .fired => true
  | .located _ => true
  | _ => false

/-- A step is timely unless it appends a bid to an entry whose instance has already selected. -/
def timely (s : State) : Action → Bool
  | .appendBid c =>
    match s.bids c with
    | some (.located _ p) => ((s.tasks p).map (·.phase.unselected)).getD true
    | _ => true
  | _ => true

/-- **Accepted bids count**: a bid for which `SubmitBid` returned `nil` was appended to one
instance's entry, and if that instance has closed, then after the append it selected a winner among
bids that include this one, and the winner ranks at least as high. -/
def AcceptedBidsCount (tr : List Event) : Prop :=
  ∀ c, .bidReturned c none ∈ tr →
    (∃ bid p, .appended c bid p ∈ tr) ∧
    ∀ bid p, .appended c bid p ∈ tr → .closed p ∈ tr →
      ∃ bids w, [.appended c bid p, .selected p p bids (some w)].Sublist tr ∧
        bid ∈ bids ∧ bid.rank ≤ w.rank

/-- **Acknowledged bids count in every run whose appends are timely.** -/
theorem acknowledged_counted {cap : Nat} {tr : List Event} {s : State}
    (h : system.PathOn (fun s a => timely s a = true) (.init cap) tr s) : AcceptedBidsCount tr := by
  intro c returned
  refine ⟨?_, ?_⟩
  · obtain ⟨bid, p, hcourse⟩ := acknowledged_course h.path returned
    have hmem : .appended c bid p ∈ course c tr := by rw [hcourse]; simp
    exact ⟨bid, p, (mem_journal.mp hmem).1⟩
  · intro bid p appended closed
    obtain ⟨intent, bids, w, e, _, hw, _, hl⟩ := closed_story h.path closed
    have hsel : .selected p p bids w ∈ life p tr := by rw [hl]; simp
    obtain ⟨xs, ys, s₁, a, s₂, rfl, hpre, guard, hnext, _⟩ := h.at_mem appended
    -- at the append the instance had not selected, so its selection is further on
    have hearly : .selected p p bids w ∉ xs := by
      intro hmem
      cases next_cases hnext with
      | append call =>
        obtain ⟨_, entry, hentry, _⟩ := (consistent hpre.path).held _ _ _ call
        obtain ⟨⟨i, phase⟩, htask⟩ := (consistent hpre.path).born _ _ hentry
        have hphase : phase.unselected = true := by
          simpa [timely, call, htask] using guard
        have hstory := (chronicle hpre.path).story htask
        have hmem' : .selected p p bids w ∈ life p xs := mem_journal.mpr ⟨hmem, rfl⟩
        cases phase with
        | launching | waiting | fired | located _ =>
          rw [show life p xs = [.registered p i] from hstory] at hmem'
          simp at hmem'
        | chosen _ | closing | done | panicked => cases hphase
    have hlate : .selected p p bids w ∈ ys := by
      have hmem := (mem_journal.mp hsel).1
      simpa [hearly] using hmem
    obtain ⟨ys₁, ys₂, rfl⟩ := List.append_of_mem hlate
    rw [← List.cons_append, ← List.append_assoc] at h
    obtain ⟨_, _, _, hbids, _, _⟩ := selected_justified h.path
    have hbid : bid ∈ bids := by
      rw [hbids, mem_appendedTo]
      exact ⟨c, by simp⟩
    cases w with
    | none =>
      rw [List.argmax_eq_none.mp hw.symm] at hbid
      cases hbid
    | some w =>
      refine ⟨bids, w, ?_, hbid, List.le_of_mem_argmax hbid hw.symm⟩
      refine (List.nil_sublist xs).append (.cons_cons _ ?_)
      exact (List.nil_sublist ys₁).append (List.singleton_sublist.mpr List.mem_cons_self)

/-- The opening, closed: every append was timely. -/
theorem acknowledged_counted_opening : ∃ s,
    system.PathOn (fun s a => timely s a = true) (.init 1) (Sample.opened ++ Sample.closed) s ∧
    AcceptedBidsCount (Sample.opened ++ Sample.closed) := by
  obtain ⟨s, h⟩ := System.exists_pathOn_of_run
    (show (system.run (.init 1) (Sample.opening ++ Sample.closing)).map Prod.snd =
      some (Sample.opened ++ Sample.closed) from rfl)
    (show system.meets timely _ _ = true from rfl)
  exact ⟨s, h, acknowledged_counted h⟩

/-- **An acknowledged bid that nobody compared**: the call reads the map before the instance
selects and appends after it. `SubmitBid` returns `nil` for the better bid, and the auction closes
with the other one as its winner. -/
theorem acknowledged_ignored : ∃ tr s, system.Path (.init 1) tr s ∧
    tr = Sample.opened ++ [.bidInvoked 2 Sample.high, .selected 0 0 [Sample.low] (some Sample.low),
      .appended 2 Sample.high 0, .bidReturned 2 none,
      .emitted 0 (voucherFor Sample.intent Sample.low), .closed 0] ∧
    Sample.low.rank < Sample.high.rank ∧ ¬ AcceptedBidsCount tr := by
  obtain ⟨s, h⟩ := System.exists_path_of_run
    (show (system.run (.init 1) (Sample.opening ++ [.invokeBid 2 Sample.high, .lookupBid 2,
      .fireTimer 0, .lookupWinner 0, .selectWinner 0, .appendBid 2, .returnBid 2, .publish 0,
      .cleanup 0])).map Prod.snd = some _ from rfl)
  refine ⟨_, s, h, rfl, by decide, ?_⟩
  intro hcount
  obtain ⟨bids, w, hsub, hbid, _⟩ := (hcount 2 (by decide)).2 Sample.high 0 (by decide) (by decide)
  have hsel := hsub.subset (List.mem_cons_of_mem _ List.mem_cons_self)
  obtain ⟨rfl, rfl⟩ : bids = [Sample.low] ∧ w = Sample.low := by simpa using hsel
  exact absurd hbid (by decide)

end VynxRelayer.Auction
