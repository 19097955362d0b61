import VynxRelayer.Auction.Chronicle
import VynxRelayer.Auction.Coarse

/-!
# Lock sharding refines one big lock

`coarse` forgets what the locks are for: the heap and the pointers into it. It maps a state of the
sharded engine to the state of the engine under one lock that its callers cannot tell from it.

All but one kind of caller is mapped in place. A call of `SubmitBid` that holds a pointer has not
taken effect while the pointer is the one in the map, and takes effect with its append. A call whose
pointer has left the map will append to an entry that nobody reads again, so it must have taken
effect before the entry went: it is `Cleanup` that makes the pending calls on its entry take effect,
one after the other, just before it deletes the entry (`flush`). The effect of a call is then a step
of another thread, and still lies between the call's invocation and its return.
-/

namespace VynxRelayer.Auction

open Lib State

/-! ## The abstraction -/

def absStart : StartCall → Coarse.StartCall
  | .entered intent => .entered intent
  | .registered intent => .finished intent none
  | .finished intent err => .finished intent err
  | .returned => .returned

/-- A call with a pointer has taken effect once the map has let go of the entry. -/
def absBid (auctions : IntentID → Option EntryPtr) : BidCall → Coarse.BidCall
  | .entered bid => .entered bid
  | .located bid p => if auctions bid.intentID = some p then .entered bid else .finished bid none
  | .finished bid err => .finished bid err
  | .returned => .returned

def absPhase : Phase → Coarse.Phase
  | .launching => .collecting
  | .waiting => .collecting
  | .fired => .collecting
  | .located _ => .collecting
  | .chosen winner => .chosen winner
  | .closing => .closing
  | .done => .done
  | .panicked => .done

def absTask (task : Task) : Coarse.Task := ⟨task.intent, absPhase task.phase⟩

/-- The state of the engine under one lock that a state of the sharded engine stands for. -/
def coarse (s : State) : Coarse.State where
  auctions := fun id => (s.engine.auctions id).map (bidsAt s)
  voucherCh := s.engine.voucherCh
  starts := Option.map absStart ∘ s.starts
  bids := Option.map (absBid s.engine.auctions) ∘ s.bids
  tasks := Option.map absTask ∘ s.tasks

/-- What a caller or a consumer of vouchers can see of the sharded engine: calls and their results,
and what becomes of each auction. -/
def Event.observed : Event → Option Event
  | .startInvoked c intent => some (.startInvoked c intent)
  | .startReturned c err => some (.startReturned c err)
  | .bidInvoked c bid => some (.bidInvoked c bid)
  | .bidReturned c err => some (.bidReturned c err)
  | .noBids g => some (.noBids g)
  | .emitted g v => some (.emitted g v)
  | .dropped g v => some (.dropped g v)
  | .closed g => some (.closed g)
  | .received v => some (.received v)
  | _ => none

/-- What they can see of the engine under one lock. -/
def Coarse.Event.observed : Coarse.Event → Option Auction.Event
  | .startInvoked c intent => some (.startInvoked c intent)
  | .startReturned c err => some (.startReturned c err)
  | .bidInvoked c bid => some (.bidInvoked c bid)
  | .bidReturned c err => some (.bidReturned c err)
  | .noBids g => some (.noBids g)
  | .emitted g v => some (.emitted g v)
  | .dropped g v => some (.dropped g v)
  | .closed g => some (.closed g)
  | .received v => some (.received v)
  | _ => none

theorem coarse_setStart (s : State) (c : CallId) (call : StartCall) :
    coarse (s.setStart c call) = (coarse s).setStart c (absStart call) := by
  simp only [coarse, State.setStart, Coarse.State.setStart, Function.comp_update, Option.map_some]
  rfl

theorem coarse_setBid (s : State) (c : CallId) (call : BidCall) :
    coarse (s.setBid c call) = (coarse s).setBid c (absBid s.engine.auctions call) := by
  simp only [coarse, State.setBid, Coarse.State.setBid, Function.comp_update, Option.map_some]
  rfl

theorem coarse_setTask (s : State) (g : CallId) (intent : Ref Intent) (phase : Phase) :
    coarse (s.setTask g intent phase) = (coarse s).setTask g intent (absPhase phase) := by
  simp only [coarse, State.setTask, Coarse.State.setTask, Function.comp_update, Option.map_some]
  rfl

theorem coarse_setChan (s : State) (ch : Chan Voucher) :
    coarse (s.setChan ch) = (coarse s).setChan ch := rfl

/-- A goroutine that moves on within one phase of the engine under one lock is not seen there. -/
theorem coarse_setTask_same {s : State} {g : CallId} {intent : Ref Intent} {old new : Phase}
    (task : s.tasks g = some ⟨intent, old⟩) (same : absPhase new = absPhase old) :
    coarse (s.setTask g intent new) = coarse s := by
  rw [coarse_setTask, same]
  have hg : (coarse s).tasks g = some ⟨intent, absPhase old⟩ := by
    simp only [coarse, Function.comp_apply, task, Option.map_some, absTask]
  simp only [Coarse.State.setTask, ← hg, Function.update_eq_self]

/-- The bids the engine under one lock has for a live instance. -/
theorem coarse_auctions {s : State} {id : IntentID} {p : EntryPtr}
    (h : s.engine.auctions id = some p) : (coarse s).auctions id = some (bidsAt s p) := by
  simp only [coarse, h, Option.map_some]

/-! ## The steps that change the map -/

/-- A registration is a fresh bid list under the ID. -/
theorem coarse_insert {s : State} {c : CallId} {intent : Ref Intent} (hc : Consistent s)
    (call : s.starts c = some (.entered intent)) (free : s.engine.auctions intent.val.id = none) :
    coarse (s.setEngine (s.engine.insert c intent)) =
      (coarse s).setAuction intent.val.id (some []) := by
  -- no pointer in use is the new one
  have hfresh : ∀ p entry, s.engine.entries p = some entry → p ≠ c := by
    rintro p entry hentry rfl
    obtain ⟨t, ht⟩ := hc.born p entry hentry
    rw [hc.unborn p (.inr ⟨intent, call⟩)] at ht
    cases ht
  have hauctions : (coarse (s.setEngine (s.engine.insert c intent))).auctions =
      Function.update (coarse s).auctions intent.val.id (some []) := by
    funext id
    by_cases hid : id = intent.val.id
    · subst hid
      simp [coarse, State.setEngine, Engine.insert, bidsAt]
    · simp only [coarse, State.setEngine, Engine.insert, Function.update_of_ne hid]
      cases hp : s.engine.auctions id with
      | none => rfl
      | some p =>
        obtain ⟨t, ht, _⟩ := hc.owner id p hp
        obtain ⟨entry, hentry, _⟩ := hc.object p t ht
        simp only [Option.map_some, bidsAt, Function.update_of_ne (hfresh p entry hentry)]
  have hbids : (coarse (s.setEngine (s.engine.insert c intent))).bids = (coarse s).bids := by
    funext c'
    cases hcall : s.bids c' with
    | none => simp only [coarse, State.setEngine, Function.comp_apply, hcall, Option.map_none]
    | some call' =>
      simp only [coarse, State.setEngine, Function.comp_apply, hcall, Option.map_some]
      cases call' with
      | located bid p =>
        obtain ⟨_, entry, hentry, _⟩ := hc.held c' bid p hcall
        have hp := hfresh p entry hentry
        by_cases hid : bid.intentID = intent.val.id
        · simp [absBid, Engine.insert, hid, free, hp.symm]
        · simp only [absBid, Engine.insert, Function.update_of_ne hid]
      | entered _ | finished _ _ | returned => rfl
  exact Coarse.State.ext hauctions rfl rfl hbids rfl

/-- An append through a pointer in the map is an append to the ID's bid list. -/
theorem coarse_append {s : State} {c : CallId} {bid : Bid} {p : EntryPtr} (hc : Consistent s)
    (call : s.bids c = some (.located bid p)) (current : s.engine.auctions bid.intentID = some p) :
    coarse (s.setEngine (s.engine.appendBid p bid)) =
      (coarse s).setAuction bid.intentID (some (bidsAt s p ++ [bid])) := by
  obtain ⟨_, entry, hentry, _⟩ := hc.held c bid p call
  have hauctions : (coarse (s.setEngine (s.engine.appendBid p bid))).auctions =
      Function.update (coarse s).auctions bid.intentID (some (bidsAt s p ++ [bid])) := by
    funext id
    by_cases hid : id = bid.intentID
    · subst hid
      simp [coarse, State.setEngine, Engine.appendBid, bidsAt, current, hentry]
    · simp only [coarse, State.setEngine, Engine.appendBid, Function.update_of_ne hid]
      cases hq : s.engine.auctions id with
      | none => rfl
      | some q =>
        -- one goroutine is live for one ID
        have hne : q ≠ p := by
          rintro rfl
          obtain ⟨t, ht, _, hidt⟩ := hc.owner id q hq
          obtain ⟨t', ht', _, hidt'⟩ := hc.owner _ q current
          rw [ht] at ht'
          cases ht'
          exact hid (hidt.symm.trans hidt')
        simp only [Option.map_some, bidsAt, Function.update_of_ne hne]
  exact Coarse.State.ext hauctions rfl rfl rfl rfl

/-- An append through a pointer that has left the map is not seen. -/
theorem coarse_append_stale {s : State} {c : CallId} {bid : Bid} {p : EntryPtr} (hc : Consistent s)
    (call : s.bids c = some (.located bid p)) (stale : s.engine.auctions bid.intentID ≠ some p) :
    coarse (s.setEngine (s.engine.appendBid p bid)) = coarse s := by
  obtain ⟨_, entry, hentry, hid⟩ := hc.held c bid p call
  have hauctions : (coarse (s.setEngine (s.engine.appendBid p bid))).auctions =
      (coarse s).auctions := by
    funext id
    simp only [coarse, State.setEngine, Engine.appendBid]
    cases hq : s.engine.auctions id with
    | none => rfl
    | some q =>
      have hne : q ≠ p := by
        rintro rfl
        obtain ⟨t, ht, _, hidt⟩ := hc.owner id q hq
        obtain ⟨entry', hentry', hint⟩ := hc.object q t ht
        rw [hentry] at hentry'
        cases hentry'
        rw [← hid, hint, hidt] at stale
        exact stale hq
      simp only [Option.map_some, bidsAt, Function.update_of_ne hne]
  exact Coarse.State.ext hauctions rfl rfl rfl rfl

/-! ## `Cleanup` and the calls it helps -/

/-- The bid that a call is about to append to entry `g`. -/
def pendingOn (s : State) (g : EntryPtr) (c : CallId) : Option Bid :=
  match s.bids c with
  | some (.located bid p) => if p = g then some bid else none
  | _ => none

theorem pendingOn_eq_some {s : State} {g : EntryPtr} {c : CallId} {bid : Bid} :
    pendingOn s g c = some bid ↔ s.bids c = some (.located bid g) := by
  unfold pendingOn
  split
  · rename_i b p hcall
    rw [hcall]
    by_cases hp : p = g
    · subst hp; simp
    · simp [hp]
  · rename_i hcall
    constructor
    · intro h; cases h
    · intro h; exact absurd h (hcall _ _)

/-- The calls among `cs` that have a bid pending, after their effect. -/
def settle (pending : CallId → Option Bid) (cs : List CallId)
    (bids : CallId → Option Coarse.BidCall) : CallId → Option Coarse.BidCall := fun c =>
  if c ∈ cs then ((pending c).map fun bid => .finished bid none).or (bids c) else bids c

@[simp] theorem settle_nil (pending : CallId → Option Bid)
    (bids : CallId → Option Coarse.BidCall) : settle pending [] bids = bids := by
  funext c
  simp [settle]

theorem settle_cons_of_none {pending : CallId → Option Bid} {c : CallId}
    (h : pending c = none) (cs : List CallId) (bids : CallId → Option Coarse.BidCall) :
    settle pending (c :: cs) bids = settle pending cs bids := by
  funext c'
  by_cases hc : c' = c
  · subst hc; simp [settle, h]
  · simp [settle, hc]

theorem settle_cons_of_some {pending : CallId → Option Bid} {c : CallId} {bid : Bid}
    (h : pending c = some bid) (cs : List CallId) (bids : CallId → Option Coarse.BidCall) :
    settle pending (c :: cs) bids =
      settle pending cs (Function.update bids c (some (.finished bid none))) := by
  funext c'
  by_cases hc : c' = c
  · subst hc; simp [settle, h]
  · simp [settle, hc]

/-- The effect of one pending call. -/
theorem submit_pending {t : Coarse.State} {c : CallId} {bid : Bid} {bids : List Bid}
    (call : t.bids c = some (.entered bid)) (priced : bid.Priced)
    (present : t.auctions bid.intentID = some bids) :
    Coarse.next t (.submit c) =
      some ((t.setAuction bid.intentID (some (bids ++ [bid]))).setBid c (.finished bid none),
        some (.submitted c bid none)) := by
  simp only [Coarse.next, call, Coarse.submit, checkBid_eq_none.mpr priced, present]

/-- The effects of the calls `cs` that have a bid pending for `id`, as one run of the engine under
one lock: it is seen by nobody, and adds to the bid list of `id`. -/
theorem flush {id : IntentID} {pending : CallId → Option Bid}
    (fits : ∀ c bid, pending c = some bid → bid.Priced ∧ bid.intentID = id) (cs : List CallId) :
    ∀ t : Coarse.State, (t.auctions id).isSome →
      (∀ c bid, pending c = some bid →
        t.bids c = some (.entered bid) ∨ t.bids c = some (.finished bid none)) →
      ∃ tr bids, Coarse.system.Path t tr
          { t with
            auctions := Function.update t.auctions id (some bids)
            bids := settle pending cs t.bids } ∧
        tr.filterMap Coarse.Event.observed = [] := by
  induction cs with
  | nil =>
    intro t present _
    obtain ⟨bids, hbids⟩ := Option.isSome_iff_exists.mp present
    refine ⟨[], bids, ?_, rfl⟩
    rw [← hbids, Function.update_eq_self, settle_nil]
    exact .nil
  | cons c cs ih =>
    intro t present standing
    cases hp : pending c with
    | none =>
      rw [settle_cons_of_none hp]
      exact ih t present standing
    | some bid =>
      rw [settle_cons_of_some hp]
      rcases standing c bid hp with hent | hfin
      · -- the call takes effect now
        obtain ⟨bids, hbids⟩ := Option.isSome_iff_exists.mp present
        obtain ⟨hpriced, rfl⟩ := fits c bid hp
        have hstep := Coarse.path_of_next (submit_pending hent hpriced hbids)
        have hstanding : ∀ c' b, pending c' = some b →
            Function.update t.bids c (some (.finished bid none)) c' = some (.entered b) ∨
            Function.update t.bids c (some (.finished bid none)) c' = some (.finished b none) := by
          intro c' b hc'
          by_cases hc : c' = c
          · subst hc
            rw [hp] at hc'
            cases hc'
            exact .inr (Function.update_self ..)
          · rw [Function.update_of_ne hc]
            exact standing c' b hc'
        obtain ⟨tr, bids', hrest, hsee⟩ := ih
          ((t.setAuction bid.intentID (some (bids ++ [bid]))).setBid c (.finished bid none))
          (by simp [Coarse.State.setAuction, Coarse.State.setBid]) hstanding
        refine ⟨[.submitted c bid none] ++ tr, bids', ?_, ?_⟩
        · have hpath := hstep.trans hrest
          simp only [Coarse.State.setAuction, Coarse.State.setBid, Function.update_idem] at hpath
          exact hpath
        · rw [List.filterMap_append, hsee]
          rfl
      · -- it has taken effect before
        rw [← hfin, Function.update_eq_self]
        exact ih t present standing

/-- A deletion, whatever the engine under one lock has added to the list before. -/
theorem coarse_cleanup (s : State) (id : IntentID) (bids : List Bid) :
    (coarse (s.setEngine (s.engine.cleanup id))).auctions =
      Function.update (Function.update (coarse s).auctions id (some bids)) id none := by
  rw [Function.update_idem]
  funext id'
  by_cases hid : id' = id
  · subst hid
    simp [coarse, State.setEngine, Engine.cleanup]
  · simp only [coarse, State.setEngine, Engine.cleanup, Function.update_of_ne hid]
    rfl

/-- The calls pending on `g`'s entry when `g` cleans up, after their effect, are where the sharded
engine's calls are after the entry has left the map. -/
theorem settle_coarse {s : State} {g : CallId} {id : IntentID} {cs : List CallId}
    (hc : Consistent s) (own : s.engine.auctions id = some g)
    (all : ∀ c, s.bids c ≠ none → c ∈ cs) :
    settle (pendingOn s g) cs (coarse s).bids =
      (coarse (s.setEngine (s.engine.cleanup id))).bids := by
  funext c
  cases hcall : s.bids c with
  | none =>
    have hp : pendingOn s g c = none := by simp only [pendingOn, hcall]
    simp [settle, hp, coarse, State.setEngine, hcall]
  | some call =>
    have hmem : c ∈ cs := all c (by rw [hcall]; simp)
    simp only [settle, hmem, if_true, coarse, State.setEngine, Function.comp_apply, hcall,
      Option.map_some]
    cases call with
    | entered _ | finished _ _ | returned =>
      have hp : pendingOn s g c = none := by simp only [pendingOn, hcall]
      rw [hp]
      rfl
    | located bid p =>
      by_cases hp : p = g
      · subst hp
        -- a caller that holds the entry is helped
        obtain ⟨_, entry, hentry, hbid⟩ := hc.held c bid p hcall
        obtain ⟨t, ht, _, hid⟩ := hc.owner id p own
        obtain ⟨entry', hentry', hint⟩ := hc.object p t ht
        rw [hentry] at hentry'
        cases hentry'
        have hkey : bid.intentID = id := by rw [← hbid, hint, hid]
        rw [pendingOn_eq_some.mpr hcall]
        simp [absBid, Engine.cleanup, hkey]
      · have hnone : pendingOn s g c = none := by simp [pendingOn, hcall, hp]
        rw [hnone]
        by_cases hid : bid.intentID = id
        · have hpg : g ≠ p := fun h => hp h.symm
          simp [absBid, Engine.cleanup, hid, own, hpg]
        · simp [absBid, Engine.cleanup, hid]

/-! ## The simulation -/

/-- The engine under one lock can follow a step of the sharded engine, and shows the same. -/
def Followed (s s' : State) (o : Option Event) : Prop :=
  ∃ tr t, Coarse.system.Path (coarse s) tr t ∧ t = coarse s' ∧
    tr.filterMap Coarse.Event.observed = o.toList.filterMap Event.observed

/-- A step that is not seen and leaves the abstraction as it is. -/
theorem followed_stutter {s s' : State} {o : Option Event} (same : coarse s' = coarse s)
    (unseen : o.toList.filterMap Event.observed = []) : Followed s s' o :=
  ⟨[], coarse s, .nil, same.symm, unseen.symm⟩

/-- A step that one atomic step answers. -/
theorem followed_once {s s' : State} {o : Option Event} (a : Coarse.Action)
    (shown : Option Coarse.Event) (step : Coarse.next (coarse s) a = some (coarse s', shown))
    (seen : shown.toList.filterMap Coarse.Event.observed = o.toList.filterMap Event.observed) :
    Followed s s' o :=
  ⟨shown.toList, coarse s', Coarse.path_of_next step, rfl, seen⟩

theorem coarse_start {s : State} {c : CallId} {call : StartCall} (h : s.starts c = some call) :
    (coarse s).starts c = some (absStart call) := by
  simp only [coarse, Function.comp_apply, h, Option.map_some]

theorem coarse_bid {s : State} {c : CallId} {call : BidCall} (h : s.bids c = some call) :
    (coarse s).bids c = some (absBid s.engine.auctions call) := by
  simp only [coarse, Function.comp_apply, h, Option.map_some]

theorem coarse_task {s : State} {g : CallId} {intent : Ref Intent} {phase : Phase}
    (h : s.tasks g = some ⟨intent, phase⟩) :
    (coarse s).tasks g = some ⟨intent, absPhase phase⟩ := by
  simp only [coarse, Function.comp_apply, h, Option.map_some, absTask]

/-- An append takes effect in the engine under one lock with the entry still in the map, and took
effect before otherwise. -/
theorem followed_append {s : State} {c : CallId} {bid : Bid} {p : EntryPtr} (hc : Consistent s)
    (call : s.bids c = some (.located bid p)) :
    Followed s ((s.setEngine (s.engine.appendBid p bid)).setBid c (.finished bid none))
      (some (.appended c bid p)) := by
  by_cases current : s.engine.auctions bid.intentID = some p
  · have hcall : (coarse s).bids c = some (.entered bid) := by
      rw [coarse_bid call, absBid, if_pos current]
    have hstep := submit_pending hcall (hc.held c bid p call).1 (coarse_auctions current)
    have hnext : Coarse.next (coarse s) (.submit c) =
        some (coarse ((s.setEngine (s.engine.appendBid p bid)).setBid c (.finished bid none)),
          some (.submitted c bid none)) := by
      rw [hstep, coarse_setBid, coarse_append hc call current]
      rfl
    exact followed_once _ _ hnext rfl
  · refine followed_stutter ?_ rfl
    have hcall : (coarse s).bids c = some (.finished bid none) := by
      rw [coarse_bid call, absBid, if_neg current]
    rw [coarse_setBid, coarse_append_stale hc call current]
    show (coarse s).setBid c (.finished bid none) = coarse s
    simp only [Coarse.State.setBid, ← hcall, Function.update_eq_self]

/-- `Cleanup` makes the calls pending on its entry take effect, and then deletes it. -/
theorem followed_cleanup {s : State} {g : CallId} {intent : Ref Intent} {cs : List CallId}
    (hc : Consistent s) (all : ∀ c, s.bids c ≠ none → c ∈ cs)
    (task : s.tasks g = some ⟨intent, .closing⟩) :
    Followed s ((s.setEngine (s.engine.cleanup intent.val.id)).setTask g intent .done)
      (some (.closed g)) := by
  have hown : s.engine.auctions intent.val.id = some g :=
    hc.listed g ⟨intent, .closing⟩ task (by simp)
  have hfits : ∀ c bid, pendingOn s g c = some bid →
      bid.Priced ∧ bid.intentID = intent.val.id := by
    intro c bid hp
    obtain ⟨hpriced, entry, hentry, hbid⟩ := hc.held c bid g (pendingOn_eq_some.mp hp)
    obtain ⟨entry', hentry', hint⟩ := hc.object g _ task
    rw [hentry] at hentry'
    cases hentry'
    exact ⟨hpriced, by rw [← hbid, hint]⟩
  have hstanding : ∀ c bid, pendingOn s g c = some bid →
      (coarse s).bids c = some (.entered bid) ∨
      (coarse s).bids c = some (.finished bid none) := by
    intro c bid hp
    rw [coarse_bid (pendingOn_eq_some.mp hp), absBid]
    split
    · exact .inl rfl
    · exact .inr rfl
  obtain ⟨tr, bids, hpath, hsee⟩ := flush hfits cs (coarse s)
    (by rw [coarse_auctions hown]; rfl) hstanding
  rw [settle_coarse hc hown all] at hpath
  -- the run of the helped calls, then the deletion
  have hlast : Coarse.next
      { coarse s with
        auctions := Function.update (coarse s).auctions intent.val.id (some bids)
        bids := (coarse (s.setEngine (s.engine.cleanup intent.val.id))).bids } (.cleanup g) =
      some (coarse ((s.setEngine (s.engine.cleanup intent.val.id)).setTask g intent .done),
        some (.closed g)) := by
    simp only [Coarse.next, coarse_task task, absPhase, coarse_setTask]
    congr 2
    exact congrArg (Coarse.State.setTask · g intent .done)
      (Coarse.State.ext (coarse_cleanup s intent.val.id bids).symm rfl rfl rfl rfl)
  have hdone := hpath.trans (Coarse.path_of_next hlast)
  refine ⟨_, _, hdone, rfl, ?_⟩
  rw [List.filterMap_append, hsee]
  rfl

/-- **Every step of the sharded engine is followed.** -/
theorem followed {s s' : State} {a : Action} {o : Option Event} {cs : List CallId}
    (hc : Consistent s) (all : ∀ c, s.bids c ≠ none → c ∈ cs) (step : Step s a s' o) :
    Followed s s' o := by
  cases step with
  | @invokeStart c intent fresh =>
    have hfresh : (coarse s).starts c = none := by simp [coarse, fresh]
    refine followed_once (.invokeStart c intent) (some (.startInvoked c intent)) ?_ rfl
    simp only [Coarse.next, hfresh, coarse_setStart, absStart]
  | @refuse c intent p call active =>
    refine followed_once (.start c)
      (some (.started c intent (some (.alreadyActive intent.val.id)))) ?_ rfl
    simp only [Coarse.next, coarse_start call, absStart, Coarse.start, coarse_auctions active,
      coarse_setStart]
  | @register c intent call free =>
    have hfree : (coarse s).auctions intent.val.id = none := by simp [coarse, free]
    refine followed_once (.start c) (some (.started c intent none)) ?_ rfl
    simp only [Coarse.next, coarse_start call, absStart, Coarse.start, hfree, coarse_setStart,
      coarse_setTask, coarse_insert hc call free, absPhase]
  | @launch c intent call =>
    refine followed_stutter ?_ rfl
    have hstart : (coarse s).starts c = some (.finished intent none) := coarse_start call
    have htask : coarse (s.setTask c intent .waiting) = coarse s :=
      coarse_setTask_same (hc.launching c intent call) rfl
    rw [coarse_setStart, htask]
    simp only [Coarse.State.setStart, absStart, ← hstart, Function.update_eq_self]
  | @returnStart c intent err call =>
    refine followed_once (.returnStart c) (some (.startReturned c err)) ?_ rfl
    simp only [Coarse.next, coarse_start call, absStart, coarse_setStart]
  | @invokeBid c bid fresh =>
    have hfresh : (coarse s).bids c = none := by simp [coarse, fresh]
    refine followed_once (.invokeBid c bid) (some (.bidInvoked c bid)) ?_ rfl
    simp only [Coarse.next, hfresh, coarse_setBid, absBid]
  | @checkFails c bid err call bad =>
    refine followed_once (.submit c) (some (.submitted c bid (some err))) ?_ rfl
    simp only [Coarse.next, coarse_bid call, absBid, Coarse.submit, bad, coarse_setBid]
  | @miss c bid call priced absent =>
    have habsent : (coarse s).auctions bid.intentID = none := by simp [coarse, absent]
    refine followed_once (.submit c)
      (some (.submitted c bid (some (.notFound bid.intentID)))) ?_ rfl
    simp only [Coarse.next, coarse_bid call, absBid, Coarse.submit,
      checkBid_eq_none.mpr priced, habsent, coarse_setBid]
  | @locate c bid p call priced found =>
    refine followed_stutter ?_ rfl
    have hbid : (coarse s).bids c = some (.entered bid) := coarse_bid call
    rw [coarse_setBid, absBid, if_pos found]
    simp only [Coarse.State.setBid, ← hbid, Function.update_eq_self]
  | append call => exact followed_append hc call
  | @returnBid c bid err call =>
    refine followed_once (.returnBid c) (some (.bidReturned c err)) ?_ rfl
    simp only [Coarse.next, coarse_bid call, absBid, coarse_setBid]
  | fireTimer task => exact followed_stutter (coarse_setTask_same task rfl) rfl
  | lookupWinner task => exact followed_stutter (coarse_setTask_same task rfl) rfl
  | selectNil task => cases hc.own _ _ _ task
  | @select g intent p entry winner task object loop =>
    cases hc.own _ _ _ task
    have hown : s.engine.auctions intent.val.id = some g :=
      hc.listed g ⟨intent, _⟩ task (by simp)
    have hbids : (coarse s).auctions intent.val.id = some entry.bids := by
      rw [coarse_auctions hown, bidsAt, object]
      rfl
    refine followed_once (.select g) (some (.selected g winner)) ?_ rfl
    simp only [Coarse.next, coarse_task task, absPhase, hbids, Option.getD_some, loop,
      coarse_setTask]
  | selectPanics task object loop =>
    rw [hc.selectLoop object] at loop
    cases loop
  | @noBids g intent task =>
    refine followed_once (.send g) (some (.noBids g)) ?_ rfl
    simp only [Coarse.next, coarse_task task, absPhase, coarse_setTask]
  | @emit g intent winner ch task sent =>
    refine followed_once (.send g) (some (.emitted g (voucherFor intent winner))) ?_ rfl
    have hsent : (coarse s).voucherCh.trySend (voucherFor intent winner) = some ch := sent
    simp only [Coarse.next, coarse_task task, absPhase, hsent, coarse_setTask, coarse_setChan]
  | @drop g intent winner task full =>
    refine followed_once (.send g) (some (.dropped g (voucherFor intent winner))) ?_ rfl
    have hfull : (coarse s).voucherCh.trySend (voucherFor intent winner) = none := full
    simp only [Coarse.next, coarse_task task, absPhase, hfull, coarse_setTask]
  | cleanup task => exact followed_cleanup hc all task
  | @receive v ch taken =>
    have htaken : (coarse s).voucherCh.take = some (v, ch) := taken
    refine followed_once .receive (some (.received v)) ?_ rfl
    simp only [Coarse.next, htaken, coarse_setChan]
  | @park ch parked =>
    have hparked : (coarse s).voucherCh.park = some ch := parked
    refine followed_once .park none ?_ rfl
    simp only [Coarse.next, hparked, coarse_setChan]

/-- Finitely many bid calls have been made: each step makes at most one more. -/
theorem finite_step {s s' : State} {a : Action} {o : Option Event} (step : Step s a s' o)
    (h : ∃ cs : List CallId, ∀ c, s.bids c ≠ none → c ∈ cs) :
    ∃ cs : List CallId, ∀ c, s'.bids c ≠ none → c ∈ cs := by
  obtain ⟨cs, hcs⟩ := h
  have hadd : ∀ c call, ∀ c', Function.update s.bids c (some call) c' ≠ none → c' ∈ c :: cs := by
    intro c call c' hne
    by_cases hc : c' = c
    · subst hc; exact List.mem_cons_self
    · rw [Function.update_of_ne hc] at hne
      exact List.mem_cons_of_mem _ (hcs c' hne)
  cases step with
  | @invokeBid c _ _ | @checkFails c _ _ _ _ | @miss c _ _ _ _ | @locate c _ _ _ _ _
  | @append c _ _ _ | @returnBid c _ _ _ => exact ⟨c :: cs, hadd c _⟩
  | invokeStart _ | refuse _ _ | register _ _ | launch _ | returnStart _ | fireTimer _
  | lookupWinner _ | selectNil _ | select _ _ _ | selectPanics _ _ _ | noBids _ | emit _ _
  | drop _ _ | cleanup _ | receive _ | park _ => exact ⟨cs, hcs⟩

/-- The simulation relation: the abstraction of a consistent state in which finitely many bid calls
have been made. -/
structure Refines (s : State) (t : Coarse.State) : Prop where
  consistent : Consistent s
  finite : ∃ cs : List CallId, ∀ c, s.bids c ≠ none → c ∈ cs
  coarse : t = coarse s

/-- **The abstraction carries every run**: to a run of the engine under one lock that shows the
same. -/
theorem simulated {cap : Nat} {tr : List Event} {s : State} (h : system.Path (.init cap) tr s) :
    ∃ tr' t, Coarse.system.Path (.init cap) tr' t ∧
      tr'.filterMap Coarse.Event.observed = tr.filterMap Event.observed := by
  have hbase : Refines (.init cap) (.init cap) :=
    ⟨consistent_init cap, ⟨[], fun c hne => absurd rfl hne⟩, rfl⟩
  have hanswer : ∀ s t a s' o, Refines s t → next s a = some (s', o) →
      ∃ tr' t', Coarse.system.Path t tr' t' ∧ Refines s' t' ∧
        tr'.filterMap Coarse.Event.observed = o.toList.filterMap Event.observed := by
    intro s t a s' o hR hnext
    obtain ⟨hc, ⟨cs, hcs⟩, rfl⟩ := hR
    have hstep := next_cases hnext
    obtain ⟨tr', t', hpath, rfl, hsee⟩ := followed hc hcs hstep
    exact ⟨tr', _, hpath, ⟨consistent_step hc hstep, finite_step hstep ⟨cs, hcs⟩, rfl⟩, hsee⟩
  obtain ⟨tr', t, hpath, _, hsee⟩ :=
    h.simulated Event.observed Coarse.Event.observed hbase hanswer
  exact ⟨tr', t, hpath, hsee⟩

/-- What is seen of one engine is seen of the other. -/
theorem observed_mem {tr : List Event} {tr' : List Coarse.Event} {e : Event}
    (same : tr'.filterMap Coarse.Event.observed = tr.filterMap Event.observed)
    (mem : e ∈ tr) (seen : e.observed = some e) : ∃ e' ∈ tr', e'.observed = some e := by
  have hmem : e ∈ tr'.filterMap Coarse.Event.observed := by
    rw [same]
    exact List.mem_filterMap.mpr ⟨e, mem, seen⟩
  exact List.mem_filterMap.mp hmem

/-- **Lock sharding refines one big lock**: for every run of the sharded engine there is a run of
the engine under one lock with the same calls and results, and the same vouchers emitted and
dropped, in the same order; and in it every call that returned took effect once, between its
invocation and its return, with the result it returned. -/
theorem sharding_refines {cap : Nat} {tr : List Event} {s : State}
    (h : system.Path (.init cap) tr s) :
    ∃ tr' t, Coarse.system.Path (.init cap) tr' t ∧
      tr'.filterMap Coarse.Event.observed = tr.filterMap Event.observed ∧
      (∀ c err, .startReturned c err ∈ tr → ∃ intent, journal Coarse.Event.startCall? c tr' =
        [.startInvoked c intent, .started c intent err, .startReturned c err]) ∧
      (∀ c err, .bidReturned c err ∈ tr → ∃ bid, journal Coarse.Event.bidCall? c tr' =
        [.bidInvoked c bid, .submitted c bid err, .bidReturned c err]) := by
  obtain ⟨tr', t, hpath, hsee⟩ := simulated h
  refine ⟨tr', t, hpath, hsee, ?_, ?_⟩
  · intro c err hret
    obtain ⟨e, hmem, he⟩ := observed_mem hsee hret rfl
    cases e <;> cases he
    exact Coarse.start_linearized hpath hmem
  · intro c err hret
    obtain ⟨e, hmem, he⟩ := observed_mem hsee hret rfl
    cases e <;> cases he
    exact Coarse.bid_linearized hpath hmem

/-- A call that reads the map in one auction for an ID and appends in the next one for the same ID:
it is acknowledged, and the run under one lock has it take effect in the first. -/
theorem sharding_refines_stale : ∃ tr s, system.Path (.init 1) tr s ∧
    [.closed 0, .registered 3 Sample.intent, .appended 2 Sample.high 0,
      .bidReturned 2 none].Sublist tr ∧
    ∃ tr' t, Coarse.system.Path (.init 1) tr' t ∧
      tr'.filterMap Coarse.Event.observed = tr.filterMap Event.observed ∧
      ∃ bid, journal Coarse.Event.bidCall? 2 tr' =
        [.bidInvoked 2 bid, .submitted 2 bid none, .bidReturned 2 none] := by
  obtain ⟨s, h⟩ := System.exists_path_of_run
    (show (system.run (.init 1) (Sample.opening ++ [.invokeBid 2 Sample.high, .lookupBid 2] ++
      Sample.closing ++ [.invokeStart 3 Sample.intent, .register 3, .appendBid 2,
        .returnBid 2])).map Prod.snd =
      some (Sample.opened ++ [.bidInvoked 2 Sample.high] ++ Sample.closed ++
        [.startInvoked 3 Sample.intent, .registered 3 Sample.intent, .appended 2 Sample.high 0,
          .bidReturned 2 none]) from rfl)
  obtain ⟨tr', t, hpath, hsee, _, hbid⟩ := sharding_refines h
  exact ⟨_, s, h, by decide, tr', t, hpath, hsee, hbid 2 none (by decide)⟩

end VynxRelayer.Auction
