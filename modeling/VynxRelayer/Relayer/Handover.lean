import VynxRelayer.Relayer.Courses

/-!
# The hand-over of intents and bids

`SubmitIntent` pushes an intent onto `intentCh` before it broadcasts it, so a solver can answer only
after the push. But the push hands the intent over to a channel, not to the engine: the dispatcher
takes it off and calls `StartAuction` at some later moment, and the solver's bid travels through
another channel and another dispatcher. Nothing orders the two.

A bid for an intent that is alone with its ID is therefore refused before the auction has started
exactly where `SubmitBid` reads the map while the intent is still on its way. In runs in which the
read waits until it is not (`caughtUp`), no early bid is lost (`early_bids_kept`); in the runs the
code allows, one can be (`early_bid_lost`).
-/

namespace VynxRelayer.Relayer

open Lib Auction Ingress TxManager

variable {p : Platform} {buf : Buffers} {q : NonceQueue} {tr : List Event} {s s' : State}
  {a : Action}

/-- `SubmitBid` reads the map for an ID only while no intent with that ID is waiting in `intentCh`
or is with the dispatcher before it has reached the map. -/
def caughtUp (s : State) : Action → Bool
  | .engine (.lookupBid c) =>
    match s.engine.bids c with
    | some (.entered bid) =>
      !(s.intentCh.pending.any fun intent => intent.val.id == bid.intentID) &&
        match s.intentDispatcher with
        | .waiting => true
        | .calling intent =>
          intent.val.id != bid.intentID || enteredCount s.engine intent.addr == 0
    | _ => true
  | _ => true

/-- **No early bid is lost**: where `SubmitBid` finds no auction for a bid that a solver sent after
an intent's broadcast was put into its queue, and the intent is the only one with its ID, the
auction had been started before. -/
def NoEarlyBidLost (tr : List Event) : Prop :=
  ∀ pre post h intent k c bid, tr = pre ++ .engine (.missed c bid) :: post →
    [.enqueued h intent, .hub (.offered h k), .bidRead k ⟨c, bid⟩].Sublist pre →
    bid.intentID = intent.val.id →
    (∀ h' intent', .enqueued h' intent' ∈ pre → intent'.val.id = intent.val.id → h' = h) →
    .engine (.registered h intent) ∈ pre

/-- An enqueued intent that is alone with its ID is on its way to the map, or its auction was
started. -/
theorem enqueued_cases {h : HandlerId} {intent : Ref Intent}
    (path : (system p).Path (.init buf q) tr s) (enqueued : .enqueued h intent ∈ tr)
    (alone : ∀ h' intent', .enqueued h' intent' ∈ tr → intent'.val.id = intent.val.id → h' = h) :
    intent ∈ s.intentCh.pending ∨ s.engine.starts h = some (.entered intent) ∨
      .engine (.registered h intent) ∈ tr := by
  have hengine := engine_path path
  have hsent : intent ∈ tr.filterMap Event.enqueued? := List.mem_filterMap.mpr ⟨_, enqueued, rfl⟩
  rw [show tr.filterMap Event.enqueued? = _ from intents path] at hsent
  rcases List.mem_append.mp hsent with htaken | hpending
  · -- the dispatcher took it off the channel, and called under the handler's number
    obtain ⟨c, hinvoked⟩ : ∃ c, .startInvoked c intent ∈ engineTrace tr := by
      obtain ⟨e, he, hstarted⟩ := List.mem_filterMap.mp htaken
      obtain ⟨f, hf, hi⟩ := Option.bind_eq_some_iff.mp hstarted
      cases e <;> cases hf
      cases f <;> cases hi
      exact ⟨_, mem_engineTrace.mpr he⟩
    have hc : c = h := by
      rw [← addressed path c intent hinvoked, (enqueued_course path enqueued).1]
    subst hc
    rcases invoked_cases hengine hinvoked with hentered | hregistered | hrefused
    · exact .inr (.inl hentered)
    · exact .inr (.inr (mem_engineTrace.mp hregistered))
    · -- a refusal would need another intent with the ID
      obtain ⟨_, g, other, hne, hid, hreg⟩ := refused_invoked hengine hrefused
      exact absurd (alone g other (invoked_enqueued path (registered_invoked hengine hreg)) hid) hne
  · exact .inl hpending

/-- A bid is missed by a map read of its own call. -/
theorem next_missed {c : CallId} {bid : Bid}
    (h : next p s a = some (s', some (.engine (.missed c bid)))) :
    a = .engine (.lookupBid c) ∧ s.engine.bids c = some (.entered bid) := by
  generalize ho : some (Event.engine (.missed c bid)) = o at h
  cases next_cases h with
  | engine _ step =>
    obtain ⟨f, rfl, hf⟩ := Option.map_eq_some_iff.mp ho.symm
    cases hf
    cases Auction.next_cases step with
    | miss call _ _ => exact ⟨rfl, call⟩
  | hub _ => obtain ⟨f, _, hf⟩ := Option.map_eq_some_iff.mp ho.symm; cases hf
  | _ => cases ho

/-- **Early bids are kept in every run whose map reads have caught up.** -/
theorem early_bids_kept
    (h : (system p).PathOn (fun s a => caughtUp s a = true) (.init buf q) tr s) :
    NoEarlyBidLost tr := by
  intro pre post r intent k c bid htr hsub hid halone
  subst htr
  obtain ⟨s₁, a, s₂, hpre, guard, hnext, _⟩ := h.at_event
  obtain ⟨rfl, hcall⟩ := next_missed hnext
  simp only [caughtUp, hcall, Bool.and_eq_true, Bool.not_eq_true', List.any_eq_false,
    beq_iff_eq] at guard
  obtain ⟨hqueue, hdispatcher⟩ := guard
  have henqueued : .enqueued r intent ∈ pre := hsub.subset List.mem_cons_self
  rcases enqueued_cases hpre.path henqueued halone with hpending | hentered | hregistered
  · exact absurd hid.symm (hqueue intent hpending)
  · obtain ⟨hcalling, haddr⟩ := dispatching hpre.path r _ intent hentered rfl
    rw [hcalling] at hdispatcher
    simp [hid, haddr, enteredCount, hentered] at hdispatcher
  · exact hregistered

namespace Sample

/-- An auction without bids, and a bid after it. -/
def late : List Action :=
  connect ++ submit 0 [1] ++ start 0 ++
    [.engine (.fireTimer 0), .engine (.lookupWinner 0), .engine (.selectWinner 0),
      .engine (.publish 0), .engine (.cleanup 0), .message 0 (message 51 54 [1]),
      .dispatchBid, .engine (.lookupBid 0)]

def missedLate : List Event :=
  .hub (.joined 0) :: (submitted 0 [1] ++ started 0 [1] ++
    [.engine (.selected 0 0 [] none), .engine (.noBids 0), .engine (.closed 0),
      .bidRead 0 ⟨0, bid 51 6 [1]⟩, .engine (.bidInvoked 0 (bid 51 6 [1])),
      .engine (.missed 0 (bid 51 6 [1]))])

/-- A solver answers the broadcast before the dispatcher has run. -/
def early : List Action :=
  connect ++ [.post 0 ⟨ascii "POST", body [1]⟩ 0, .push 0, .hub (.rlock 0),
    .hub (.offer 0 0), .hub (.write 0), .message 0 (message 51 54 [1]), .dispatchBid,
    .engine (.lookupBid 0), .dispatchIntent, .engine (.register 0)]

/-- What it shows up to the map read of the bid. -/
def beforeEarly : List Event :=
  [.hub (.joined 0), .enqueued 0 (intent 0 [1]), .hub (.offered 0 0),
    .hub (.delivered 0 (intent 0 [1])), .bidRead 0 ⟨0, bid 51 6 [1]⟩,
    .engine (.bidInvoked 0 (bid 51 6 [1]))]

/-- And after it. -/
def afterEarly : List Event :=
  [.engine (.startInvoked 0 (intent 0 [1])), .engine (.registered 0 (intent 0 [1]))]

end Sample

/-- A late bid: the auction had been started, and is over. -/
theorem early_bids_kept_late :
    ∃ s, (system Sample.platform).PathOn (fun s a => caughtUp s a = true) (.init Sample.buffers ⟨7⟩)
      Sample.missedLate s ∧ NoEarlyBidLost Sample.missedLate := by
  have hrun : ((system Sample.platform).run (.init Sample.buffers ⟨7⟩) Sample.late).map Prod.snd =
      some Sample.missedLate := by
    decide +kernel
  have hmeets : (system Sample.platform).meets caughtUp (.init Sample.buffers ⟨7⟩) Sample.late =
      true := by
    decide +kernel
  obtain ⟨s, hpath⟩ := System.exists_pathOn_of_run hrun hmeets
  exact ⟨s, hpath, early_bids_kept hpath⟩

/-- **An early bid is lost**: the solver has received the broadcast and sent a valid bid, the bid's
dispatcher runs first, and `SubmitBid` finds no auction. The auction of the intent, the only one
there is, starts right after. -/
theorem early_bid_lost : ∃ tr s,
    tr = Sample.beforeEarly ++ .engine (.missed 0 (Sample.bid 51 6 [1])) :: Sample.afterEarly ∧
    (system Sample.platform).Path (.init Sample.buffers ⟨7⟩) tr s ∧ ¬ NoEarlyBidLost tr := by
  have hrun : ((system Sample.platform).run (.init Sample.buffers ⟨7⟩) Sample.early).map Prod.snd =
      some (Sample.beforeEarly ++
        .engine (.missed 0 (Sample.bid 51 6 [1])) :: Sample.afterEarly) := by
    decide +kernel
  obtain ⟨s, hpath⟩ := System.exists_path_of_run hrun
  refine ⟨_, s, rfl, hpath, ?_⟩
  intro hkept
  have hsub : [.enqueued 0 (Sample.intent 0 [1]), .hub (.offered 0 0),
      .bidRead 0 ⟨0, Sample.bid 51 6 [1]⟩].Sublist Sample.beforeEarly := by
    decide +kernel
  have halone : ∀ h' intent', .enqueued h' intent' ∈ Sample.beforeEarly →
      intent'.val.id = (Sample.intent 0 [1]).val.id → h' = 0 := by
    intro h' intent' hmem _
    simp only [Sample.beforeEarly, List.mem_cons, Event.enqueued.injEq, reduceCtorEq, false_or,
      List.not_mem_nil, or_false] at hmem
    exact hmem.1
  have hregistered := hkept _ _ 0 (Sample.intent 0 [1]) 0 0 _ rfl hsub rfl halone
  exact absurd hregistered (by decide +kernel)

end VynxRelayer.Relayer
