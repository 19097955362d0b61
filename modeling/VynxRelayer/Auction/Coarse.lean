import VynxRelayer.Auction.Engine
import VynxRelayer.Lib.Journal
import VynxRelayer.Lib.System

/-!
# The engine under one big lock

What `internal/auction` is for, with the lock sharding taken away: one map from intent IDs to bid
lists, and one atomic step for each of `StartAuction`, `SubmitBid` (presence check and append
together), selection, voucher send and `Cleanup`. There are no entries, no pointers to them and no
heap; an ID that is not in the map has no bids anywhere.

A call is three steps: it is invoked, it takes effect, it returns what the effect decided. Each call
therefore takes effect exactly once, between its invocation and its return (`start_linearized`,
`bid_linearized`).
-/

namespace VynxRelayer.Auction.Coarse

open Lib

/-- The name of one call. -/
abbrev CallId := Nat

/-- Where a call stands: before its effect, after it with the result it will return, or back. -/
inductive Call (α : Type) where
  | entered (arg : α)
  | finished (arg : α) (err : Option EngineError)
  | returned
  deriving DecidableEq

abbrev StartCall := Call (Ref Intent)

abbrev BidCall := Call Bid

/-- Where an auction stands. -/
inductive Phase where
  /-- collecting bids -/
  | collecting
  | chosen (winner : Option Bid)
  | closing
  | done
  deriving DecidableEq

/-- An auction: its intent and where it stands. -/
structure Task where
  intent : Ref Intent
  phase : Phase
  deriving DecidableEq

@[ext] structure State where
  auctions : IntentID → Option (List Bid)
  voucherCh : Chan Voucher
  starts : CallId → Option StartCall
  bids : CallId → Option BidCall
  tasks : CallId → Option Task

inductive Action where
  | invokeStart (c : CallId) (intent : Ref Intent)
  | start (c : CallId)
  | returnStart (c : CallId)
  | invokeBid (c : CallId) (bid : Bid)
  | submit (c : CallId)
  | returnBid (c : CallId)
  | select (g : CallId)
  | send (g : CallId)
  | cleanup (g : CallId)
  | receive
  | park
  deriving DecidableEq

inductive Event where
  | startInvoked (c : CallId) (intent : Ref Intent)
  /-- the call of `StartAuction` took effect with this result -/
  | started (c : CallId) (intent : Ref Intent) (err : Option EngineError)
  | startReturned (c : CallId) (err : Option EngineError)
  | bidInvoked (c : CallId) (bid : Bid)
  /-- the call of `SubmitBid` took effect with this result -/
  | submitted (c : CallId) (bid : Bid) (err : Option EngineError)
  | bidReturned (c : CallId) (err : Option EngineError)
  | selected (g : CallId) (winner : Option Bid)
  | noBids (g : CallId)
  | emitted (g : CallId) (v : Voucher)
  | dropped (g : CallId) (v : Voucher)
  | closed (g : CallId)
  | received (v : Voucher)
  deriving DecidableEq

namespace State

def init (voucherBufSize : Nat) : State where
  auctions := fun _ => none
  voucherCh := .make voucherBufSize
  starts := fun _ => none
  bids := fun _ => none
  tasks := fun _ => none

def setStart (s : State) (c : CallId) (call : StartCall) : State :=
  { s with starts := Function.update s.starts c (some call) }

def setBid (s : State) (c : CallId) (call : BidCall) : State :=
  { s with bids := Function.update s.bids c (some call) }

def setTask (s : State) (g : CallId) (intent : Ref Intent) (phase : Phase) : State :=
  { s with tasks := Function.update s.tasks g (some { intent, phase }) }

def setAuction (s : State) (id : IntentID) (bids : Option (List Bid)) : State :=
  { s with auctions := Function.update s.auctions id bids }

def setChan (s : State) (voucherCh : Chan Voucher) : State := { s with voucherCh }

end State

/-- `StartAuction`, all of it. -/
def start (s : State) (c : CallId) (intent : Ref Intent) : State × Option EngineError :=
  match s.auctions intent.val.id with
  | some _ => (s, some (.alreadyActive intent.val.id))
  | none => ((s.setAuction intent.val.id (some [])).setTask c intent .collecting, none)

/-- `SubmitBid`, all of it. -/
def submit (s : State) (bid : Bid) : State × Option EngineError :=
  match checkBid bid with
  | some err => (s, some err)
  | none =>
    match s.auctions bid.intentID with
    | none => (s, some (.notFound bid.intentID))
    | some bids => (s.setAuction bid.intentID (some (bids ++ [bid])), none)

/-- One atomic step. -/
def next (s : State) : Action → Option (State × Option Event)
  | .invokeStart c intent =>
    match s.starts c with
    | none => some (s.setStart c (.entered intent), some (.startInvoked c intent))
    | some _ => none
  | .start c =>
    match s.starts c with
    | some (.entered intent) =>
      let (s', err) := start s c intent
      some (s'.setStart c (.finished intent err), some (.started c intent err))
    | _ => none
  | .returnStart c =>
    match s.starts c with
    | some (.finished _ err) => some (s.setStart c .returned, some (.startReturned c err))
    | _ => none
  | .invokeBid c bid =>
    match s.bids c with
    | none => some (s.setBid c (.entered bid), some (.bidInvoked c bid))
    | some _ => none
  | .submit c =>
    match s.bids c with
    | some (.entered bid) =>
      let (s', err) := submit s bid
      some (s'.setBid c (.finished bid err), some (.submitted c bid err))
    | _ => none
  | .returnBid c =>
    match s.bids c with
    | some (.finished _ err) => some (s.setBid c .returned, some (.bidReturned c err))
    | _ => none
  | .select g =>
    match s.tasks g with
    | some ⟨intent, .collecting⟩ =>
      match selectLoop none ((s.auctions intent.val.id).getD []) with
      | .ok winner => some (s.setTask g intent (.chosen winner), some (.selected g winner))
      | .error _ => none
    | _ => none
  | .send g =>
    match s.tasks g with
    | some ⟨intent, .chosen none⟩ => some (s.setTask g intent .closing, some (.noBids g))
    | some ⟨intent, .chosen (some winner)⟩ =>
      match s.voucherCh.trySend (voucherFor intent winner) with
      | some ch =>
        some ((s.setChan ch).setTask g intent .closing,
          some (.emitted g (voucherFor intent winner)))
      | none => some (s.setTask g intent .closing, some (.dropped g (voucherFor intent winner)))
    | _ => none
  | .cleanup g =>
    match s.tasks g with
    | some ⟨intent, .closing⟩ =>
      some ((s.setAuction intent.val.id none).setTask g intent .done, some (.closed g))
    | _ => none
  | .receive =>
    match s.voucherCh.take with
    | some (v, ch) => some (s.setChan ch, some (.received v))
    | none => none
  | .park =>
    match s.voucherCh.park with
    | some ch => some (s.setChan ch, none)
    | none => none

/-- The engine under one lock, under every interleaving of its calls and its auctions. -/
def system : System State Action Event := ⟨next⟩

/-- **What one step can do.** -/
inductive Step (s : State) : Action → State → Option Event → Prop
  | invokeStart {c intent} (fresh : s.starts c = none) :
      Step s (.invokeStart c intent) (s.setStart c (.entered intent))
        (some (.startInvoked c intent))
  | start {c intent s' err} (call : s.starts c = some (.entered intent))
      (effect : start s c intent = (s', err)) :
      Step s (.start c) (s'.setStart c (.finished intent err)) (some (.started c intent err))
  | returnStart {c intent err} (call : s.starts c = some (.finished intent err)) :
      Step s (.returnStart c) (s.setStart c .returned) (some (.startReturned c err))
  | invokeBid {c bid} (fresh : s.bids c = none) :
      Step s (.invokeBid c bid) (s.setBid c (.entered bid)) (some (.bidInvoked c bid))
  | submit {c bid s' err} (call : s.bids c = some (.entered bid))
      (effect : submit s bid = (s', err)) :
      Step s (.submit c) (s'.setBid c (.finished bid err)) (some (.submitted c bid err))
  | returnBid {c bid err} (call : s.bids c = some (.finished bid err)) :
      Step s (.returnBid c) (s.setBid c .returned) (some (.bidReturned c err))
  | select {g intent winner} (task : s.tasks g = some ⟨intent, .collecting⟩)
      (loop : selectLoop none ((s.auctions intent.val.id).getD []) = .ok winner) :
      Step s (.select g) (s.setTask g intent (.chosen winner)) (some (.selected g winner))
  | noBids {g intent} (task : s.tasks g = some ⟨intent, .chosen none⟩) :
      Step s (.send g) (s.setTask g intent .closing) (some (.noBids g))
  | emit {g intent winner ch} (task : s.tasks g = some ⟨intent, .chosen (some winner)⟩)
      (sent : s.voucherCh.trySend (voucherFor intent winner) = some ch) :
      Step s (.send g) ((s.setChan ch).setTask g intent .closing)
        (some (.emitted g (voucherFor intent winner)))
  | drop {g intent winner} (task : s.tasks g = some ⟨intent, .chosen (some winner)⟩)
      (full : s.voucherCh.trySend (voucherFor intent winner) = none) :
      Step s (.send g) (s.setTask g intent .closing)
        (some (.dropped g (voucherFor intent winner)))
  | cleanup {g intent} (task : s.tasks g = some ⟨intent, .closing⟩) :
      Step s (.cleanup g) ((s.setAuction intent.val.id none).setTask g intent .done)
        (some (.closed g))
  | receive {v ch} (taken : s.voucherCh.take = some (v, ch)) :
      Step s .receive (s.setChan ch) (some (.received v))
  | park {ch} (parked : s.voucherCh.park = some ch) : Step s .park (s.setChan ch) none

/-- **Every step is one of `Step`'s.** -/
theorem next_cases {s s' : State} {a : Action} {o : Option Event} (h : next s a = some (s', o)) :
    Step s a s' o := by
  cases a with
  | invokeStart c intent =>
    simp only [next] at h
    split at h <;> cases h
    exact .invokeStart ‹_›
  | start c =>
    simp only [next] at h
    split at h <;> cases h
    exact .start ‹_› rfl
  | returnStart c =>
    simp only [next] at h
    split at h <;> cases h
    exact .returnStart ‹_›
  | invokeBid c bid =>
    simp only [next] at h
    split at h <;> cases h
    exact .invokeBid ‹_›
  | submit c =>
    simp only [next] at h
    split at h <;> cases h
    exact .submit ‹_› rfl
  | returnBid c =>
    simp only [next] at h
    split at h <;> cases h
    exact .returnBid ‹_›
  | select g =>
    simp only [next] at h
    split at h
    · split at h <;> cases h
      exact .select ‹_› ‹_›
    · cases h
  | send g =>
    simp only [next] at h
    split at h
    · cases h
      exact .noBids ‹_›
    · split at h <;> cases h
      · exact .emit ‹_› ‹_›
      · exact .drop ‹_› ‹_›
    · cases h
  | cleanup g =>
    simp only [next] at h
    split at h <;> cases h
    exact .cleanup ‹_›
  | receive =>
    simp only [next] at h
    split at h <;> cases h
    exact .receive ‹_›
  | park =>
    simp only [next] at h
    split at h <;> cases h
    exact .park ‹_›

/-- One atomic step, as a run. -/
theorem path_of_next {s s' : State} {a : Action} {o : Option Event}
    (h : next s a = some (s', o)) : system.Path s o.toList s' :=
  System.Path.single (M := system) (a := a) h

/-! ## Each call takes effect once, between its invocation and its return -/

/-- The call of `StartAuction` that an event belongs to. -/
def Event.startCall? : Event → Option CallId
  | .startInvoked c _ => some c
  | .started c _ _ => some c
  | .startReturned c _ => some c
  | _ => none

/-- The call of `SubmitBid` that an event belongs to. -/
def Event.bidCall? : Event → Option CallId
  | .bidInvoked c _ => some c
  | .submitted c _ _ => some c
  | .bidReturned c _ => some c
  | _ => none

/-- What a call has shown, by where it stands, when its three steps show `invoked`, `effect` and
`returned`. -/
def Course {α : Type} (invoked : CallId → α → Event)
    (effect : CallId → α → Option EngineError → Event)
    (returned : CallId → Option EngineError → Event) (c : CallId) :
    Option (Call α) → List Event → Prop
  | none, l => l = []
  | some (.entered a), l => l = [invoked c a]
  | some (.finished a err), l => l = [invoked c a, effect c a err]
  | some .returned, l => ∃ a err, l = [invoked c a, effect c a err, returned c err]

abbrev StartCourse := Course Event.startInvoked Event.started Event.startReturned

abbrev BidCourse := Course Event.bidInvoked Event.submitted Event.bidReturned

/-- A course that contains the return is complete. -/
theorem Course.of_returned {α : Type} {invoked : CallId → α → Event}
    {effect : CallId → α → Option EngineError → Event}
    {returned : CallId → Option EngineError → Event} {c : CallId} {call : Option (Call α)}
    {l : List Event} {err : Option EngineError} (h : Course invoked effect returned c call l)
    (mem : returned c err ∈ l) (new : ∀ a, returned c err ≠ invoked c a)
    (late : ∀ a e, returned c err ≠ effect c a e)
    (inj : ∀ e, returned c err = returned c e → err = e) :
    ∃ a, l = [invoked c a, effect c a err, returned c err] := by
  cases call with
  | none => rw [show l = [] from h] at mem; cases mem
  | some call =>
    cases call with
    | entered a => rw [show l = _ from h] at mem; simp [new] at mem
    | finished a e => rw [show l = _ from h] at mem; simp [new, late] at mem
    | returned =>
      obtain ⟨a, e, rfl⟩ := h
      have heq : returned c err = returned c e := by simpa [new, late] using mem
      rw [inj e heq]
      exact ⟨a, rfl⟩

/-- The effect of `StartAuction` moves no call. -/
theorem start_calls {s s' : State} {c : CallId} {intent : Ref Intent} {err : Option EngineError}
    (effect : start s c intent = (s', err)) : s'.starts = s.starts ∧ s'.bids = s.bids := by
  unfold start at effect
  split at effect <;> cases effect <;> exact ⟨rfl, rfl⟩

/-- The effect of `SubmitBid` moves no call. -/
theorem submit_calls {s s' : State} {bid : Bid} {err : Option EngineError}
    (effect : submit s bid = (s', err)) : s'.starts = s.starts ∧ s'.bids = s.bids := by
  unfold submit at effect
  split at effect
  · cases effect
    exact ⟨rfl, rfl⟩
  · split at effect <;> cases effect <;> exact ⟨rfl, rfl⟩

/-- Calls of `StartAuction` write their own courses, and nothing else does. -/
theorem startCourse_step {tr : List Event} {s s' : State} {a : Action} {o : Option Event}
    (h : Told Event.startCall? StartCourse s.starts tr) (step : Step s a s' o) :
    Told Event.startCall? StartCourse s'.starts (tr ++ o.toList) := by
  cases step with
  | invokeStart fresh =>
    refine h.write fresh rfl (by intro e he; cases he; rfl) ?_
    intro l hl
    rw [show l = [] from hl]
    rfl
  | start call effect =>
    refine h.write call (by rw [State.setStart, (start_calls effect).1])
      (by intro e he; cases he; rfl) ?_
    intro l hl
    rw [show l = _ from hl]
    rfl
  | @returnStart c intent err call =>
    refine h.write call rfl (by intro e he; cases he; rfl) ?_
    intro l hl
    exact ⟨intent, err, by rw [show l = _ from hl]; rfl⟩
  | submit _ effect => exact h.silent (submit_calls effect).1 (by intro e he; cases he; rfl)
  | invokeBid _ | returnBid _ | select _ _ | noBids _ | emit _ _ | drop _ _ | cleanup _
  | receive _ | park _ => exact h.silent rfl (by intro e he; cases he <;> rfl)

/-- Calls of `SubmitBid` write their own courses, and nothing else does. -/
theorem bidCourse_step {tr : List Event} {s s' : State} {a : Action} {o : Option Event}
    (h : Told Event.bidCall? BidCourse s.bids tr) (step : Step s a s' o) :
    Told Event.bidCall? BidCourse s'.bids (tr ++ o.toList) := by
  cases step with
  | invokeBid fresh =>
    refine h.write fresh rfl (by intro e he; cases he; rfl) ?_
    intro l hl
    rw [show l = [] from hl]
    rfl
  | submit call effect =>
    refine h.write call (by rw [State.setBid, (submit_calls effect).2])
      (by intro e he; cases he; rfl) ?_
    intro l hl
    rw [show l = _ from hl]
    rfl
  | @returnBid c bid err call =>
    refine h.write call rfl (by intro e he; cases he; rfl) ?_
    intro l hl
    exact ⟨bid, err, by rw [show l = _ from hl]; rfl⟩
  | start _ effect => exact h.silent (start_calls effect).2 (by intro e he; cases he; rfl)
  | invokeStart _ | returnStart _ | select _ _ | noBids _ | emit _ _ | drop _ _ | cleanup _
  | receive _ | park _ => exact h.silent rfl (by intro e he; cases he <;> rfl)

theorem courses {cap : Nat} {tr : List Event} {s : State} (h : system.Path (.init cap) tr s) :
    Told Event.startCall? StartCourse s.starts tr ∧ Told Event.bidCall? BidCourse s.bids tr := by
  induction h with
  | nil => exact ⟨fun _ => rfl, fun _ => rfl⟩
  | snoc _ _ step ih =>
    have hstep := next_cases step
    exact ⟨startCourse_step ih.1 hstep, bidCourse_step ih.2 hstep⟩

/-- A call of `StartAuction` that returned took effect once, in between, with the result it
returned. -/
theorem start_linearized {cap : Nat} {tr : List Event} {s : State} {c : CallId}
    {err : Option EngineError} (h : system.Path (.init cap) tr s)
    (returned : .startReturned c err ∈ tr) :
    ∃ intent, journal Event.startCall? c tr =
      [.startInvoked c intent, .started c intent err, .startReturned c err] := by
  have hmem : .startReturned c err ∈ journal Event.startCall? c tr :=
    mem_journal.mpr ⟨returned, rfl⟩
  exact Course.of_returned ((courses h).1 c) hmem (by simp) (by simp) (by simp)

/-- A call of `SubmitBid` that returned took effect once, in between, with the result it
returned. -/
theorem bid_linearized {cap : Nat} {tr : List Event} {s : State} {c : CallId}
    {err : Option EngineError} (h : system.Path (.init cap) tr s)
    (returned : .bidReturned c err ∈ tr) :
    ∃ bid, journal Event.bidCall? c tr =
      [.bidInvoked c bid, .submitted c bid err, .bidReturned c err] := by
  have hmem : .bidReturned c err ∈ journal Event.bidCall? c tr :=
    mem_journal.mpr ⟨returned, rfl⟩
  exact Course.of_returned ((courses h).2 c) hmem (by simp) (by simp) (by simp)

end VynxRelayer.Auction.Coarse
