import VynxRelayer.Auction.Lifecycle
import VynxRelayer.Lib.Work

/-!
# How the engine comes to rest

A call that is made and an auction that is registered have a bounded number of steps before them.
`State.work` adds them up, each weighed so that what a step sets off in others costs less than the
step itself: `Step.uses` says, for every step, how much of it is used up.

An engine that none of its own steps can move (`Still`) has nothing left to do: its calls are about
to return or have returned, its goroutines are done, and its map is empty.
-/

namespace VynxRelayer.Auction

open Lib State

/-! ## The work of an engine -/

/-- What a goroutine has before it. It pays for the voucher it sends. -/
def Phase.work : Phase → Nat
  | .launching => 11
  | .waiting => 11
  | .fired => 10
  | .located _ => 9
  | .chosen _ => 8
  | .closing => 1
  | .done => 0
  | .panicked => 0

/-- What a call of `StartAuction` has before it. It pays for the goroutine it launches. -/
def StartCall.work : StartCall → Nat
  | .entered _ => 14
  | .registered _ => 2
  | .finished _ _ => 1
  | .returned => 0

/-- What a call of `SubmitBid` has before it. -/
def BidCall.work : BidCall → Nat
  | .entered _ => 3
  | .located _ _ => 2
  | .finished _ _ => 1
  | .returned => 0

def Task.work (task : Task) : Nat := task.phase.work

/-- What a voucher that waits on its channel has before it. -/
def voucherWork (_ : Voucher) : Nat := 5

namespace State

/-- The names of the calls and goroutines lie below `N`. -/
structure Within (N : Nat) (s : State) : Prop where
  starts : Keys N s.starts
  bids : Keys N s.bids
  tasks : Keys N s.tasks

/-- The work an engine with names below `N` has before it. -/
def work (N : Nat) (s : State) : Nat :=
  weight N StartCall.work s.starts + weight N BidCall.work s.bids +
    weight N Task.work s.tasks + s.engine.voucherCh.load voucherWork

variable {N M : Nat} {s : State}

theorem Within.mono (h : s.Within N) (le : N ≤ M) : s.Within M :=
  ⟨h.starts.mono le, h.bids.mono le, h.tasks.mono le⟩

/-! ### Moves of one thread -/

theorem Within.work_setStart (within : s.Within N) {c : CallId} {old : StartCall}
    (stood : s.starts c = some old) (new : StartCall) :
    (s.setStart c new).work N + old.work = s.work N + new.work := by
  have h := within.starts.weight_move (w := StartCall.work) (v := new) stood
  simp only [work, setStart]
  omega

theorem Within.work_setBid (within : s.Within N) {c : CallId} {old : BidCall}
    (stood : s.bids c = some old) (new : BidCall) :
    (s.setBid c new).work N + old.work = s.work N + new.work := by
  have h := within.bids.weight_move (w := BidCall.work) (v := new) stood
  simp only [work, setBid]
  omega

theorem Within.work_setTask (within : s.Within N) {g : CallId} {intent : Ref Intent} {old : Phase}
    (stood : s.tasks g = some ⟨intent, old⟩) (new : Phase) :
    (s.setTask g intent new).work N + old.work = s.work N + new.work := by
  have h := within.tasks.weight_move (w := Task.work) (v := ⟨intent, new⟩) stood
  simp only [work, setTask]
  simp only [Task.work] at h ⊢
  omega

/-- A call of `StartAuction` moves on. -/
theorem Within.start_moves (within : s.Within N) {c : CallId} {old new : StartCall}
    (stood : s.starts c = some old) (less : new.work < old.work) :
    (s.setStart c new).work N + 1 ≤ s.work N := by
  have h := within.work_setStart stood new
  omega

/-- A call of `SubmitBid` moves on. -/
theorem Within.bid_moves (within : s.Within N) {c : CallId} {old new : BidCall}
    (stood : s.bids c = some old) (less : new.work < old.work) :
    (s.setBid c new).work N + 1 ≤ s.work N := by
  have h := within.work_setBid stood new
  omega

/-- A goroutine moves on. -/
theorem Within.task_moves (within : s.Within N) {g : CallId} {intent : Ref Intent}
    {old new : Phase} (stood : s.tasks g = some ⟨intent, old⟩) (less : new.work < old.work) :
    (s.setTask g intent new).work N + 1 ≤ s.work N := by
  have h := within.work_setTask stood new
  omega

theorem work_newTask {g : CallId} (below : g < N) (free : s.tasks g = none) (intent : Ref Intent)
    (phase : Phase) : (s.setTask g intent phase).work N = s.work N + phase.work := by
  have h := weight_new (w := Task.work) (v := ⟨intent, phase⟩) below free
  simp only [work, setTask, h]
  simp only [Task.work]
  omega

/-- Sections that leave the voucher channel alone use up no work themselves. -/
theorem work_setEngine {engine : Engine} (same : engine.voucherCh = s.engine.voucherCh) :
    (s.setEngine engine).work N = s.work N := by
  simp only [work, setEngine, same]

theorem work_setChan (ch : Chan Voucher) :
    (s.setChan ch).work N + s.engine.voucherCh.load voucherWork =
      s.work N + ch.load voucherWork := by
  simp only [work, setChan]
  omega

end State

/-! ## What a step uses up -/

/-- The name a step gives to a new call. -/
def Action.names : Action → Option CallId
  | .invokeStart c _ => some c
  | .invokeBid c _ => some c
  | _ => none

/-- The work a step brings in. -/
def Action.brings : Action → Nat
  | .invokeStart _ _ => 14
  | .invokeBid _ _ => 3
  | _ => 0

/-- The work a step does. -/
def Action.does : Action → Nat
  | .invokeStart _ _ => 0
  | .invokeBid _ _ => 0
  | .receive => 5
  | _ => 1

variable {N : Nat} {s s' : State} {a : Action} {o : Option Event}

/-- The names stay below a bound that holds for the new ones. -/
theorem Step.within (step : Step s a s' o) (within : s.Within N)
    (below : ∀ c, a.names = some c → c < N) : s'.Within N := by
  cases step with
  | invokeStart _ => exact { within with starts := within.starts.update (below _ rfl) }
  | invokeBid _ => exact { within with bids := within.bids.update (below _ rfl) }
  | refuse call _ | returnStart call => exact { within with starts := within.starts.move call }
  | register call _ | launch call =>
    exact { within with
      starts := within.starts.move call
      tasks := within.tasks.update (within.starts _ _ call) }
  | checkFails call _ | miss call _ _ | locate call _ _ | append call | returnBid call =>
    exact { within with bids := within.bids.move call }
  | fireTimer task | lookupWinner task | selectNil task | select task _ _ | selectPanics task _ _
  | noBids task | emit task _ | drop task _ | cleanup task =>
    exact { within with tasks := within.tasks.move task }
  | receive _ | park _ => exact { within with }

/-- **What a step does to the work.** -/
theorem Step.uses (step : Step s a s' o) (consistent : Consistent s) (within : s.Within N)
    (below : ∀ c, a.names = some c → c < N) : s'.work N + a.does ≤ s.work N + a.brings := by
  cases step with
  | @invokeStart c intent fresh =>
    have h := weight_new (w := StartCall.work) (v := .entered intent) (below c rfl) fresh
    simp only [State.work, setStart, h, StartCall.work, Action.does, Action.brings]
    omega
  | @invokeBid c bid fresh =>
    have h := weight_new (w := BidCall.work) (v := .entered bid) (below c rfl) fresh
    simp only [State.work, setBid, h, BidCall.work, Action.does, Action.brings]
    omega
  | refuse call _ | returnStart call =>
    exact within.start_moves call (by simp only [StartCall.work]; decide)
  | @register c intent call free =>
    -- the registration pays for the goroutine
    have hbelow := within.starts c _ call
    have hfree : (s.setEngine (s.engine.insert c intent)).tasks c = none :=
      consistent.unborn c (.inr ⟨intent, call⟩)
    have hsame : (s.setEngine (s.engine.insert c intent)).work N = s.work N := work_setEngine rfl
    have htask := work_newTask hbelow hfree intent .launching
    have hwithin : ((s.setEngine (s.engine.insert c intent)).setTask c intent .launching).Within N :=
      { within with tasks := within.tasks.update hbelow }
    have hstart := hwithin.work_setStart call (.registered intent)
    simp only [Phase.work] at htask
    simp only [StartCall.work] at hstart
    simp only [Action.does, Action.brings]
    omega
  | @launch c intent call =>
    have htask := within.work_setTask (consistent.launching c intent call) .waiting
    have hwithin : (s.setTask c intent .waiting).Within N :=
      { within with tasks := within.tasks.update (within.starts c _ call) }
    have hstart := hwithin.work_setStart call (.finished intent none)
    simp only [Phase.work] at htask
    simp only [StartCall.work] at hstart
    simp only [Action.does, Action.brings]
    omega
  | checkFails call _ | miss call _ _ | locate call _ _ | returnBid call =>
    exact within.bid_moves call (by simp only [BidCall.work]; decide)
  | @append c bid p call =>
    have hsame : (s.setEngine (s.engine.appendBid p bid)).work N = s.work N := work_setEngine rfl
    have hwithin : (s.setEngine (s.engine.appendBid p bid)).Within N := { within with }
    rw [← hsame]
    exact hwithin.bid_moves call (by simp only [BidCall.work]; decide)
  | fireTimer task | lookupWinner task | selectNil task | select task _ _ | selectPanics task _ _
  | noBids task | drop task _ =>
    exact within.task_moves task (by simp only [Phase.work]; decide)
  | @emit g intent winner ch task sent =>
    have hsend := Chan.load_trySend (w := voucherWork) sent
    have hchan := work_setChan (N := N) (s := s) ch
    have hwithin : (s.setChan ch).Within N := { within with }
    have htask := hwithin.work_setTask task .closing
    simp only [Phase.work] at htask
    simp only [voucherWork] at hsend
    simp only [Action.does, Action.brings]
    omega
  | @cleanup g intent task =>
    have hsame : (s.setEngine (s.engine.cleanup intent.val.id)).work N = s.work N :=
      work_setEngine rfl
    have hwithin : (s.setEngine (s.engine.cleanup intent.val.id)).Within N := { within with }
    rw [← hsame]
    exact hwithin.task_moves task (by simp only [Phase.work]; decide)
  | @receive v ch taken =>
    have htake := Chan.load_take (w := voucherWork) taken
    have hchan := work_setChan (N := N) (s := s) ch
    simp only [voucherWork] at htake
    simp only [Action.does, Action.brings]
    omega
  | @park ch parked =>
    have hpark := Chan.load_park (w := voucherWork) parked
    have hchan := work_setChan (N := N) (s := s) ch
    simp only [Action.does, Action.brings]
    omega

/-! ## An engine without moves -/

/-- A goroutine that is not launched has its call about to launch it. -/
def Launchable (s : State) : Prop :=
  ∀ g intent, s.tasks g = some ⟨intent, .launching⟩ → s.starts g = some (.registered intent)

theorem launchable {cap : Nat} {tr : List Event} (h : system.Path (.init cap) tr s) :
    Launchable s := by
  refine preserved (I := Launchable) h (by intro g intent hg; cases hg) ?_
  intro s a s' o ih step g intent htask
  -- a call at its registration is moved by its launch only, which moves the goroutine as well
  have hcall : ∀ c old new, s.starts c = some old → (∀ i, old ≠ .registered i) →
      s.tasks g = some ⟨intent, .launching⟩ →
      Function.update s.starts c (some new) g = some (.registered intent) := by
    intro c old new stood hold ht
    refine update_some_eq_some.mpr (.inr ⟨?_, ih g intent ht⟩)
    rintro rfl
    rw [ih g intent ht] at stood
    cases stood
    exact hold intent rfl
  have hmoved : ∀ c i phase, phase ≠ Phase.launching →
      Function.update s.tasks c (some ⟨i, phase⟩) g = some ⟨intent, .launching⟩ →
      g ≠ c ∧ s.tasks g = some ⟨intent, .launching⟩ := by
    intro c i phase hne ht
    rcases update_some_eq_some.mp ht with ⟨_, heq⟩ | ⟨hother, ht⟩
    · cases heq
      exact absurd rfl hne
    · exact ⟨hother, ht⟩
  cases step with
  | invokeStart fresh =>
    refine update_some_eq_some.mpr (.inr ⟨?_, ih g intent htask⟩)
    rintro rfl
    rw [ih g intent htask] at fresh
    cases fresh
  | refuse call _ | returnStart call => exact hcall _ _ _ call (by simp) htask
  | register call _ =>
    rcases update_some_eq_some.mp htask with ⟨rfl, heq⟩ | ⟨_, ht⟩
    · cases heq
      exact Function.update_self ..
    · exact hcall _ _ _ call (by simp) ht
  | launch call =>
    obtain ⟨hother, ht⟩ := hmoved _ _ _ (by simp) htask
    exact update_some_eq_some.mpr (.inr ⟨hother, ih g intent ht⟩)
  | fireTimer _ | lookupWinner _ | selectNil _ | select _ _ _ | selectPanics _ _ _ | noBids _
  | emit _ _ | drop _ _ | cleanup _ => exact ih g intent (hmoved _ _ _ (by simp) htask).2
  | invokeBid _ | checkFails _ _ | miss _ _ _ | locate _ _ _ | append _ | returnBid _ | receive _
  | park _ => exact ih g intent htask

/-- No goroutine and no critical section of the engine can move. -/
structure Still (s : State) : Prop where
  register : ∀ c, next s (.register c) = none
  launch : ∀ c, next s (.launch c) = none
  lookupBid : ∀ c, next s (.lookupBid c) = none
  appendBid : ∀ c, next s (.appendBid c) = none
  fireTimer : ∀ g, next s (.fireTimer g) = none
  lookupWinner : ∀ g, next s (.lookupWinner g) = none
  selectWinner : ∀ g, next s (.selectWinner g) = none
  publish : ∀ g, next s (.publish g) = none
  cleanup : ∀ g, next s (.cleanup g) = none

/-- In an engine that is still, a call of `StartAuction` is about to return or has returned. -/
theorem Still.start (still : Still s) {c : CallId} {call : StartCall}
    (stands : s.starts c = some call) : (∃ i err, call = .finished i err) ∨ call = .returned := by
  cases call with
  | entered intent =>
    have h := still.register c
    simp only [next, stands] at h
    split at h <;> cases h
  | registered intent =>
    have h := still.launch c
    simp only [next, stands] at h
    cases h
  | finished i err => exact .inl ⟨i, err, rfl⟩
  | returned => exact .inr rfl

/-- In an engine that is still, a call of `SubmitBid` is about to return or has returned. -/
theorem Still.bid (still : Still s) {c : CallId} {call : BidCall} (stands : s.bids c = some call) :
    (∃ b err, call = .finished b err) ∨ call = .returned := by
  cases call with
  | entered bid =>
    have h := still.lookupBid c
    simp only [next, stands] at h
    split at h
    · cases h
    · split at h <;> cases h
  | located bid p =>
    have h := still.appendBid c
    simp only [next, stands] at h
    cases h
  | finished b err => exact .inl ⟨b, err, rfl⟩
  | returned => exact .inr rfl

/-- In an engine that is still, every goroutine is done. -/
theorem Still.task (still : Still s) (hc : Consistent s) (launchable : Launchable s) {g : CallId}
    {task : Task} (stands : s.tasks g = some task) : task.phase = .done := by
  obtain ⟨intent, phase⟩ := task
  cases phase with
  | launching =>
    have hlaunch := still.launch g
    simp only [next, launchable g intent stands] at hlaunch
    cases hlaunch
  | waiting =>
    have hfire := still.fireTimer g
    simp only [next, stands] at hfire
    cases hfire
  | fired =>
    have hlookup := still.lookupWinner g
    simp only [next, stands] at hlookup
    cases hlookup
  | located p =>
    obtain rfl := hc.own g intent p stands
    obtain ⟨entry, hentry, _⟩ := hc.object g _ stands
    have hselect := still.selectWinner g
    simp only [next, stands, hentry, hc.selectLoop hentry] at hselect
    cases hselect
  | chosen winner =>
    have hpublish := still.publish g
    cases winner with
    | none =>
      simp only [next, stands] at hpublish
      cases hpublish
    | some winner =>
      simp only [next, stands] at hpublish
      split at hpublish <;> cases hpublish
  | closing =>
    have hcleanup := still.cleanup g
    simp only [next, stands] at hcleanup
    cases hcleanup
  | done => rfl
  | panicked => exact absurd rfl (hc.sound g _ stands)

/-- In an engine that is still, no auction is left in the map. -/
theorem Still.auctions (still : Still s) (hc : Consistent s) (launchable : Launchable s)
    (id : IntentID) : s.engine.auctions id = none := by
  cases hid : s.engine.auctions id with
  | none => rfl
  | some p =>
    obtain ⟨task, htask, hlive, _⟩ := hc.owner id p hid
    exact absurd (still.task hc launchable htask) hlive

end VynxRelayer.Auction
