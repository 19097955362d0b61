import VynxRelayer.Relayer.Cancellation

/-!
# How a shutdown ends

After the cancellation the workers may go on receiving for as long as `select` lets them, and
handlers, auctions and pumps have to come to their ends by themselves. They do: what the relayer
does by itself is bounded as before, leaving included (`shutdown_ends`), and where nothing is left
to do every worker has returned. `main` does not wait for that: the process may end earlier.

What is lost then is exactly what the workers left behind. An intent that was answered 202 has come
to one of its final stages, or it is still on `intentCh`, or its voucher is still on `voucherCh`
(`halted_accounts`). The first of the two is not a matter of bad luck: handlers are not told of the
cancellation, so every intent accepted after the dispatcher has returned is answered 202 and stays
where it is (`stranded_after_stop`).
-/

namespace VynxRelayer.Relayer

open Lib Auction Ingress TxManager

variable {p : Platform} {buf : Buffers} {q : NonceQueue} {N M : Nat}

/-! ## What a parked receiver does not change -/

/-- What holds of a state whose receivers park late holds of the state. -/
theorem Sane.of_awake {s : State} (h : Sane s.awake) : Sane s where
  engine := { h.engine with }
  launchable := h.launchable
  hub := h.hub
  ready := h.ready
  carried := h.carried
  uncalled := by
    intro intent hi
    have hpending : intent ∈ s.intentCh.awake.pending := by rwa [Chan.pending_awake]
    exact h.uncalled intent hpending
  numbered := by
    obtain ⟨hfresh, hbelow, huncalled, hdistinct⟩ := h.numbered
    have hpending : s.awake.bidCh.pending = s.bidCh.pending := Chan.pending_awake
    rw [hpending] at hbelow huncalled hdistinct
    exact ⟨hfresh, hbelow, huncalled, hdistinct⟩
  starts := h.starts
  bids := h.bids

theorem tally_awake (tr : List Event) (s : State) (h : HandlerId) (stage : Stage) :
    tally tr s.awake h stage = tally tr s h stage := by
  have hintents : s.awake.intentCh.pending = s.intentCh.pending := Chan.pending_awake
  have hvouchers : s.awake.engine.engine.voucherCh.pending = s.engine.engine.voucherCh.pending :=
    Chan.pending_awake
  cases stage with
  | queued => simp only [tally, hintents]; rfl
  | voucherQueued => simp only [tally, hvouchers]
  | _ => rfl

/-- Where every handler is done, a push was answered 202. -/
theorem answered_of_enqueued {tr : List Event} {s : State}
    (path : (system p).Path (.init buf q) tr s) {h : HandlerId} {intent : Ref Intent}
    (enqueued : .enqueued h intent ∈ tr)
    (done : ∀ h handler, s.handlers h = some handler → handler = .done) :
    .replied h (.accepted intent.val.id.bytes) ∈ tr := by
  have hcourse := handlerCourses path h
  obtain ⟨_, rest, hrest, hl⟩ := enqueued_course path enqueued
  obtain ⟨handler, hh⟩ := handler_of_enqueued path enqueued
  rw [hh, done h handler hh, hl] at hcourse
  -- after its push a handler that is done has written its answer
  have hrest : rest = [.replied h (.accepted intent.val.id.bytes)] := by
    rcases hcourse with ⟨i, _, heq⟩ | ⟨response, _, heq⟩
    · cases heq
      rfl
    · cases heq
  have hmem : .replied h (.accepted intent.val.id.bytes) ∈ journal Event.handler? h tr := by
    rw [hl, hrest]
    exact List.mem_cons_of_mem _ List.mem_cons_self
  exact (mem_journal.mp hmem).1

namespace Shutdown

variable {tr tr' : List Event} {s s' t : State} {a : Action} {o : Option Event}

theorem sane_relayer (path : (system p).Path (.init buf q) tr s) : Sane s.relayer :=
  (sane (traces path).1).of_awake

/-! ## Who has returned -/

/-- A worker that has returned had left its channel. -/
structure Gone (s : State) : Prop where
  intents : s.stopped .intentDispatcher = true → s.relayer.intentDispatcher = .waiting
  bids : s.stopped .bidDispatcher = true → s.relayer.bidDispatcher = .waiting
  vouchers : s.stopped .executor = true → s.relayer.executor = .waiting

/-- A worker that has returned does not come back. -/
theorem stopped_update {stopped : Worker → Bool} {w w' : Worker} (h : stopped w = true) :
    Function.update stopped w' true w = true := by
  by_cases hw : w = w'
  · rw [hw, Function.update_self]
  · rw [Function.update_of_ne hw, h]

/-- A worker that has returned takes no step. -/
theorem running_of_may {b : Relayer.Action} {w : Worker} (may : s.barred b = false)
    (mine : worker? b = some w) : s.stopped w = false := by
  cases b <;> simp_all [State.barred, worker?]

/-- A step of somebody else leaves a worker where it stands. -/
theorem stands_of_other {r r' : Relayer.State} {b : Relayer.Action} {o : Option Relayer.Event}
    (step : Relayer.Step p r b r' o) :
    (worker? b ≠ some .intentDispatcher → r'.intentDispatcher = r.intentDispatcher) ∧
      (worker? b ≠ some .bidDispatcher → r'.bidDispatcher = r.bidDispatcher) ∧
      (worker? b ≠ some .executor → r'.executor = r.executor) := by
  cases step with
  | dispatchIntent _ _ _ | returnIntent _ _ | parkIntent _ _ =>
    exact ⟨fun h => absurd rfl h, fun _ => rfl, fun _ => rfl⟩
  | dispatchBid _ _ _ | returnBid _ _ | parkBid _ _ =>
    exact ⟨fun _ => rfl, fun h => absurd rfl h, fun _ => rfl⟩
  | receive _ _ | parkExecutor _ _ | settle _ _ _ | fail _ _ _ | notify _ _ | notifyDropped _ _ =>
    exact ⟨fun _ => rfl, fun _ => rfl, fun h => absurd rfl h⟩
  | refuse _ _ | accept _ _ | push _ _ | atCapacity _ _ | replyAccepted _ _ | replyError _ | hub _
  | ignore _ _ | readBid _ _ _ | dropBid _ _ _ | engine _ _ | drain _ | parkDrain _ =>
    exact ⟨fun _ => rfl, fun _ => rfl, fun _ => rfl⟩

theorem Gone.step (gone : Gone s) (step : Step p s a s' o) : Gone s' := by
  cases step with
  | @relayer b r o may move =>
    obtain ⟨hintents, hbids, hvouchers⟩ := stands_of_other (Relayer.next_cases move)
    have hother : ∀ w, s.stopped w = true → worker? b ≠ some w := by
      intro w hw hb
      rw [running_of_may may hb] at hw
      cases hw
    exact ⟨fun h => (hintents (hother _ h)).trans (gone.intents h),
      fun h => (hbids (hother _ h)).trans (gone.bids h),
      fun h => (hvouchers (hother _ h)).trans (gone.vouchers h)⟩
  | cancel _ => exact { gone with }
  | @closeHub r o _ _ move =>
    obtain ⟨hintents, hbids, hvouchers⟩ := stands_of_other (Relayer.next_cases move)
    exact ⟨fun h => (hintents (by simp [worker?])).trans (gone.intents h),
      fun h => (hbids (by simp [worker?])).trans (gone.bids h),
      fun h => (hvouchers (by simp [worker?])).trans (gone.vouchers h)⟩
  | @stop w r _ _ left =>
    cases leave_cases left with
    | intentDispatcher waiting _ => exact ⟨fun _ => waiting, gone.bids, gone.vouchers⟩
    | bidDispatcher waiting _ => exact ⟨gone.intents, fun _ => waiting, gone.vouchers⟩
    | executor waiting _ => exact ⟨gone.intents, gone.bids, fun _ => waiting⟩
    | drainer _ => exact ⟨gone.intents, gone.bids, gone.vouchers⟩

theorem gone (path : (system p).Path (.init buf q) tr s) : Gone s :=
  path.preserved ⟨fun h => (nomatch h), fun h => (nomatch h), fun h => (nomatch h)⟩
    fun _ _ _ _ ih step => ih.step (next_cases step)

/-! ## The work of a shutdown -/

def Worker.all : List Worker := [.intentDispatcher, .bidDispatcher, .executor, .drainer]

/-- What the workers have before them: to leave, which may undo their parking. -/
def leaving (stopped : Worker → Bool) : Nat :=
  sumOver (fun w => if stopped w then 0 else 2) Worker.all

theorem leaving_stop {stopped : Worker → Bool} {w : Worker} (runs : stopped w = false) :
    leaving (Function.update stopped w true) + 2 = leaving stopped := by
  cases w <;> simp [leaving, Worker.all, sumOver, runs] <;> omega

/-- The work before a relayer that is being shut down. -/
def State.work (N : Nat) (s : State) : Nat :=
  s.relayer.work N + leaving s.stopped + if s.hubClosed then 0 else 1

/-- The step is one the relayer takes by itself once its context is cancelled. -/
def own (s : State) : Action → Bool
  | .relayer a => Relayer.own s.relayer a
  | .cancel => false
  | .closeHub => true
  | .stop _ => true

/-- A worker that leaves may have been parked, and changes nothing else. -/
theorem Leaves.uses {r r' : Relayer.State} {w : Worker} (leaves : Leaves r w r')
    (within : r.Within N) : r'.work N ≤ r.work N + 1 ∧ r'.Within N := by
  have hload : ∀ {α : Type} {c c' : Chan α} {f : α → Nat}, c.leave = some c' →
      c'.load f ≤ c.load f + 1 := by
    intro α c c' f left
    have hreceiver : (if c'.receiver.isParked = true then 0 else 1) ≤ 1 := by split <;> simp
    simp only [Chan.load, Chan.pending_leave left]
    omega
  cases leaves with
  | intentDispatcher waiting left =>
    have h := hload (f := fun _ => 16) left
    refine ⟨?_, { within with intents := by rw [Chan.pending_leave left]; exact within.intents }⟩
    simp only [Relayer.State.work, Relayer.State.queued]
    omega
  | bidDispatcher waiting left =>
    have h := hload (f := fun _ => 5) left
    refine ⟨?_, { within with }⟩
    simp only [Relayer.State.work, Relayer.State.queued]
    omega
  | @executor ch waiting left =>
    have h := hload (f := voucherWork) left
    have hchan := Auction.State.work_setChan (N := N) (s := r.engine) ch
    refine ⟨?_, { within with engine := { within.engine with } }⟩
    simp only [Relayer.State.work, Relayer.State.queued]
    omega
  | drainer left =>
    have h := hload (f := fun _ => 1) left
    refine ⟨?_, { within with }⟩
    simp only [Relayer.State.work, Relayer.State.queued]
    omega

/-- A state that was reached and is cancelled, with its names below `N`. -/
def Reached (p : Platform) (buf : Buffers) (q : NonceQueue) (N : Nat) (s : State) : Prop :=
  (∃ tr, (system p).Path (.init buf q) tr s) ∧ s.cancelled = true ∧ s.relayer.Within N

theorem reached_uses (p : Platform) (buf : Buffers) (q : NonceQueue) (N : Nat) :
    ∀ s a s' o, Reached p buf q N s → own s a = true → (system p).next s a = some (s', o) →
      Reached p buf q N s' ∧ s'.work N < s.work N := by
  rintro s a s' o ⟨⟨tr, path⟩, cancelled, within⟩ mine step
  have hsane := sane_relayer path
  have hpath : (system p).Path (.init buf q) (tr ++ o.toList) s' := .snoc path trivial step
  cases next_cases step with
  | @relayer b r o may move =>
    have hbelow : s.relayer.named b ≤ N := by
      rw [named_of_own mine]
      exact Nat.zero_le N
    have hless := own_uses hsane within (Relayer.next_cases move) mine
    refine ⟨⟨⟨_, hpath⟩, cancelled, within.step hsane (Relayer.next_cases move) hbelow⟩, ?_⟩
    simp only [State.work]
    omega
  | cancel _ => cases mine
  | @closeHub r o _ isOpen move =>
    have hwithin := within.step hsane (Relayer.next_cases move) (Nat.zero_le N)
    refine ⟨⟨⟨_, hpath⟩, cancelled, hwithin⟩, ?_⟩
    have hsame : r.work N = s.relayer.work N := by
      cases Relayer.next_cases move with
      | hub close =>
        cases Hub.next_cases close with
        | shutdown _ =>
          simp only [Relayer.State.work, hsane.hub.work_closeAll, Relayer.State.queued]
    simp only [State.work, hsame, isOpen, if_true, Bool.false_eq_true, if_false]
    omega
  | @stop w r _ runs left =>
    obtain ⟨hmore, hwithin⟩ := (leave_cases left).uses within
    have hfewer := leaving_stop runs
    refine ⟨⟨⟨_, hpath⟩, cancelled, hwithin⟩, ?_⟩
    simp only [State.work]
    omega

/-! ## A relayer that was shut down -/

/-- **The end of a shutdown**: every worker has returned, every request is answered, every auction
is over, and the hub is closed and idle. -/
structure Halted (s : State) : Prop where
  workers : ∀ w, s.stopped w = true
  hubClosed : s.hubClosed = true
  handlers : ∀ h handler, s.relayer.handlers h = some handler → handler = .done
  hub : s.relayer.hub.Idle
  starts : ∀ c call, s.relayer.engine.starts c = some call → call = .returned
  bids : ∀ c call, s.relayer.engine.bids c = some call → call = .returned
  tasks : ∀ g task, s.relayer.engine.tasks g = some task → task.phase = .done
  auctions : ∀ id, s.relayer.engine.engine.auctions id = none
  executor : s.relayer.executor = .waiting

/-- A receiver that cannot leave has something to receive. -/
theorem take_of_leave {α : Type} {c : Chan α} (stuck : c.leave = none) :
    ∃ v c', c.take = some (v, c') := by
  cases hr : c.receiver with
  | woken v => exact ⟨v, _, by simp only [Chan.take, hr]; rfl⟩
  | parked | running => simp [Chan.leave, hr] at stuck

/-- What a relayer that cannot move cannot do. -/
theorem relayer_stuck (stuck : ∀ a, own s a = true → next p s a = none) {b : Relayer.Action}
    (mine : Relayer.own s.relayer b = true) (may : s.barred b = false) :
    Relayer.next p s.relayer b = none := by
  have h := stuck (.relayer b) mine
  simp only [next, may, Bool.false_eq_true, if_false] at h
  split at h
  · assumption
  · cases h

/-- Where a relayer that cannot move has a worker left, the worker cannot leave. -/
theorem leave_stuck (stuck : ∀ a, own s a = true → next p s a = none)
    (cancelled : s.cancelled = true) {w : Worker} (runs : s.stopped w = false) :
    leave s.relayer w = none := by
  have h := stuck (.stop w) rfl
  simp only [next, cancelled, runs, and_self, if_true] at h
  split at h
  · assumption
  · cases h

theorem halted_of_stuck (path : (system p).Path (.init buf q) tr s) (cancelled : s.cancelled = true)
    (stuck : ∀ a, own s a = true → next p s a = none) : Halted s := by
  have hsane := sane_relayer path
  have hgone := gone path
  have hmoves : ∀ b, Relayer.own s.relayer b = true → s.barred b = false →
      Relayer.next p s.relayer b = none := fun b mine may => relayer_stuck stuck mine may
  -- what is left of a worker that has not returned: it may take its steps
  have hmay : ∀ w, s.stopped w = false → ∀ b, worker? b = some w → s.barred b = false := by
    intro w runs b hb
    cases b <;> simp_all [State.barred, worker?]
  have hstill : Still s.relayer.engine := still_of_stuck fun b => hmoves (.engine b) rfl rfl
  have hidle : s.relayer.hub.Idle := by
    refine hsane.hub_idle fun b hb => hmoves (.hub b) hb ?_
    cases b <;> first | rfl | cases hb
  have hintents : s.relayer.intentDispatcher = .waiting := by
    cases hstop : s.stopped .intentDispatcher with
    | true => exact hgone.intents hstop
    | false =>
      exact hsane.intentDispatcher_waiting hstill (hmoves .returnIntent rfl (hmay _ hstop _ rfl))
  have hbids : s.relayer.bidDispatcher = .waiting := by
    cases hstop : s.stopped .bidDispatcher with
    | true => exact hgone.bids hstop
    | false =>
      exact hsane.bidDispatcher_waiting hstill (hmoves .returnBid rfl (hmay _ hstop _ rfl))
  have hexecutor : s.relayer.executor = .waiting := by
    cases hstop : s.stopped .executor with
    | true => exact hgone.vouchers hstop
    | false =>
      exact executor_waiting (fun out => hmoves (.execute out) rfl (hmay _ hstop _ rfl))
        (hmoves .notify rfl (hmay _ hstop _ rfl))
  refine {
    workers := ?_
    hubClosed := ?_
    handlers := fun h handler =>
      hsane.handler_done hidle (hmoves (.push h) rfl rfl) (hmoves (.reply h) rfl rfl)
    hub := hidle
    starts := fun c call => hsane.starts_returned hintents
    bids := fun c call => hsane.bids_returned hbids
    tasks := fun g task => hstill.task hsane.engine hsane.launchable
    auctions := hstill.auctions hsane.engine hsane.launchable
    executor := hexecutor }
  · -- a worker that cannot leave was handed something, and could take it
    intro w
    cases hstop : s.stopped w with
    | true => rfl
    | false =>
      have hleave := leave_stuck stuck cancelled hstop
      have hworker := hmay w hstop
      cases w with
      | intentDispatcher =>
        simp only [leave, hintents, Option.map_eq_none_iff] at hleave
        obtain ⟨v, c', htake⟩ := take_of_leave hleave
        have hfresh := hsane.uncalled v ((Chan.pending_take htake).1 ▸ List.mem_cons_self)
        have hdispatch := hmoves .dispatchIntent rfl (hworker _ rfl)
        simp [Relayer.next, hintents, htake, onEngine, Auction.next, hfresh] at hdispatch
      | bidDispatcher =>
        simp only [leave, hbids, Option.map_eq_none_iff] at hleave
        obtain ⟨v, c', htake⟩ := take_of_leave hleave
        have hfresh := hsane.numbered.uncalled v ((Chan.pending_take htake).1 ▸ List.mem_cons_self)
        have hdispatch := hmoves .dispatchBid rfl (hworker _ rfl)
        simp [Relayer.next, hbids, htake, onEngine, Auction.next, hfresh] at hdispatch
      | executor =>
        simp only [leave, hexecutor, Option.map_eq_none_iff] at hleave
        obtain ⟨v, c', htake⟩ := take_of_leave hleave
        have hreceive := hmoves .receive rfl (hworker _ rfl)
        simp [Relayer.next, hexecutor, htake, onEngine, Auction.next] at hreceive
      | drainer =>
        simp only [leave, Option.map_eq_none_iff] at hleave
        obtain ⟨v, c', htake⟩ := take_of_leave hleave
        have hdrain := hmoves .drain rfl (hworker _ rfl)
        simp [Relayer.next, htake] at hdrain
  · cases hclosed : s.hubClosed with
    | true => rfl
    | false =>
      have hfree : s.relayer.hub.readers = 0 := by
        refine hsane.hub.free ?_
        intro b intent todo slow hb
        cases hidle.broadcasts b _ hb
      have hclose := stuck .closeHub rfl
      simp [next, cancelled, hclosed, Relayer.next, Hub.next, hfree] at hclose

/-- Every state that is reached has finitely many names. -/
theorem exists_within (path : (system p).Path (.init buf q) tr s) : ∃ N, s.relayer.Within N := by
  obtain ⟨N, within⟩ := Relayer.exists_within (traces path).1
  refine ⟨N, { within with engine := { within.engine with }, intents := ?_ }⟩
  intro intent hi
  have hpending : intent ∈ s.relayer.intentCh.awake.pending := by rwa [Chan.pending_awake]
  exact within.intents intent hpending

/-- The context stays cancelled. -/
theorem cancelled_run {as : List Action} (cancelled : s.cancelled = true)
    (played : (system p).run s as = some (t, tr)) : t.cancelled = true := by
  refine (System.path_of_run played).preserved (I := fun s => s.cancelled = true) cancelled ?_
  intro s a s' o ih step
  cases next_cases step with
  | relayer _ _ | closeHub _ _ _ | stop _ _ _ => exact ih
  | cancel _ => rfl

/-- From every state after the cancellation the shutdown can end. -/
theorem exists_halted (path : (system p).Path (.init buf q) tr s) (cancelled : s.cancelled = true) :
    ∃ as t tr', (system p).run s as = some (t, tr') ∧ (system p).meets own s as = true ∧
      Halted t := by
  obtain ⟨N, within⟩ := exists_within path
  obtain ⟨as, t, tr', hrun, hmeets, hstuck⟩ :=
    System.exists_rest (reached_uses p buf q N) ⟨⟨tr, path⟩, cancelled, within⟩
  exact ⟨as, t, tr', hrun, hmeets,
    halted_of_stuck (path.trans (System.path_of_run hrun)) (cancelled_run cancelled hrun) hstuck⟩

/-- **A shutdown ends**: after the cancellation there is a bound on what the relayer can do by
itself, pings apart, whatever `select` and the scheduler choose; where it can do no more every
worker has returned, and it can get there. -/
theorem shutdown_ends (path : (system p).Path (.init buf q) tr s) (cancelled : s.cancelled = true) :
    (∃ bound, ∀ as t tr', (system p).run s as = some (t, tr') →
      (system p).meets own s as = true →
        as.length ≤ bound ∧ ((∀ a, own t a = true → next p t a = none) → Halted t)) ∧
    ∃ as t tr', (system p).run s as = some (t, tr') ∧ (system p).meets own s as = true ∧
      Halted t := by
  obtain ⟨N, within⟩ := exists_within path
  refine ⟨⟨s.work N, ?_⟩, exists_halted path cancelled⟩
  intro as t tr' hrun hmeets
  have hlength := System.length_le_of_work (reached_uses p buf q N)
    ⟨⟨tr, path⟩, cancelled, within⟩ hrun hmeets
  exact ⟨by omega,
    halted_of_stuck (path.trans (System.path_of_run hrun)) (cancelled_run cancelled hrun)⟩

namespace Sample

open Relayer.Sample

/-- A request is accepted, and then the context is cancelled. -/
def cancelling : List Action := (pushing.map .relayer) ++ [.cancel]

def cancelled : List Event := (pushed.map .relayer) ++ [.cancelled]

theorem exists_cancelled : ∃ s,
    (system platform).Path (.init buffers ⟨7⟩) cancelled s ∧ s.cancelled = true := by
  have hrun : ((system platform).run (.init buffers ⟨7⟩) cancelling).map
      (fun r => (r.2, r.1.cancelled)) = some (cancelled, true) := by
    decide +kernel
  obtain ⟨⟨s, tr⟩, hplayed, heq⟩ := Option.map_eq_some_iff.mp hrun
  obtain ⟨rfl, hcancelled⟩ := Prod.mk.inj heq
  exact ⟨s, System.path_of_run hplayed, hcancelled⟩

end Sample

/-- A shutdown with a request under way ends. -/
theorem shutdown_ends_pushed : ∃ s,
    (system Relayer.Sample.platform).Path (.init Relayer.Sample.buffers ⟨7⟩) Sample.cancelled s ∧
    ∃ as t tr', (system Relayer.Sample.platform).run s as = some (t, tr') ∧
      (system Relayer.Sample.platform).meets own s as = true ∧ Halted t := by
  obtain ⟨s, path, hcancelled⟩ := Sample.exists_cancelled
  exact ⟨s, path, (shutdown_ends path hcancelled).2⟩

/-! ## What a shutdown leaves behind -/

/-- After a shutdown an intent is nowhere but at its end or on a channel nobody reads. -/
theorem Halted.tally (halted : Halted s) (tr : List Relayer.Event) (h : HandlerId) {stage : Stage}
    (counted : tally tr s.relayer h stage ≠ 0) :
    stage.isFinal = true ∨
      (stage = .queued ∧ ∃ intent ∈ s.relayer.intentCh.pending, intent.addr = h) ∨
      stage = .voucherQueued ∧
        ∃ v ∈ s.relayer.engine.engine.voucherCh.pending, v.intent.addr = h := by
  cases stage with
  | rejected | noBids | voucherDropped | settled | notified | notifyDropped => exact .inl rfl
  | queued =>
    have hentered : enteredCount s.relayer.engine h = 0 := by
      unfold enteredCount
      split
      · rename_i hcall
        cases halted.starts h _ hcall
      · rfl
    rw [Relayer.tally, hentered, Nat.add_zero] at counted
    obtain ⟨intent, hmem, haddr⟩ := List.countP_pos_iff.mp (Nat.pos_of_ne_zero counted)
    exact .inr (.inl ⟨rfl, intent, hmem, beq_iff_eq.mp haddr⟩)
  | voucherQueued =>
    obtain ⟨v, hmem, haddr⟩ := List.countP_pos_iff.mp (Nat.pos_of_ne_zero counted)
    exact .inr (.inr ⟨rfl, v, hmem, beq_iff_eq.mp haddr⟩)
  | auctioning =>
    refine absurd ?_ counted
    simp only [Relayer.tally, openCount]
    split
    · rename_i task htask
      rw [halted.tasks h task htask]
      rfl
    · rfl
  | executing =>
    refine absurd ?_ counted
    simp only [Relayer.tally, halted.executor]
    rfl

theorem mem_relayer {e : Relayer.Event} : .relayer e ∈ tr ↔ e ∈ tr.filterMap Event.relayer? := by
  rw [List.mem_filterMap]
  constructor
  · intro he
    exact ⟨_, he, rfl⟩
  · rintro ⟨e', he', heq⟩
    cases e' <;> cases heq
    exact he'

/-- **What a shutdown leaves behind** once nothing moves any more, which `main` does not wait for:
every intent that was enqueued was answered 202, and it has come to one of its final stages, or
waits on `intentCh`, or its voucher waits on `voucherCh`; it is at one stage and at no other. -/
theorem halted_accounts (path : (system p).Path (.init buf q) tr s) (halted : Halted s)
    {h : HandlerId} {intent : Ref Intent} (enqueued : .relayer (.enqueued h intent) ∈ tr) :
    .relayer (.replied h (.accepted intent.val.id.bytes)) ∈ tr ∧
    ∃ stage,
      (stage.isFinal = true ∨
        (stage = .queued ∧ ∃ i ∈ s.relayer.intentCh.pending, i.addr = h) ∨
        stage = .voucherQueued ∧
          ∃ v ∈ s.relayer.engine.engine.voucherCh.pending, v.intent.addr = h) ∧
      ∀ stage', tally (tr.filterMap Event.relayer?) s.relayer h stage' =
        if stage' = stage then 1 else 0 := by
  have hpath := (traces path).1
  have henqueued := mem_relayer.mp enqueued
  refine ⟨mem_relayer.mpr (answered_of_enqueued hpath henqueued halted.handlers), ?_⟩
  have honce := countP_enqueued hpath henqueued
  rw [balance hpath h] at honce
  obtain ⟨stage, hstage⟩ := Stage.unique honce
  simp only [tally_awake] at hstage
  refine ⟨stage, halted.tally (tr.filterMap Event.relayer?) h ?_, hstage⟩
  rw [hstage stage, if_pos rfl]
  exact Nat.one_ne_zero

/-- The accounts of a shutdown with a request under way. -/
theorem halted_accounts_pushed : ∃ tr s,
    (system Relayer.Sample.platform).Path (.init Relayer.Sample.buffers ⟨7⟩)
      (Sample.cancelled ++ tr) s ∧ Halted s ∧
    Event.relayer (.replied 0 (.accepted [1])) ∈ Sample.cancelled ++ tr := by
  obtain ⟨s, path, hcancelled⟩ := Sample.exists_cancelled
  obtain ⟨as, t, tr, hrun, _, halted⟩ := exists_halted path hcancelled
  have hpath := path.trans (System.path_of_run hrun)
  have henqueued : .relayer (.enqueued 0 (Relayer.Sample.intent 0 [1])) ∈ Sample.cancelled ++ tr :=
    List.mem_append_left tr (by decide +kernel)
  exact ⟨tr, t, hpath, halted, (halted_accounts hpath halted henqueued).1⟩

/-! ## Requests that come too late -/

/-- Without its dispatcher, `intentCh` only grows, by what the handlers push. -/
theorem intents_after_stop {r r' : Relayer.State} {b : Relayer.Action} {o : Option Relayer.Event}
    (step : Relayer.Step p r b r' o) (other : worker? b ≠ some .intentDispatcher) :
    r'.intentCh.pending = r.intentCh.pending ++ o.toList.filterMap Event.enqueued? ∧
      o.toList.filterMap Event.started? = [] := by
  have hsilent : ∀ {o : Option Relayer.Event},
      (∀ e, o = some e → e.enqueued? = none ∧ e.started? = none) →
      r.intentCh.pending = r.intentCh.pending ++ o.toList.filterMap Event.enqueued? ∧
        o.toList.filterMap Event.started? = [] := by
    intro o ho
    cases o with
    | none => simp
    | some e => simp [(ho e rfl).1, (ho e rfl).2]
  cases step with
  | dispatchIntent _ _ _ | returnIntent _ _ | parkIntent _ _ => exact absurd rfl other
  | push _ sent => exact ⟨(Chan.pending_trySend sent).1, rfl⟩
  | engine inside move =>
    refine hsilent fun e he => ?_
    obtain ⟨f, _, rfl⟩ := Option.map_eq_some_iff.mp he
    exact ⟨rfl, (internal_quiet inside move he).1⟩
  | hub _ => exact hsilent (shown_map fun _ => ⟨rfl, rfl⟩)
  | refuse _ _ | accept _ _ | atCapacity _ _ | replyAccepted _ _ | replyError _ | ignore _ _
  | readBid _ _ _ | dropBid _ _ _ | dispatchBid _ _ _ | parkBid _ _ | returnBid _ _ | receive _ _
  | parkExecutor _ _ | settle _ _ _ | fail _ _ _ | notify _ _ | notifyDropped _ _ | drain _
  | parkDrain _ => exact hsilent (by intro e he; cases he <;> exact ⟨rfl, rfl⟩)

/-- Whoever leaves, what waits on `intentCh` stays. -/
theorem Leaves.intents {r r' : Relayer.State} {w : Worker} (leaves : Leaves r w r') :
    r'.intentCh.pending = r.intentCh.pending := by
  cases leaves with
  | intentDispatcher _ left => exact Chan.pending_leave left
  | bidDispatcher _ _ | executor _ _ | drainer _ => rfl

/-- **Requests that come too late are stranded**: once the intent dispatcher has returned, no
auction is ever started again, and whatever handlers still accept stays on `intentCh` behind what
was there, in order. -/
theorem stranded_after_stop (stopped : s.stopped .intentDispatcher = true)
    (later : (system p).Path s tr t) :
    t.stopped .intentDispatcher = true ∧
    t.relayer.intentCh.pending =
      s.relayer.intentCh.pending ++
        (tr.filterMap Event.relayer?).filterMap Relayer.Event.enqueued? ∧
    (tr.filterMap Event.relayer?).filterMap Relayer.Event.started? = [] := by
  induction later with
  | nil => exact ⟨stopped, by simp, rfl⟩
  | snoc _ _ step ih =>
    obtain ⟨hstopped, hpending, hstarted⟩ := ih
    rw [List.filterMap_append, List.filterMap_append, List.filterMap_append, hstarted,
      List.nil_append]
    cases next_cases step with
    | @relayer b r o may move =>
      have hother : worker? b ≠ some .intentDispatcher := by
        intro hb
        rw [running_of_may may hb] at hstopped
        cases hstopped
      obtain ⟨hgrows, hnone⟩ := intents_after_stop (Relayer.next_cases move) hother
      rw [relayer_map, ← List.append_assoc, ← hpending]
      exact ⟨hstopped, hgrows, hnone⟩
    | @closeHub r o _ _ move =>
      obtain ⟨hgrows, hnone⟩ := intents_after_stop (Relayer.next_cases move) (by simp [worker?])
      rw [relayer_map, ← List.append_assoc, ← hpending]
      exact ⟨hstopped, hgrows, hnone⟩
    | cancel _ =>
      rw [show (some Event.cancelled).toList.filterMap Event.relayer? = [] from rfl,
        List.filterMap_nil, List.append_nil]
      exact ⟨hstopped, hpending, rfl⟩
    | @stop w r _ _ left =>
      have hsame := (leave_cases left).intents
      rw [show (some (Event.stopped w)).toList.filterMap Event.relayer? = [] from rfl,
        List.filterMap_nil, List.append_nil]
      exact ⟨stopped_update hstopped, hsame.trans hpending, rfl⟩

/-- A dispatcher leaves, and the request after it is answered 202 and stranded. -/
theorem stranded_after_stop_accepted : ∃ s t tr,
    (system Relayer.Sample.platform).Path s tr t ∧
    .relayer (.replied 0 (.accepted [1])) ∈ tr ∧
    t.relayer.intentCh.pending = [Relayer.Sample.intent 0 [1]] ∧
    (tr.filterMap Event.relayer?).filterMap Relayer.Event.started? = [] := by
  have hrun : ((system Relayer.Sample.platform).run (.init Relayer.Sample.buffers ⟨7⟩)
      (Sample.stranding.take 3)).map
        (fun r => (r.2, r.1.stopped .intentDispatcher, r.1.relayer.intentCh.pending)) =
      some (Sample.stranded.take 2, true, []) := by
    decide +kernel
  have hall : ((system Relayer.Sample.platform).run (.init Relayer.Sample.buffers ⟨7⟩)
      (Sample.stranding.take 3 ++ Sample.stranding.drop 3)).map Prod.snd =
      some (Sample.stranded.take 2 ++ Sample.stranded.drop 2) := by
    decide +kernel
  obtain ⟨⟨s, tr₁⟩, hfirst, heq⟩ := Option.map_eq_some_iff.mp hrun
  obtain ⟨rfl, hrest⟩ := Prod.mk.inj heq
  obtain ⟨hstopped, hempty⟩ := Prod.mk.inj hrest
  obtain ⟨⟨t, tr⟩, hplayed, hshown⟩ := Option.map_eq_some_iff.mp hall
  obtain ⟨s', tr₁', tr₂, hfirst', hlater, rfl⟩ := System.run_append_eq_some.mp hplayed
  rw [hfirst] at hfirst'
  cases hfirst'
  cases List.append_cancel_left hshown
  obtain ⟨_, hpending, hstarted⟩ := stranded_after_stop hstopped (System.path_of_run hlater)
  refine ⟨s, t, _, System.path_of_run hlater, by decide +kernel, ?_, hstarted⟩
  rw [hpending, show s.relayer.intentCh.pending = [] from hempty]
  rfl

end Shutdown

end VynxRelayer.Relayer
