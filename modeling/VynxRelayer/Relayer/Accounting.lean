import VynxRelayer.Relayer.Courses
import VynxRelayer.Lib.Counting

/-!
# The accounts of the relayer

Where is an intent that was enqueued? `Stage` lists the places, and `tally` counts how often it is
found at each, from the trace so far and the state reached. In every state of every run the counts
of all stages add up to the number of its enqueues (`balance`), which is one. So an enqueued intent
is at exactly one stage: none is lost, none is in two places (`accounting`).

The equation is assembled from the flows of `VynxRelayer.Relayer.Flows`, the handlers' courses and
the fates of the calls of `StartAuction`.
-/

namespace VynxRelayer.Relayer

open Lib Auction Ingress TxManager

/-- Where an enqueued intent can be. -/
inductive Stage where
  /-- on `intentCh`, or with the dispatcher before `StartAuction` has reached the map -/
  | queued
  /-- refused by `StartAuction` -/
  | rejected
  /-- in an auction that has neither ended without bids nor sent or dropped its voucher -/
  | auctioning
  /-- in an auction that ended without bids -/
  | noBids
  | voucherDropped
  /-- its voucher is on `voucherCh` -/
  | voucherQueued
  /-- its voucher is with the executor, the notification of a failure included -/
  | executing
  /-- executed successfully -/
  | settled
  /-- failed, and its ID was put onto `txFailedCh` -/
  | notified
  /-- failed, and the notification was dropped -/
  | notifyDropped
  deriving DecidableEq

/-- How often the intent of handler `h` is found at each stage. -/
def tally (tr : List Event) (s : State) (h : HandlerId) : Stage → Nat
  | .queued => s.intentCh.pending.countP (·.addr == h) + enteredCount s.engine h
  | .rejected => fateCount .refused h (engineTrace tr)
  | .auctioning => openCount s.engine h
  | .noBids => fateCount .noBids h (engineTrace tr)
  | .voucherDropped => fateCount .dropped h (engineTrace tr)
  | .voucherQueued => s.engine.engine.voucherCh.pending.countP (·.intent.addr == h)
  | .executing => (s.executor.current ++ s.executor.failing).countP (·.intent.addr == h)
  | .settled => (tr.filterMap Event.settled?).countP (·.intent.addr == h)
  | .notified => (tr.filterMap Event.notified?).countP (·.intent.addr == h)
  | .notifyDropped => (tr.filterMap Event.notifyDropped?).countP (·.intent.addr == h)

/-- The stages, each once. -/
def Stage.all : List Stage :=
  [.queued, .rejected, .auctioning, .noBids, .voucherDropped, .voucherQueued, .executing, .settled,
    .notified, .notifyDropped]

/-- What is counted once is at one stage, and at no other. -/
theorem Stage.unique {f : Stage → Nat} (once : sumOver f Stage.all = 1) :
    ∃ stage, ∀ stage', f stage' = if stage' = stage then 1 else 0 := by
  have hall : ∀ stage : Stage, stage ∈ Stage.all := by
    intro stage
    cases stage <;> decide
  obtain ⟨stage, _, hcounts⟩ := exists_of_sumOver_eq_one (by decide) once
  exact ⟨stage, fun stage' => hcounts stage' (hall stage')⟩

variable {p : Platform} {buf : Buffers} {q : NonceQueue} {tr : List Event} {s : State}

/-- **The balance**: in every state, the enqueues of an intent and its places add up. -/
theorem balance (h : (system p).Path (.init buf q) tr s) (r : HandlerId) :
    (tr.filterMap Event.enqueued?).countP (·.addr == r) = sumOver (tally tr s r) Stage.all := by
  have hengine := engine_path h
  -- every stage hands on what it is given, up to the executor and its notifications
  have hintents := (intents h).countP (·.addr == r)
  have hvouchers := (vouchers h).countP (·.intent.addr == r)
  have hexecutions := (executions h).countP (·.intent.addr == r)
  have hfailures := (failures h).countP (·.intent.addr == r)
  -- in between, a call of `StartAuction` has one fate
  have hstarted := started_count h r
  have hfates := fates hengine r
  have hemitted : (tr.filterMap Event.emitted?).countP (·.intent.addr == r) =
      fateCount .emitted r (engineTrace tr) := by
    rw [← countP_emitted hengine (addressed h) r, ← filterMap_engine]
    rfl
  -- and executions and answers are of two kinds each
  have hkinds : (tr.filterMap Event.executed?).countP (·.intent.addr == r) =
      (tr.filterMap Event.settled?).countP (·.intent.addr == r) +
        (tr.filterMap Event.failed?).countP (·.intent.addr == r) := by
    refine countP_filterMap_add ?_ _ tr
    intro e
    cases e with
    | executed v attempt err => cases err <;> simp [Event.executed?, Event.settled?, Event.failed?]
    | _ => exact .inl ⟨rfl, rfl⟩
  have hanswers : (tr.filterMap Event.answered?).countP (·.intent.addr == r) =
      (tr.filterMap Event.notified?).countP (·.intent.addr == r) +
        (tr.filterMap Event.notifyDropped?).countP (·.intent.addr == r) := by
    refine countP_filterMap_add ?_ _ tr
    intro e
    cases e with
    | notifyDropped v => exact .inr ⟨rfl, rfl⟩
    | _ => exact .inl ⟨rfl, rfl⟩
  simp only [Stage.all, sumOver, tally, List.countP_append]
  omega

/-- **The accounts of a run** that showed `tr` and reached `s`. -/
structure Accounting (p : Platform) (buf : Buffers) (tr : List Event) (s : State) : Prop where
  /-- Every enqueued intent is at exactly one stage. -/
  staged : ∀ h intent, .enqueued h intent ∈ tr →
    ∃ stage, ∀ stage', tally tr s h stage' = if stage' = stage then 1 else 0
  /-- A handler that answered 202 enqueued one intent before, with the ID of its answer. -/
  accepted : ∀ h id, .replied h (.accepted id) ∈ tr → ∃ intent, intent.val.id.bytes = id ∧
    journal Event.handler? h tr = [.enqueued h intent, .replied h (.accepted id)]
  /-- A call of `StartAuction` before the map is that of the dispatcher. -/
  held : ∀ c intent, s.engine.starts c = some (.entered intent) →
    s.intentDispatcher = .calling intent
  /-- `StartAuction` refuses only while an auction of the ID is live. -/
  rejected : ∀ a s' c intent, next p s a = some (s', some (.engine (.refused c intent))) →
    ∃ g task, s.engine.tasks g = some task ∧ task.phase ≠ .done ∧
      task.intent.val.id = intent.val.id
  /-- A voucher is dropped only while `voucherCh` holds its capacity. -/
  dropped : ∀ a s' g v, next p s a = some (s', some (.engine (.dropped g v))) →
    s.engine.engine.voucherCh.buf.length = buf.voucherBuf
  /-- A notification is dropped only while `txFailedCh` cannot take it. -/
  notifyDropped : ∀ a s' v, next p s a = some (s', some (.notifyDropped v)) →
    s.txFailedCh.receiver.isParked = false ∧ s.txFailedCh.buf.length = s.txFailedCh.cap
  /-- The vouchers sent are those executed, the one in execution and those waiting, in order. -/
  executed : tr.filterMap Event.emitted? =
    tr.filterMap Event.executed? ++ (s.executor.current ++ s.engine.engine.voucherCh.pending)
  /-- The IDs notified are those drained and those waiting, in order. -/
  drained : tr.filterMap Event.notifiedID? = tr.filterMap Event.drained? ++ s.txFailedCh.pending

/-- **No intent is lost or duplicated silently**: every state of every run has its accounts in
order. -/
theorem accounting (h : (system p).Path (.init buf q) tr s) : Accounting p buf tr s where
  staged r intent enqueued := by
    apply Stage.unique
    rw [← balance h r]
    exact countP_enqueued h enqueued
  accepted r id replied := accepted_course h replied
  held c intent entered := (dispatching h c _ intent entered rfl).1
  rejected a s' c intent step := by
    obtain ⟨b, e', hnext⟩ := next_engine step
    cases Auction.next_cases hnext with
    | refuse _ active => exact ⟨_, (consistent (engine_path h)).owner _ _ active⟩
  dropped a s' g v step := by
    obtain ⟨b, e', hnext⟩ := next_engine step
    cases Auction.next_cases hnext with
    | drop _ full =>
      rw [← (Auction.vouchers (engine_path h)).2]
      exact (Chan.trySend_eq_none.mp full).2
  notifyDropped a s' v step := by
    generalize ho : some (Event.notifyDropped v) = o at step
    cases next_cases step with
    | notifyDropped _ full => exact Chan.trySend_eq_none.mp full
    | hub _ | engine _ _ => obtain ⟨f, _, hf⟩ := Option.map_eq_some_iff.mp ho.symm; cases hf
    | _ => cases ho
  executed := by
    have hvouchers := vouchers h
    unfold Fifo at hvouchers
    rw [hvouchers, show tr.filterMap Event.received? = _ from executions h, List.append_assoc]
  drained := notifications h

/-- Three intents: two are settled, the first after three bids, and the third is still queued. -/
theorem accounting_contest :
    ∃ s, Accounting Sample.platform Sample.buffers (Sample.contested ++ Sample.submitted 2 [3]) s ∧
      tally (Sample.contested ++ Sample.submitted 2 [3]) s 0 .settled = 1 ∧
      tally (Sample.contested ++ Sample.submitted 2 [3]) s 1 .settled = 1 ∧
      tally (Sample.contested ++ Sample.submitted 2 [3]) s 2 .queued = 1 := by
  have hrun : ((system Sample.platform).run (.init Sample.buffers ⟨7⟩)
      (Sample.contest ++ Sample.submit 2 [3])).map
        (fun r => (r.2, tally r.2 r.1 0 .settled, tally r.2 r.1 1 .settled,
          tally r.2 r.1 2 .queued)) =
        some (Sample.contested ++ Sample.submitted 2 [3], 1, 1, 1) := by
    decide +kernel
  obtain ⟨⟨s, tr⟩, hplayed, hcounts⟩ := Option.map_eq_some_iff.mp hrun
  simp only [Prod.mk.injEq] at hcounts
  obtain ⟨rfl, hfirst, hsecond, hthird⟩ := hcounts
  exact ⟨s, accounting (System.path_of_run hplayed), hfirst, hsecond, hthird⟩

end VynxRelayer.Relayer
