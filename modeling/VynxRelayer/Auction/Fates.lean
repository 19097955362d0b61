import VynxRelayer.Auction.Chronicle
import VynxRelayer.Lib.Fifo

/-!
# What becomes of a call of `StartAuction`

A call is made once and returns at most once (`startCalls`). Once made, it has not reached the map
yet, or its auction is open, or its fate is settled: refused, closed without bids, its voucher
dropped, or its voucher emitted. It is one of these and no two of them, which `fates` states as an
equation of counts.

Emitted vouchers go through the voucher channel first in, first out (`vouchers`). Where callers pass
each intent under its own address (`Addressed`), a voucher names the call it comes from by the
address of its intent, and both ends of the engine can be counted by that address (`countP_started`,
`countP_emitted`).
-/

namespace VynxRelayer.Auction

open Lib State

/-! ## The calls -/

/-- The call of `StartAuction` that an event begins or ends. -/
def Event.startCall? : Event → Option CallId
  | .startInvoked c _ => some c
  | .startReturned c _ => some c
  | _ => none

/-- The intent a call is made with. -/
def Event.started? : Event → Option (Ref Intent)
  | .startInvoked _ intent => some intent
  | _ => none

/-- What a call of `StartAuction` has written, by where it stands. -/
def StartCourse (c : CallId) : Option StartCall → List Event → Prop
  | none, l => l = []
  | some (.entered intent), l => l = [.startInvoked c intent]
  | some (.registered intent), l => l = [.startInvoked c intent]
  | some (.finished intent _), l => l = [.startInvoked c intent]
  | some .returned, l => ∃ intent err, l = [.startInvoked c intent, .startReturned c err]

/-- **A call is made once and returns at most once.** -/
theorem startCalls {cap : Nat} {tr : List Event} {s : State} (h : system.Path (.init cap) tr s) :
    Told Event.startCall? StartCourse s.starts tr := by
  induction h with
  | nil => intro c; rfl
  | snoc _ _ step ih =>
    cases next_cases step with
    | invokeStart fresh =>
      refine ih.write fresh rfl (by intro e he; cases he; rfl) ?_
      intro l hl
      rw [show l = [] from hl]
      rfl
    | refuse call _ | register call _ | launch call =>
      exact ih.turn call rfl (by intro e he; cases he <;> rfl) fun l hl => hl
    | @returnStart c intent err call =>
      refine ih.write call rfl (by intro e he; cases he; rfl) ?_
      intro l hl
      exact ⟨intent, err, by rw [show l = _ from hl]; rfl⟩
    | invokeBid _ | checkFails _ _ | miss _ _ _ | locate _ _ _ | append _ | returnBid _
    | fireTimer _ | lookupWinner _ | selectNil _ | select _ _ _ | selectPanics _ _ _ | noBids _
    | emit _ _ | drop _ _ | cleanup _ | receive _ | park _ =>
      exact ih.silent rfl (by intro e he; cases he <;> rfl)

/-- A course begins with the invocation, and has no other one. -/
theorem StartCourse.invoked {c : CallId} {call : StartCall} {l : List Event}
    (h : StartCourse c (some call) l) :
    ∃ intent rest, l = .startInvoked c intent :: rest ∧ ∀ e ∈ rest, e.started? = none := by
  cases call with
  | entered i | registered i | finished i _ => exact ⟨i, [], h, by simp⟩
  | returned =>
    obtain ⟨i, err, hl⟩ := h
    exact ⟨i, _, hl, by simp [Event.started?]⟩

/-- A call that stands before the map was made, with the intent it carries. -/
theorem entered_invoked {cap : Nat} {tr : List Event} {s : State} {c : CallId}
    {intent : Ref Intent} (h : system.Path (.init cap) tr s)
    (call : s.starts c = some (.entered intent)) : .startInvoked c intent ∈ tr := by
  have hcourse := startCalls h c
  rw [call] at hcourse
  have hmem : .startInvoked c intent ∈ journal Event.startCall? c tr := by
    rw [show journal Event.startCall? c tr = _ from hcourse]
    exact List.mem_singleton_self _
  exact (mem_journal.mp hmem).1

/-- A call is made with one intent. -/
theorem startInvoked_unique {cap : Nat} {tr : List Event} {s : State} {c : CallId}
    {intent intent' : Ref Intent} (h : system.Path (.init cap) tr s)
    (first : .startInvoked c intent ∈ tr) (second : .startInvoked c intent' ∈ tr) :
    intent = intent' := by
  have hcourse := startCalls h c
  have hfirst : .startInvoked c intent ∈ journal Event.startCall? c tr :=
    mem_journal.mpr ⟨first, rfl⟩
  have hsecond : .startInvoked c intent' ∈ journal Event.startCall? c tr :=
    mem_journal.mpr ⟨second, rfl⟩
  generalize journal Event.startCall? c tr = l at hcourse hfirst hsecond
  cases hcall : s.starts c with
  | none =>
    rw [hcall] at hcourse
    rw [show l = [] from hcourse] at hfirst
    cases hfirst
  | some call =>
    rw [hcall] at hcourse
    obtain ⟨i, rest, rfl, hrest⟩ := hcourse.invoked
    have honly : ∀ i', .startInvoked c i' ∈ .startInvoked c i :: rest → i' = i := by
      intro i' hmem
      rcases List.mem_cons.mp hmem with heq | hlate
      · cases heq
        rfl
      · cases hrest _ hlate
    rw [honly intent hfirst, honly intent' hsecond]

/-- A registration is that of a call with the same intent. -/
theorem registered_invoked {cap : Nat} {tr : List Event} {s : State} {g : CallId}
    {intent : Ref Intent} (h : system.Path (.init cap) tr s)
    (registered : .registered g intent ∈ tr) : .startInvoked g intent ∈ tr := by
  obtain ⟨xs, ys, s₁, a, s₂, rfl, hpre, _, hnext, _⟩ := h.at_mem registered
  cases next_cases hnext with
  | register call _ => exact List.mem_append_left _ (entered_invoked hpre call)

/-- A refusal is that of a call with the same intent, while another instance of the ID was in the
map. -/
theorem refused_invoked {cap : Nat} {tr : List Event} {s : State} {c : CallId}
    {intent : Ref Intent} (h : system.Path (.init cap) tr s) (refused : .refused c intent ∈ tr) :
    .startInvoked c intent ∈ tr ∧
      ∃ g intent', g ≠ c ∧ intent'.val.id = intent.val.id ∧ .registered g intent' ∈ tr := by
  obtain ⟨xs, ys, s₁, a, s₂, rfl, hpre, _, hnext, _⟩ := h.at_mem refused
  cases next_cases hnext with
  | @refuse _ _ g call active =>
    refine ⟨List.mem_append_left _ (entered_invoked hpre call), ?_⟩
    obtain ⟨task, htask, _, hid⟩ := (consistent hpre).owner _ _ active
    refine ⟨g, task.intent, ?_, hid, List.mem_append_left _ (registered_mem hpre htask)⟩
    rintro rfl
    rw [(consistent hpre).unborn g (.inr ⟨_, call⟩)] at htask
    cases htask

/-- A call that was made stands before the map, or was registered or refused. -/
theorem invoked_cases {cap : Nat} {tr : List Event} {s : State} {c : CallId} {intent : Ref Intent}
    (h : system.Path (.init cap) tr s) (invoked : .startInvoked c intent ∈ tr) :
    s.starts c = some (.entered intent) ∨ .registered c intent ∈ tr ∨ .refused c intent ∈ tr := by
  cases htask : s.tasks c with
  | some task =>
    have hreg := registered_mem h htask
    rw [startInvoked_unique h (registered_invoked h hreg) invoked] at hreg
    exact .inr (.inl hreg)
  | none =>
    have hlife : Life c (s.instances c) (life c tr) := chronicle h c
    cases hcall : s.starts c with
    | none =>
      have hmem : .startInvoked c intent ∈ journal Event.startCall? c tr :=
        mem_journal.mpr ⟨invoked, rfl⟩
      have hcourse := startCalls h c
      rw [hcall] at hcourse
      rw [show journal Event.startCall? c tr = [] from hcourse] at hmem
      cases hmem
    | some call =>
      rw [State.instances, htask, hcall] at hlife
      cases call with
      | entered i =>
        rw [startInvoked_unique h (entered_invoked h hcall) invoked]
        exact .inl rfl
      | registered _ | finished _ _ | returned =>
        obtain ⟨i, hl⟩ := hlife
        have hmem : .refused c i ∈ life c tr := by rw [hl]; exact List.mem_singleton_self _
        have href := (mem_journal.mp hmem).1
        rw [startInvoked_unique h (refused_invoked h href).1 invoked] at href
        exact .inr (.inr href)

/-! ## The vouchers on their channel -/

def Event.emitted? : Event → Option Voucher
  | .emitted _ v => some v
  | _ => none

def Event.received? : Event → Option Voucher
  | .received v => some v
  | _ => none

/-- **First in, first out**: along every run, the vouchers emitted are those received, followed by
those still on the channel, in order. -/
theorem vouchers {cap : Nat} {tr : List Event} {s : State} (h : system.Path (.init cap) tr s) :
    Fifo Event.emitted? Event.received? s.engine.voucherCh.pending tr ∧
      s.engine.voucherCh.cap = cap := by
  induction h with
  | nil => exact ⟨.nil, rfl⟩
  | snoc _ _ step ih =>
    obtain ⟨hflow, hcap⟩ := ih
    cases next_cases step with
    | emit task sent =>
      obtain ⟨hpending, hkeep⟩ := Chan.pending_trySend sent
      exact ⟨hflow.send rfl rfl hpending, hkeep.trans hcap⟩
    | receive taken =>
      obtain ⟨hpending, hkeep⟩ := Chan.pending_take taken
      exact ⟨hflow.take rfl rfl hpending, hkeep.trans hcap⟩
    | park parked =>
      obtain ⟨hpending, hkeep⟩ := Chan.pending_park parked
      exact ⟨hflow.silent hpending (by intro e he; cases he), hkeep.trans hcap⟩
    | invokeStart _ | refuse _ _ | register _ _ | launch _ | returnStart _ | invokeBid _
    | checkFails _ _ | miss _ _ _ | locate _ _ _ | append _ | returnBid _ | fireTimer _
    | lookupWinner _ | selectNil _ | select _ _ _ | selectPanics _ _ _ | noBids _ | drop _ _
    | cleanup _ => exact ⟨hflow.silent rfl (by intro e he; cases he <;> exact ⟨rfl, rfl⟩), hcap⟩

/-! ## The fate of an instance -/

/-- What can become of a call of `StartAuction` in the end. -/
inductive Fate where
  | refused
  | noBids
  | dropped
  | emitted
  deriving DecidableEq

/-- The fate an event settles, and whose it is. -/
def Event.fate? : Event → Option (Fate × CallId)
  | .refused c _ => some (.refused, c)
  | .noBids g => some (.noBids, g)
  | .dropped g _ => some (.dropped, g)
  | .emitted g _ => some (.emitted, g)
  | _ => none

/-- How often a trace settles this fate for `g`. -/
def fateCount (f : Fate) (g : CallId) (tr : List Event) : Nat :=
  tr.countP fun e => e.fate? == some (f, g)

/-- The goroutine has neither ended without bids nor sent or dropped its voucher. -/
def Phase.isOpen : Phase → Bool
  | .launching => true
  | .waiting => true
  | .fired => true
  | .located _ => true
  | .chosen _ => true
  | _ => false

/-- One for a call that has not reached the map, zero for any other. -/
def enteredCount (s : State) (c : CallId) : Nat :=
  match s.starts c with
  | some (.entered _) => 1
  | _ => 0

/-- One for an auction that is open, zero for any other. -/
def openCount (s : State) (g : CallId) : Nat :=
  match s.tasks g with
  | some task => if task.phase.isOpen then 1 else 0
  | none => 0

theorem fateCount_life (f : Fate) (g : CallId) (tr : List Event) :
    fateCount f g (life g tr) = fateCount f g tr := by
  refine countP_journal ?_
  intro e he
  rw [beq_iff_eq] at he
  cases e <;> cases he <;> rfl

/-- How often a trace settles any fate for `g`. -/
def settledCount (g : CallId) (tr : List Event) : Nat :=
  tr.countP fun e => e.fate?.any fun settled => settled.2 == g

/-- An event settles one fate. -/
theorem settledCount_eq (g : CallId) (tr : List Event) :
    settledCount g tr = fateCount .refused g tr + fateCount .noBids g tr + fateCount .dropped g tr +
      fateCount .emitted g tr := by
  induction tr with
  | nil => rfl
  | cons e tr ih =>
    simp only [settledCount, fateCount, List.countP_cons] at ih ⊢
    cases e.fate? with
    | none =>
      simp only [Option.any_none, Bool.false_eq_true, reduceIte, reduceCtorEq, beq_iff_eq]
      exact ih
    | some settled =>
      obtain ⟨f, g'⟩ := settled
      cases f <;>
        simp only [Option.any_some, beq_iff_eq, Option.some.injEq, Prod.mk.injEq, reduceCtorEq,
          true_and, false_and, reduceIte] <;> omega

/-- **Every call has one fate**: a call that was made has not reached the map, or its auction is
open, or one of the four fates is settled for it; one of them, and once. -/
theorem fates {cap : Nat} {tr : List Event} {s : State} (h : system.Path (.init cap) tr s)
    (g : CallId) :
    (if (s.starts g).isSome then 1 else 0) = enteredCount s g + openCount s g +
      (fateCount .refused g tr + fateCount .noBids g tr + fateCount .dropped g tr +
        fateCount .emitted g tr) := by
  have hc := consistent h
  have hlife : Life g (s.instances g) (life g tr) := chronicle h g
  simp only [← fateCount_life _ g tr]
  rw [← settledCount_eq]
  generalize life g tr = l at hlife ⊢
  cases htask : s.tasks g with
  | none =>
    cases hcall : s.starts g with
    | none =>
      rw [State.instances, htask, hcall] at hlife
      rw [show l = [] from hlife]
      simp [enteredCount, openCount, htask, hcall, settledCount]
    | some call =>
      rw [State.instances, htask, hcall] at hlife
      cases call with
      | entered _ =>
        rw [show l = [] from hlife]
        simp [enteredCount, openCount, htask, hcall, settledCount]
      | registered _ | finished _ _ | returned =>
        obtain ⟨intent, rfl⟩ := hlife
        simp [enteredCount, openCount, htask, hcall, settledCount, Event.fate?]
  | some task =>
    -- an instance with a goroutine is past the map
    have hpast : enteredCount s g = 0 ∧ (s.starts g).isSome = true := by
      cases hcall : s.starts g with
      | none => rw [hc.unborn g (.inl hcall)] at htask; cases htask
      | some call =>
        refine ⟨?_, rfl⟩
        cases call with
        | entered intent => rw [hc.unborn g (.inr ⟨intent, hcall⟩)] at htask; cases htask
        | registered _ | finished _ _ | returned => simp only [enteredCount, hcall]
    rw [hpast.1, hpast.2]
    rw [State.instances, htask] at hlife
    obtain ⟨intent, phase⟩ := task
    cases phase with
    | launching | waiting | fired | located _ =>
      rw [show l = _ from hlife]
      simp [openCount, htask, Phase.isOpen, settledCount, Event.fate?]
    | chosen w =>
      obtain ⟨bids, _, rfl⟩ := hlife
      simp [openCount, htask, Phase.isOpen, settledCount, Event.fate?]
    | closing | done =>
      obtain ⟨bids, w, e, _, hout, rfl⟩ := hlife
      cases w with
      | none =>
        cases hout
        simp [openCount, htask, Phase.isOpen, settledCount, Event.fate?]
      | some w =>
        rcases hout with rfl | rfl <;>
          simp [openCount, htask, Phase.isOpen, settledCount, Event.fate?]
    | panicked => exact hlife.elim

/-! ## Counting by address -/

/-- Callers pass each intent under its own address. -/
def Addressed (tr : List Event) : Prop :=
  ∀ c intent, .startInvoked c intent ∈ tr → intent.addr = c

theorem countP_started {cap : Nat} {tr : List Event} {s : State}
    (h : system.Path (.init cap) tr s) (own : Addressed tr) (c : CallId) :
    (tr.filterMap Event.started?).countP (·.addr == c) =
      if (s.starts c).isSome then 1 else 0 := by
  -- by address is by call, and a call has its course
  have hcount : (tr.filterMap Event.started?).countP (·.addr == c) =
      (journal Event.startCall? c tr).countP fun e => e.started?.isSome := by
    unfold journal
    rw [List.countP_filterMap, List.countP_filter]
    refine List.countP_congr ?_
    intro e he
    cases e with
    | startInvoked c' intent => simp [Event.started?, Event.startCall?, own c' intent he]
    | _ => simp [Event.started?]
  have hcourse := startCalls h c
  rw [hcount]
  generalize journal Event.startCall? c tr = l at hcourse ⊢
  cases hcall : s.starts c with
  | none =>
    rw [hcall] at hcourse
    rw [show l = [] from hcourse]
    rfl
  | some call =>
    rw [hcall] at hcourse
    obtain ⟨i, rest, rfl, hrest⟩ := hcourse.invoked
    have hzero : rest.countP (fun e => e.started?.isSome) = 0 := by
      rw [List.countP_eq_zero]
      intro e he
      rw [hrest e he]
      exact Bool.false_ne_true
    rw [List.countP_cons, hzero]
    rfl

theorem countP_emitted {cap : Nat} {tr : List Event} {s : State}
    (h : system.Path (.init cap) tr s) (own : Addressed tr) (g : CallId) :
    (tr.filterMap Event.emitted?).countP (·.intent.addr == g) = fateCount .emitted g tr := by
  unfold fateCount
  rw [List.countP_filterMap]
  refine List.countP_congr ?_
  intro e he
  cases e with
  | emitted g' v =>
    have haddr := own g' v.intent (registered_invoked h (emitted_registered h he).1)
    simp [Event.emitted?, Event.fate?, haddr]
  | _ => simp [Event.emitted?, Event.fate?]

end VynxRelayer.Auction
