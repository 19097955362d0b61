import VynxRelayer.Auction.Progress
import VynxRelayer.Ingress.Progress
import VynxRelayer.Relayer.Accounting
import VynxRelayer.Relayer.Handlers

/-!
# How the relayer comes to rest

When no request and no solver's message arrives, no solver connects and no connection fails, the
relayer runs on what it has. `own` lists the steps it takes by itself, the timers of the auctions
and the answers of the chain included; the pings that keep a connection alive are not among them,
and the chain is taken to answer. Nothing forces the scheduler to be fair among them: every one
of them uses up some of `State.work`, so every schedule of them ends (`comes_to_rest`), and where
none is left the relayer is at `Rest`: every request is answered, every auction is over, every
voucher is executed, every goroutine that serves a channel is parked on it.

Then the accounts of `VynxRelayer.Relayer.Accounting` have no open items: every intent that was
enqueued has one of the six final fates (`rest_settles`).
-/

namespace VynxRelayer.Relayer

open Lib Auction Ingress TxManager

variable {p : Platform} {buf : Buffers} {q : NonceQueue} {tr : List Event} {s s' : State}
  {a : Action} {o : Option Event} {N M : Nat}

/-! ## Whose calls are under way -/

/-- The engine's own steps neither begin nor end a call. -/
theorem busy_internal {b : Auction.Action} {e e' : Auction.State} {o : Option Auction.Event}
    (inside : internal b = true) (step : Auction.next e b = some (e', o)) (c : CallId) :
    (Busy .returned e'.starts c ↔ Busy StartCall.returned e.starts c) ∧
      (Busy .returned e'.bids c ↔ Busy BidCall.returned e.bids c) := by
  cases Auction.next_cases step with
  | invokeStart _ | returnStart _ | invokeBid _ | returnBid _ | receive _ | park _ => cases inside
  | refuse call _ | register call _ | launch call =>
    exact ⟨busy_move call (by simp) (by simp), .rfl⟩
  | checkFails call _ | miss call _ _ | locate call _ _ | append call =>
    exact ⟨.rfl, busy_move call (by simp) (by simp)⟩
  | fireTimer _ | lookupWinner _ | selectNil _ | select _ _ _ | selectPanics _ _ _ | noBids _
  | emit _ _ | drop _ _ | cleanup _ => exact ⟨.rfl, .rfl⟩

/-- The call under way is the one the dispatcher is in. -/
def Attends {α ν : Type} (last : ν) (table : CallId → Option ν) (dispatcher : Dispatcher (Ref α)) :
    Prop :=
  ∀ c, Busy last table c ↔ ∃ item, dispatcher = .calling item ∧ item.addr = c

section

variable {α ν : Type} {last call : ν} {table : CallId → Option ν} {item : Ref α}

theorem Attends.dispatch (h : Attends last table (.waiting : Dispatcher (Ref α)))
    (fresh : table item.addr = none) (begun : call ≠ last) :
    Attends last (Function.update table item.addr (some call)) (.calling item) := by
  intro c
  have hidle : ¬ Busy last table c := by
    rw [h c]
    rintro ⟨_, h, _⟩
    cases h
  rw [busy_begin fresh begun]
  simp only [hidle, or_false, Dispatcher.calling.injEq, exists_eq_left']
  exact eq_comm

theorem Attends.return (h : Attends last table (.calling item)) :
    Attends last (Function.update table item.addr (some last))
      (.waiting : Dispatcher (Ref α)) := by
  intro c
  rw [busy_end, h c]
  simp only [Dispatcher.calling.injEq, exists_eq_left', reduceCtorEq, false_and, exists_false,
    iff_false, not_and]
  exact fun hne heq => hne heq.symm

end

/-- **The calls under way are those the dispatchers are in.** -/
theorem attended (path : (system p).Path (.init buf q) tr s) :
    Attends .returned s.engine.starts s.intentDispatcher ∧
      Attends .returned s.engine.bids s.bidDispatcher := by
  induction path with
  | nil =>
    constructor <;> intro c <;>
      exact ⟨fun ⟨_, h, _⟩ => (nomatch h), fun ⟨_, h, _⟩ => (nomatch h)⟩
  | snoc _ _ step ih =>
    obtain ⟨hstarts, hbids⟩ := ih
    cases next_cases step with
    | dispatchIntent waiting _ fresh =>
      rw [waiting] at hstarts
      exact ⟨hstarts.dispatch fresh (by simp), hbids⟩
    | returnIntent calling _ =>
      rw [calling] at hstarts
      exact ⟨hstarts.return, hbids⟩
    | dispatchBid waiting _ fresh =>
      rw [waiting] at hbids
      exact ⟨hstarts, hbids.dispatch fresh (by simp)⟩
    | returnBid calling _ =>
      rw [calling] at hbids
      exact ⟨hstarts, hbids.return⟩
    | engine inside move =>
      exact ⟨fun c => (busy_internal inside move c).1.trans (hstarts c),
        fun c => (busy_internal inside move c).2.trans (hbids c)⟩
    | refuse _ _ | accept _ _ | push _ _ | atCapacity _ _ | replyAccepted _ _ | replyError _
    | hub _ | ignore _ _ | readBid _ _ _ | dropBid _ _ _ | parkIntent _ _ | parkBid _ _
    | receive _ _ | parkExecutor _ _ | settle _ _ _ | fail _ _ _ | notify _ _ | notifyDropped _ _
    | drain _ | parkDrain _ => exact ⟨hstarts, hbids⟩

/-! ## What holds between steps -/

/-- An intent that waits on its channel has no call yet. -/
theorem uncalled (path : (system p).Path (.init buf q) tr s) :
    ∀ intent ∈ s.intentCh.pending, s.engine.starts intent.addr = none := by
  intro intent hpending
  obtain ⟨e, he, henq⟩ : ∃ e ∈ tr, Event.enqueued? e = some intent := by
    have hmem : intent ∈ tr.filterMap Event.enqueued? := by
      rw [show tr.filterMap Event.enqueued? = _ from intents path]
      exact List.mem_append_right _ hpending
    exact List.mem_filterMap.mp hmem
  cases e <;> cases henq
  rename_i r
  have haddr := (enqueued_course path he).1
  -- its one enqueue is accounted for by the channel
  have hcount := (intents path).countP (·.addr == r)
  have honce := countP_enqueued path he
  have hstarted := started_count path r
  have hwaits : 0 < s.intentCh.pending.countP (·.addr == r) :=
    List.countP_pos_iff.mpr ⟨intent, hpending, by simp [haddr]⟩
  rw [haddr]
  cases hr : s.engine.starts r with
  | none => rfl
  | some call =>
    rw [hr, Option.isSome_some, if_pos rfl] at hstarted
    omega

/-- What the following rests on, of a state and not of the run that led to it. -/
structure Sane (s : State) : Prop where
  engine : Consistent s.engine
  launchable : Launchable s.engine
  hub : s.hub.Sound
  /-- A handler's intent carries the handler's number. -/
  ready : ∀ h intent, s.handlers h = some (.ready intent) → intent.addr = h
  carried : ∀ b, Carries (s.handlers b) (s.hub.broadcasts b)
  uncalled : ∀ intent ∈ s.intentCh.pending, s.engine.starts intent.addr = none
  numbered : Numbered s
  starts : Attends .returned s.engine.starts s.intentDispatcher
  bids : Attends .returned s.engine.bids s.bidDispatcher

theorem sane (path : (system p).Path (.init buf q) tr s) : Sane s where
  engine := consistent (engine_path path)
  launchable := launchable (engine_path path)
  hub := hub_sound path
  ready h intent ready := by
    have hcourse := handlerCourses path h
    rw [ready] at hcourse
    exact hcourse.1
  carried := carried path
  uncalled := uncalled path
  numbered := numbered path
  starts := (attended path).1
  bids := (attended path).2

/-! ## The work of the relayer -/

/-- What a request has before it, with at most `N` solvers to tell. It pays for its intent and for
its broadcast. -/
def Handler.work (N : Nat) : Handler → Nat
  | .ready _ => 3 * N + 22
  | .broadcasting _ => 1
  | .failing _ => 1
  | .done => 0

def Dispatcher.work {α : Type} : Dispatcher α → Nat
  | .waiting => 0
  | .calling _ => 1

def Executor.work : Executor → Nat
  | .waiting => 0
  | .executing _ => 4
  | .failed _ => 3

/-- The work before what waits on the channels, the vouchers apart. -/
def State.queued (s : State) : Nat :=
  s.intentCh.load (fun _ => 16) + s.bidCh.load (fun _ => 5) + s.txFailedCh.load (fun _ => 1)

/-- The work a relayer with names below `N` has before it. -/
def State.work (N : Nat) (s : State) : Nat :=
  weight N (Handler.work N) s.handlers + s.hub.work N + s.queued + s.intentDispatcher.work +
    s.bidDispatcher.work + s.engine.work N + s.executor.work

/-- The names of requests, connections, broadcasts, calls and goroutines lie below `N`. -/
structure State.Within (N : Nat) (s : State) : Prop where
  handlers : Keys N s.handlers
  hub : s.hub.Within N
  engine : s.engine.Within N
  intents : ∀ intent ∈ s.intentCh.pending, intent.addr < N
  bids : s.bidCount ≤ N

theorem State.Within.mono (h : s.Within N) (le : N ≤ M) : s.Within M :=
  ⟨h.handlers.mono le, h.hub.mono le, h.engine.mono le,
    fun intent hi => Nat.lt_of_lt_of_le (h.intents intent hi) le, Nat.le_trans h.bids le⟩

/-- The step is one the relayer takes by itself, pings apart (`Hub.own`). -/
def own (s : State) : Action → Bool
  | .post _ _ _ => false
  | .message _ _ => false
  | .hub a => s.hub.own a
  | _ => true

/-- A bound for the names a step may give. -/
def State.named (s : State) : Action → Nat
  | .post h _ _ => h + 1
  | .message _ _ => s.bidCount + 1
  | .hub (.serve c) => c + 1
  | _ => 0

theorem named_of_own (h : own s a = true) : s.named a = 0 := by
  cases a with
  | post _ _ _ | message _ _ => cases h
  | hub b =>
    cases b with
    | serve c => cases h
    | _ => rfl
  | _ => rfl

/-- The engine's own steps make no call. -/
theorem internal_calls {b : Auction.Action} (inside : internal b = true) :
    b.names = none ∧ b.does = 1 ∧ b.brings = 0 := by
  cases b with
  | register _ | launch _ | lookupBid _ | appendBid _ | fireTimer _ | lookupWinner _
  | selectWinner _ | publish _ | cleanup _ => exact ⟨rfl, rfl, rfl⟩
  | invokeStart _ _ | returnStart _ | invokeBid _ _ | returnBid _ | receive | park => cases inside

/-- The names stay below a bound that holds for the new ones. -/
theorem State.Within.step (within : s.Within N) (sane : Sane s) (step : Step p s a s' o)
    (below : s.named a ≤ N) : s'.Within N := by
  cases step with
  | refuse _ _ | accept _ _ => exact { within with handlers := within.handlers.update below }
  | @push h intent intentCh ready sent =>
    have hh : h < N := within.handlers h _ ready
    refine { within with
      handlers := within.handlers.move ready
      hub := { within.hub with broadcasts := within.hub.broadcasts.update hh }
      intents := ?_ }
    intro i hi
    rw [(Chan.pending_trySend sent).1, List.mem_append, List.mem_singleton] at hi
    rcases hi with hi | rfl
    · exact within.intents i hi
    · rw [sane.ready h _ ready]
      exact hh
  | atCapacity ready _ => exact { within with handlers := within.handlers.move ready }
  | replyAccepted stood _ | replyError stood =>
    exact { within with handlers := within.handlers.move stood }
  | @hub b hub o move =>
    refine { within with hub := (Hub.next_cases move).within sane.hub within.hub ?_ }
    intro c hc
    cases b with
    | serve c' =>
      cases hc
      exact below
    | _ => cases hc
  | ignore _ _ => exact within
  | readBid _ _ _ | dropBid _ _ _ => exact { within with bids := below }
  | @dispatchIntent intent intentCh waiting taken fresh =>
    have hpending := (Chan.pending_take taken).1
    have haddr : intent.addr < N := within.intents intent (hpending ▸ List.mem_cons_self)
    refine { within with
      engine := { within.engine with starts := within.engine.starts.update haddr }
      intents := ?_ }
    intro i hi
    exact within.intents i (hpending ▸ List.mem_cons_of_mem _ hi)
  | parkIntent _ parked =>
    exact { within with intents := by rw [(Chan.pending_park parked).1]; exact within.intents }
  | returnIntent _ call =>
    exact { within with
      engine := { within.engine with starts := within.engine.starts.move call } }
  | @dispatchBid bid bidCh waiting taken fresh =>
    have hbelow : bid.addr < s.bidCount :=
      sane.numbered.below bid ((Chan.pending_take taken).1 ▸ List.mem_cons_self)
    have haddr : bid.addr < N := Nat.lt_of_lt_of_le hbelow within.bids
    exact { within with
      engine := { within.engine with bids := within.engine.bids.update haddr } }
  | returnBid _ call =>
    exact { within with engine := { within.engine with bids := within.engine.bids.move call } }
  | @engine b engine o inside move =>
    refine { within with engine := (Auction.next_cases move).within within.engine ?_ }
    intro c hc
    rw [(internal_calls inside).1] at hc
    cases hc
  | receive _ _ | parkExecutor _ _ => exact { within with engine := { within.engine with } }
  | parkBid _ _ | settle _ _ _ | fail _ _ _ | notify _ _ | notifyDropped _ _ | drain _
  | parkDrain _ => exact { within with }

/-- Every state that is reached has finitely many names. -/
theorem exists_within (path : (system p).Path (.init buf q) tr s) : ∃ N, s.Within N := by
  induction path with
  | nil =>
    exact ⟨0, .nil, ⟨.nil, .nil⟩, ⟨.nil, .nil, .nil⟩, fun _ hi => absurd hi List.not_mem_nil,
      Nat.le_refl 0⟩
  | @snoc tr s s' a o path _ step ih =>
    obtain ⟨N, within⟩ := ih
    have hmore := within.mono (Nat.le_max_left N (s.named a))
    exact ⟨_, hmore.step (sane path) (next_cases step) (Nat.le_max_right N (s.named a))⟩

/-- The work of the handlers when one of them moves on. -/
theorem State.Within.work_setHandler (within : s.Within N) {h : HandlerId} {old : Handler}
    (stood : s.handlers h = some old) (new : Handler) :
    (s.setHandler h new).work N + old.work N = s.work N + new.work N := by
  have hmove := within.handlers.weight_move (w := Handler.work N) (v := new) stood
  simp only [State.work, State.setHandler, State.queued]
  omega

/-- **The relayer's own steps use up work.** -/
theorem own_uses (sane : Sane s) (within : s.Within N) (step : Step p s a s' o)
    (mine : own s a = true) : s'.work N < s.work N := by
  have hconsistent := sane.engine
  cases step with
  | refuse _ _ | accept _ _ | ignore _ _ | readBid _ _ _ | dropBid _ _ _ => cases mine
  | @push h intent intentCh ready sent =>
    -- the request pays for its place on the channel and for its broadcast
    have hh : h < N := within.handlers h _ ready
    have hfresh : s.hub.broadcasts h = none :=
      (sane.carried h).none (by simp [ready]) (by simp [ready])
    have hhandlers := within.handlers.weight_move (w := Handler.work N)
      (v := .broadcasting intent) ready
    have hbroadcast := weight_new (w := Broadcast.work N) (v := .entered intent) hh hfresh
    have hload := Chan.load_trySend (w := fun _ => 16) sent
    simp only [Handler.work] at hhandlers
    simp only [Broadcast.work] at hbroadcast
    simp only [State.work, State.setHandler, State.queued, Hub.call, Hub.setBroadcast, Hub.work,
      hbroadcast]
    omega
  | @atCapacity h intent ready full =>
    have hmove := within.work_setHandler ready (.failing atCapacity)
    simp only [Handler.work] at hmove
    omega
  | @replyAccepted h intent pushed _ =>
    have hmove := within.work_setHandler pushed .done
    simp only [Handler.work] at hmove
    omega
  | replyError failing =>
    have hmove := within.work_setHandler failing .done
    simp only [Handler.work] at hmove
    omega
  | @hub b hub o move =>
    have hless := (Hub.next_cases move).uses sane.hub within.hub mine
    simp only [State.work, State.queued]
    omega
  | @dispatchIntent intent intentCh waiting taken fresh =>
    have haddr : intent.addr < N :=
      within.intents intent ((Chan.pending_take taken).1 ▸ List.mem_cons_self)
    have hload := Chan.load_take (w := fun _ => 16) taken
    have hengine := (Auction.Step.invokeStart fresh : Auction.Step s.engine
      (.invokeStart intent.addr intent) _ _).uses hconsistent within.engine
        (by intro c hc; cases hc; exact haddr)
    simp only [Auction.Action.does, Auction.Action.brings] at hengine
    simp only [State.work, State.queued, waiting, Dispatcher.work]
    omega
  | parkIntent waiting parked =>
    have hload := Chan.load_park (w := fun _ => 16) parked
    simp only [State.work, State.queued]
    omega
  | @returnIntent intent i err calling call =>
    have hengine := within.engine.work_setStart call .returned
    simp only [StartCall.work] at hengine
    simp only [State.work, State.queued, calling, Dispatcher.work]
    omega
  | @dispatchBid bid bidCh waiting taken fresh =>
    have hbelow : bid.addr < s.bidCount :=
      sane.numbered.below bid ((Chan.pending_take taken).1 ▸ List.mem_cons_self)
    have haddr : bid.addr < N := Nat.lt_of_lt_of_le hbelow within.bids
    have hload := Chan.load_take (w := fun _ => 5) taken
    have hengine := (Auction.Step.invokeBid fresh : Auction.Step s.engine
      (.invokeBid bid.addr bid.val) _ _).uses hconsistent within.engine
        (by intro c hc; cases hc; exact haddr)
    simp only [Auction.Action.does, Auction.Action.brings] at hengine
    simp only [State.work, State.queued, waiting, Dispatcher.work]
    omega
  | parkBid waiting parked =>
    have hload := Chan.load_park (w := fun _ => 5) parked
    simp only [State.work, State.queued]
    omega
  | @returnBid bid b err calling call =>
    have hengine := within.engine.work_setBid call .returned
    simp only [BidCall.work] at hengine
    simp only [State.work, State.queued, calling, Dispatcher.work]
    omega
  | @engine b engine o inside move =>
    obtain ⟨hnames, hdoes, hbrings⟩ := internal_calls inside
    have hengine := (Auction.next_cases move).uses hconsistent within.engine
      (by intro c hc; rw [hnames] at hc; cases hc)
    rw [hdoes, hbrings] at hengine
    simp only [State.work, State.queued]
    omega
  | @receive v ch waiting taken =>
    have hengine := (Auction.Step.receive taken).uses hconsistent within.engine
      (by intro c hc; cases hc)
    simp only [Auction.Action.does, Auction.Action.brings] at hengine
    simp only [State.work, State.queued, waiting, Executor.work]
    omega
  | @parkExecutor ch waiting parked =>
    have hengine := (Auction.Step.park parked).uses hconsistent within.engine
      (by intro c hc; cases hc)
    simp only [Auction.Action.does, Auction.Action.brings] at hengine
    simp only [State.work, State.queued]
    omega
  | settle executing _ _ =>
    simp only [State.work, State.queued, executing, Executor.work]
    omega
  | fail executing _ _ =>
    simp only [State.work, State.queued, executing, Executor.work]
    omega
  | notify failed sent =>
    have hload := Chan.load_trySend (w := fun _ => 1) sent
    simp only [State.work, State.queued, failed, Executor.work]
    omega
  | notifyDropped failed _ =>
    simp only [State.work, State.queued, failed, Executor.work]
    omega
  | drain taken =>
    have hload := Chan.load_take (w := fun _ => 1) taken
    simp only [State.work, State.queued]
    omega
  | parkDrain parked =>
    have hload := Chan.load_park (w := fun _ => 1) parked
    simp only [State.work, State.queued]
    omega

/-! ## A relayer without moves -/

/-- **The relayer at rest.** -/
structure Rest (s : State) : Prop where
  /-- Every request is answered. -/
  handlers : ∀ h handler, s.handlers h = some handler → handler = .done
  hub : s.hub.Idle
  intentDispatcher : s.intentDispatcher = .waiting ∧ s.intentCh.receiver.isParked = true
  bidDispatcher : s.bidDispatcher = .waiting ∧ s.bidCh.receiver.isParked = true
  starts : ∀ c call, s.engine.starts c = some call → call = .returned
  bids : ∀ c call, s.engine.bids c = some call → call = .returned
  tasks : ∀ g task, s.engine.tasks g = some task → task.phase = .done
  auctions : ∀ id, s.engine.engine.auctions id = none
  executor : s.executor = .waiting ∧ s.engine.engine.voucherCh.receiver.isParked = true
  drainer : s.txFailedCh.receiver.isParked = true

/-- An engine without moves of its own is still. -/
theorem still_of_stuck (stuck : ∀ b, next p s (.engine b) = none) : Still s.engine := by
  have hstuck : ∀ b, internal b = true → Auction.next s.engine b = none := by
    intro b inside
    have h := stuck b
    simp only [next, inside, if_true, onEngine] at h
    split at h
    · assumption
    · cases h
  exact ⟨fun _ => hstuck _ rfl, fun _ => hstuck _ rfl, fun _ => hstuck _ rfl,
    fun _ => hstuck _ rfl, fun _ => hstuck _ rfl, fun _ => hstuck _ rfl, fun _ => hstuck _ rfl,
    fun _ => hstuck _ rfl, fun _ => hstuck _ rfl⟩

theorem Sane.hub_idle (sane : Sane s)
    (stuck : ∀ b, s.hub.own b = true → next p s (.hub b) = none) : s.hub.Idle := by
  have hstuck : ∀ b, s.hub.own b = true → s.hub.next p.sendBufSize b = none := by
    intro b hb
    have h := stuck b hb
    simp only [next] at h
    split at h
    · assumption
    · cases h
  exact sane.hub.idle hstuck

/-- While the engine is still, the intent dispatcher is not kept in a call. -/
theorem Sane.intentDispatcher_waiting (sane : Sane s) (still : Still s.engine)
    (stuck : next p s .returnIntent = none) : s.intentDispatcher = .waiting := by
  cases hd : s.intentDispatcher with
  | waiting => rfl
  | calling intent =>
    obtain ⟨call, hcall, hbusy⟩ := (sane.starts intent.addr).mpr ⟨intent, hd, rfl⟩
    obtain ⟨i, err, rfl⟩ := (still.start hcall).resolve_right hbusy
    simp [next, hd, onEngine, Auction.next, hcall] at stuck

/-- While the engine is still, the bid dispatcher is not kept in a call. -/
theorem Sane.bidDispatcher_waiting (sane : Sane s) (still : Still s.engine)
    (stuck : next p s .returnBid = none) : s.bidDispatcher = .waiting := by
  cases hd : s.bidDispatcher with
  | waiting => rfl
  | calling bid =>
    obtain ⟨call, hcall, hbusy⟩ := (sane.bids bid.addr).mpr ⟨bid, hd, rfl⟩
    obtain ⟨b, err, rfl⟩ := (still.bid hcall).resolve_right hbusy
    simp [next, hd, onEngine, Auction.next, hcall] at stuck

/-- With its dispatcher waiting, every call of `StartAuction` has returned. -/
theorem Sane.starts_returned (sane : Sane s) (waiting : s.intentDispatcher = .waiting) {c : CallId}
    {call : StartCall} (stands : s.engine.starts c = some call) : call = .returned := by
  by_contra hbusy
  obtain ⟨intent, hcalling, _⟩ := (sane.starts c).mp ⟨call, stands, hbusy⟩
  rw [waiting] at hcalling
  cases hcalling

/-- With its dispatcher waiting, every call of `SubmitBid` has returned. -/
theorem Sane.bids_returned (sane : Sane s) (waiting : s.bidDispatcher = .waiting) {c : CallId}
    {call : BidCall} (stands : s.engine.bids c = some call) : call = .returned := by
  by_contra hbusy
  obtain ⟨bid, hcalling, _⟩ := (sane.bids c).mp ⟨call, stands, hbusy⟩
  rw [waiting] at hcalling
  cases hcalling

/-- An intent that can be received can be dispatched. -/
theorem Sane.intentCh_parked (sane : Sane s) (waiting : s.intentDispatcher = .waiting)
    (stuck : next p s .dispatchIntent = none) (stays : next p s .parkIntent = none) :
    s.intentCh.receiver.isParked = true := by
  refine Chan.parked_of_stuck ?_ (by simpa [next, waiting] using stays)
  cases htake : s.intentCh.take with
  | none => rfl
  | some taken =>
    have hfresh := sane.uncalled taken.1 ((Chan.pending_take htake).1 ▸ List.mem_cons_self)
    simp [next, waiting, htake, onEngine, Auction.next, hfresh] at stuck

/-- A bid that can be received can be dispatched. -/
theorem Sane.bidCh_parked (sane : Sane s) (waiting : s.bidDispatcher = .waiting)
    (stuck : next p s .dispatchBid = none) (stays : next p s .parkBid = none) :
    s.bidCh.receiver.isParked = true := by
  refine Chan.parked_of_stuck ?_ (by simpa [next, waiting] using stays)
  cases htake : s.bidCh.take with
  | none => rfl
  | some taken =>
    have hfresh := sane.numbered.uncalled taken.1 ((Chan.pending_take htake).1 ▸ List.mem_cons_self)
    simp [next, waiting, htake, onEngine, Auction.next, hfresh] at stuck

/-- The executor is not kept in an execution: the chain answers, if with an error. -/
theorem executor_waiting (stuck : ∀ out, next p s (.execute out) = none)
    (stays : next p s .notify = none) : s.executor = .waiting := by
  cases he : s.executor with
  | waiting => rfl
  | executing v =>
    have hexecute := stuck (TxManager.Sample.outside (.ok ()) (.ok 0))
    simp [next, he] at hexecute
  | failed v =>
    simp only [next, he] at stays
    split at stays <;> cases stays

theorem voucherCh_parked (waiting : s.executor = .waiting) (stuck : next p s .receive = none)
    (stays : next p s .parkExecutor = none) :
    s.engine.engine.voucherCh.receiver.isParked = true := by
  refine Chan.parked_of_stuck ?_ ?_
  · cases htake : s.engine.engine.voucherCh.take with
    | none => rfl
    | some taken => simp [next, waiting, htake, onEngine, Auction.next] at stuck
  · cases hpark : s.engine.engine.voucherCh.park with
    | none => rfl
    | some ch => simp [next, waiting, onEngine, Auction.next, hpark] at stays

/-- With the hub idle, a request is not kept from its answer. -/
theorem Sane.handler_done (sane : Sane s) (idle : s.hub.Idle) {h : HandlerId}
    (stuck : next p s (.push h) = none) (stays : next p s (.reply h) = none) {handler : Handler}
    (stands : s.handlers h = some handler) : handler = .done := by
  cases handler with
  | ready intent =>
    simp only [next, stands] at stuck
    split at stuck <;> cases stuck
  | broadcasting intent =>
    have hfinished : s.hub.broadcasts h = some .finished := by
      have hcarried := sane.carried h
      cases hb : s.hub.broadcasts h with
      | none =>
        rw [hb, stands] at hcarried
        exact absurd rfl (hcarried intent)
      | some broadcast => rw [idle.broadcasts h broadcast hb]
    simp only [next, stands, hfinished] at stays
    cases stays
  | failing response =>
    simp only [next, stands] at stays
    cases stays
  | done => rfl

/-- **A relayer that cannot move is at rest.** -/
theorem Sane.rest (sane : Sane s) (stuck : ∀ a, own s a = true → next p s a = none) : Rest s := by
  have hstill : Still s.engine := still_of_stuck fun b => stuck (.engine b) rfl
  have hidle : s.hub.Idle := sane.hub_idle fun b hb => stuck (.hub b) hb
  have hintents := sane.intentDispatcher_waiting hstill (stuck .returnIntent rfl)
  have hbids := sane.bidDispatcher_waiting hstill (stuck .returnBid rfl)
  have hexecutor := executor_waiting (fun out => stuck (.execute out) rfl) (stuck .notify rfl)
  refine {
    handlers := fun h handler => sane.handler_done hidle (stuck (.push h) rfl) (stuck (.reply h) rfl)
    hub := hidle
    intentDispatcher := ⟨hintents,
      sane.intentCh_parked hintents (stuck .dispatchIntent rfl) (stuck .parkIntent rfl)⟩
    bidDispatcher := ⟨hbids,
      sane.bidCh_parked hbids (stuck .dispatchBid rfl) (stuck .parkBid rfl)⟩
    starts := fun c call => sane.starts_returned hintents
    bids := fun c call => sane.bids_returned hbids
    tasks := fun g task => hstill.task sane.engine sane.launchable
    auctions := hstill.auctions sane.engine sane.launchable
    executor := ⟨hexecutor,
      voucherCh_parked hexecutor (stuck .receive rfl) (stuck .parkExecutor rfl)⟩
    drainer := ?_ }
  refine Chan.parked_of_stuck ?_ (by simpa [next] using stuck .parkDrain rfl)
  cases htake : s.txFailedCh.take with
  | none => rfl
  | some taken =>
    have hdrain := stuck .drain rfl
    simp [next, htake] at hdrain

/-! ## Coming to rest -/

/-- A state that was reached, with its names below `N`. -/
def Reached (p : Platform) (buf : Buffers) (q : NonceQueue) (N : Nat) (s : State) : Prop :=
  (∃ tr, (system p).Path (.init buf q) tr s) ∧ s.Within N

theorem reached_uses (p : Platform) (buf : Buffers) (q : NonceQueue) (N : Nat) :
    ∀ s a s' o, Reached p buf q N s → own s a = true → (system p).next s a = some (s', o) →
      Reached p buf q N s' ∧ s'.work N < s.work N := by
  rintro s a s' o ⟨⟨tr, path⟩, within⟩ mine step
  have hbelow : s.named a ≤ N := by rw [named_of_own mine]; exact Nat.zero_le N
  exact ⟨⟨⟨_, .snoc path trivial step⟩, within.step (sane path) (next_cases step) hbelow⟩,
    own_uses (sane path) within (next_cases step) mine⟩

/-- From every state that is reached the relayer can come to rest by itself. -/
theorem exists_rest (path : (system p).Path (.init buf q) tr s) :
    ∃ as t tr', (system p).run s as = some (t, tr') ∧ (system p).meets own s as = true ∧
      Rest t := by
  obtain ⟨N, within⟩ := exists_within path
  obtain ⟨as, t, tr', hrun, hmeets, hstuck⟩ :=
    System.exists_rest (reached_uses p buf q N) ⟨⟨tr, path⟩, within⟩
  exact ⟨as, t, tr', hrun, hmeets, (sane (path.trans (System.path_of_run hrun))).rest hstuck⟩

/-- **The relayer comes to rest**: from every state that is reached there is a bound on what it can
do by itself, pings apart, in whatever order; where it can do no more it is at rest, and it can get
there. -/
theorem comes_to_rest (path : (system p).Path (.init buf q) tr s) :
    (∃ bound, ∀ as t tr', (system p).run s as = some (t, tr') →
      (system p).meets own s as = true →
        as.length ≤ bound ∧ ((∀ a, own t a = true → next p t a = none) → Rest t)) ∧
    ∃ as t tr', (system p).run s as = some (t, tr') ∧ (system p).meets own s as = true ∧
      Rest t := by
  obtain ⟨N, within⟩ := exists_within path
  refine ⟨⟨s.work N, ?_⟩, exists_rest path⟩
  intro as t tr' hrun hmeets
  have hlength := System.length_le_of_work (reached_uses p buf q N) ⟨⟨tr, path⟩, within⟩ hrun hmeets
  exact ⟨by omega, (sane (path.trans (System.path_of_run hrun))).rest⟩

namespace Sample

/-- A request whose intent has just been pushed, with one solver to tell. -/
def pushing : List Action := connect ++ [.post 0 ⟨ascii "POST", body [1]⟩ 0, .push 0]

def pushed : List Event := [.hub (.joined 0), .enqueued 0 (intent 0 [1])]

theorem exists_pushed : ∃ s, (system platform).Path (.init buffers ⟨7⟩) pushed s := by
  have hrun : ((system platform).run (.init buffers ⟨7⟩) pushing).map Prod.snd = some pushed := by
    decide +kernel
  exact System.exists_path_of_run hrun

end Sample

/-- A request comes to its end. -/
theorem comes_to_rest_pushed : ∃ s,
    (system Sample.platform).Path (.init Sample.buffers ⟨7⟩) Sample.pushed s ∧
    ∃ as t tr', (system Sample.platform).run s as = some (t, tr') ∧
      (system Sample.platform).meets own s as = true ∧ Rest t := by
  obtain ⟨s, path⟩ := Sample.exists_pushed
  exact ⟨s, path, (comes_to_rest path).2⟩

/-! ## The accounts at rest -/

/-- The stages at which an intent stays. -/
def Stage.isFinal : Stage → Bool
  | .rejected => true
  | .noBids => true
  | .voucherDropped => true
  | .settled => true
  | .notified => true
  | .notifyDropped => true
  | _ => false

/-- At rest no intent is on its way. -/
theorem Rest.tally (rest : Rest s) (tr : List Event) (h : HandlerId) {stage : Stage}
    (passing : stage.isFinal = false) : tally tr s h stage = 0 := by
  cases stage with
  | queued =>
    have hentered : enteredCount s.engine h = 0 := by
      unfold enteredCount
      split
      · rename_i hcall
        cases rest.starts h _ hcall
      · rfl
    simp only [Relayer.tally, Chan.pending_of_parked rest.intentDispatcher.2, hentered]
    rfl
  | auctioning =>
    simp only [Relayer.tally, openCount]
    split
    · rename_i task htask
      rw [rest.tasks h task htask]
      rfl
    · rfl
  | voucherQueued =>
    simp only [Relayer.tally, Chan.pending_of_parked rest.executor.2]
    rfl
  | executing =>
    simp only [Relayer.tally, rest.executor.1]
    rfl
  | rejected | noBids | voucherDropped | settled | notified | notifyDropped => cases passing

/-- **At rest every request has its end**: it was answered with an error and nothing else came of
it, or it enqueued its intent, was answered 202, and its intent came to one of the final stages and
to no other. The failures that were notified are those that were drained. -/
theorem rest_settles (path : (system p).Path (.init buf q) tr s) (rest : Rest s) :
    (∀ h, (s.handlers h).isSome = true →
      (∃ intent stage,
        journal Event.handler? h tr =
          [.enqueued h intent, .replied h (.accepted intent.val.id.bytes)] ∧
        stage.isFinal = true ∧
        ∀ stage', tally tr s h stage' = if stage' = stage then 1 else 0) ∨
      ∃ response, (∀ id, response ≠ .accepted id) ∧
        journal Event.handler? h tr = [.replied h response]) ∧
    tr.filterMap Event.notifiedID? = tr.filterMap Event.drained? := by
  constructor
  · intro h hsome
    obtain ⟨handler, hh⟩ := Option.isSome_iff_exists.mp hsome
    have hcourse := handlerCourses path h
    rw [hh, rest.handlers h handler hh] at hcourse
    rcases hcourse with ⟨intent, haddr, hl⟩ | herror
    · have hmem : .enqueued h intent ∈ journal Event.handler? h tr := by
        rw [hl]
        exact List.mem_cons_self
      have henqueued : .enqueued h intent ∈ tr := (mem_journal.mp hmem).1
      have honce := countP_enqueued path henqueued
      rw [balance path h] at honce
      obtain ⟨stage, hstage⟩ := Stage.unique honce
      refine .inl ⟨intent, stage, hl, ?_, hstage⟩
      cases hfinal : stage.isFinal with
      | true => rfl
      | false =>
        have hzero := rest.tally tr h hfinal
        rw [hstage stage, if_pos rfl] at hzero
        cases hzero
    · exact .inr herror
  · have hdrained := notifications path
    unfold Fifo at hdrained
    rw [hdrained, Chan.pending_of_parked rest.drainer, List.append_nil]

/-- A request that was pushed is answered, and its intent comes to one end. -/
theorem rest_settles_pushed : ∃ tr s,
    (system Sample.platform).Path (.init Sample.buffers ⟨7⟩) (Sample.pushed ++ tr) s ∧ Rest s ∧
    (∃ stage, journal Event.handler? 0 (Sample.pushed ++ tr) =
        [.enqueued 0 (Sample.intent 0 [1]), .replied 0 (.accepted [1])] ∧
      stage.isFinal = true ∧
      ∀ stage', tally (Sample.pushed ++ tr) s 0 stage' = if stage' = stage then 1 else 0) ∧
    tr.filterMap Event.notifiedID? = tr.filterMap Event.drained? := by
  obtain ⟨s, path⟩ := Sample.exists_pushed
  obtain ⟨as, t, tr, hrun, _, rest⟩ := exists_rest path
  have hpath := path.trans (System.path_of_run hrun)
  obtain ⟨hends, hdrained⟩ := rest_settles hpath rest
  have hpushed : .enqueued 0 (Sample.intent 0 [1]) ∈ Sample.pushed ++ tr :=
    List.mem_append_left _ (by decide)
  have hsome := Option.isSome_iff_exists.mpr (handler_of_enqueued hpath hpushed)
  obtain ⟨_, _, _, hl⟩ := enqueued_course hpath hpushed
  refine ⟨tr, t, hpath, rest, ?_, hdrained⟩
  rcases hends 0 hsome with ⟨intent, stage, hjournal, hfinal, hstage⟩ | ⟨response, _, hjournal⟩
  · obtain rfl : Sample.intent 0 [1] = intent := by
      rw [hl] at hjournal
      cases hjournal
      rfl
    exact ⟨stage, hjournal, hfinal, hstage⟩
  · rw [hl] at hjournal
    cases hjournal

end VynxRelayer.Relayer
