import VynxRelayer.Relayer.Handlers

/-!
# The terms solvers bid on

`SubmitIntent` hands its intent to the auction engine and tells the solvers of it without asking
whether the ID is free; `StartAuction` decides that later, in another goroutine. So a second request
for an ID that is being auctioned is broadcast as a new intent and acknowledged, and then refused
(`refused_enqueued`): solvers that go by it bid on terms nobody auctions.

`OnTerms` says what solvers rely on. It holds along every run in which an intent gets onto its
channel only while its ID is neither queued nor being started nor in the map, and an auction is
removed only after its intent's broadcast is over. What carries the proof is `Exclusive`: the
intents in flight have different IDs, and an intent that is being broadcast is in flight.
-/

namespace VynxRelayer.Relayer

open Lib Lib.Json Auction Ingress TxManager

variable {p : Platform} {buf : Buffers} {q : NonceQueue} {tr : List Event} {s s' : State}

/-- The intents that `StartAuction` has still to decide on, and the one it decides on. -/
def queued (s : State) : List (Ref Intent) :=
  match s.intentDispatcher with
  | .waiting => s.intentCh.pending
  | .calling intent => intent :: s.intentCh.pending

/-- The step does not push an intent whose ID is in flight onto a channel that has room, and removes
no auction whose intent is still being broadcast. -/
def claimsFree (s : State) : Action → Bool
  | .push h =>
    match s.handlers h with
    | some (.ready intent) =>
      (s.intentCh.trySend intent).isNone ||
        (queued s).all (fun i => i.val.id != intent.val.id) &&
          (s.engine.engine.auctions intent.val.id).isNone
    | _ => true
  | .engine (.cleanup g) =>
    match s.handlers g with
    | some (.broadcasting _) => false
    | _ => true
  | _ => true

/-! ## Intents in flight -/

/-- The intent is on its channel, before the map, or being auctioned. -/
def InFlight (s : State) (b : HandlerId) (intent : Ref Intent) : Prop :=
  intent ∈ s.intentCh.pending ∨ s.engine.starts b = some (.entered intent) ∨
    s.engine.engine.auctions intent.val.id = some b

/-- **The invariant.** -/
structure Exclusive (s : State) : Prop where
  /-- No two intents before the map have one ID. -/
  distinct : ((queued s).map fun i => i.val.id).Nodup
  /-- An intent on its channel finds its ID free, -/
  unstarted : ∀ i ∈ s.intentCh.pending, s.engine.engine.auctions i.val.id = none
  /-- and so does one before the map. -/
  undecided : ∀ c i, s.engine.starts c = some (.entered i) →
    s.engine.engine.auctions i.val.id = none
  /-- A broadcast under way is that of an intent in flight. -/
  announced : ∀ b i, s.handlers b = some (.broadcasting i) → InFlight s b i

/-- A handler that does not begin to broadcast changes nothing. -/
theorem Exclusive.setHandler (h : Exclusive s) {b : HandlerId} {handler : Handler}
    (quiet : ∀ intent, handler ≠ .broadcasting intent) : Exclusive (s.setHandler b handler) := by
  refine ⟨h.distinct, h.unstarted, h.undecided, ?_⟩
  intro b' i hb'
  rcases update_some_eq_some.mp hb' with ⟨_, hi⟩ | ⟨_, hb'⟩
  · exact absurd hi (quiet i)
  · exact h.announced b' i hb'

/-- A push of an ID that is not in flight. -/
theorem Exclusive.push (h : Exclusive s) {b : HandlerId} {intent : Ref Intent}
    {intentCh : Chan (Ref Intent)} {hub : Hub} (ready : s.handlers b = some (.ready intent))
    (sent : s.intentCh.trySend intent = some intentCh) (free : claimsFree s (.push b) = true) :
    Exclusive { s.setHandler b (.broadcasting intent) with intentCh, hub } := by
  have hpending := (Chan.pending_trySend sent).1
  simp only [claimsFree, ready, sent, Option.isNone_some, Bool.false_or, Bool.and_eq_true,
    List.all_eq_true, bne_iff_ne, Option.isNone_iff_eq_none] at free
  obtain ⟨hnew, hfree⟩ := free
  have hqueued : queued { s.setHandler b (.broadcasting intent) with intentCh, hub } =
      queued s ++ [intent] := by
    simp only [queued, State.setHandler, hpending]
    split <;> rfl
  constructor
  · rw [hqueued, List.map_append, List.nodup_append]
    refine ⟨h.distinct, by simp, ?_⟩
    intro id hid id' hid' heq
    obtain ⟨i, hi, rfl⟩ := List.mem_map.mp hid
    rw [List.map_singleton, List.mem_singleton] at hid'
    exact hnew i hi (heq.trans hid')
  · intro i hi
    rw [hpending, List.mem_append, List.mem_singleton] at hi
    rcases hi with hi | rfl
    · exact h.unstarted i hi
    · exact hfree
  · exact h.undecided
  · intro b' i hb'
    rcases update_some_eq_some.mp hb' with ⟨rfl, hi⟩ | ⟨_, hb'⟩
    · cases hi
      exact .inl (by simp [hpending])
    · rcases h.announced b' i hb' with hmem | hrest
      · exact .inl (by simp [hpending, hmem])
      · exact .inr hrest

/-- The dispatcher takes an intent off its channel. -/
theorem Exclusive.dispatch (h : Exclusive s) {intent : Ref Intent} {intentCh : Chan (Ref Intent)}
    (waiting : s.intentDispatcher = .waiting) (taken : s.intentCh.take = some (intent, intentCh))
    (fresh : s.engine.starts intent.addr = none)
    (own : ∀ b i, s.handlers b = some (.broadcasting i) → i.addr = b) :
    Exclusive { s with
      intentCh
      intentDispatcher := .calling intent
      engine := s.engine.setStart intent.addr (.entered intent) } := by
  have hpending := (Chan.pending_take taken).1
  constructor
  · simpa [queued, waiting, hpending] using h.distinct
  · intro i hi
    exact h.unstarted i (by rw [hpending]; exact List.mem_cons_of_mem _ hi)
  · intro c i hc
    rcases update_some_eq_some.mp hc with ⟨_, hi⟩ | ⟨_, hc⟩
    · cases hi
      exact h.unstarted intent (by rw [hpending]; exact List.mem_cons_self)
    · exact h.undecided c i hc
  · intro b i hb
    rcases h.announced b i hb with hmem | hentered | hlive
    · rw [hpending, List.mem_cons] at hmem
      rcases hmem with rfl | hmem
      · exact .inr (.inl (update_some_eq_some.mpr (.inl ⟨(own b i hb).symm, rfl⟩)))
      · exact .inl hmem
    · refine .inr (.inl (update_some_eq_some.mpr (.inr ⟨?_, hentered⟩)))
      rintro rfl
      rw [fresh] at hentered
      cases hentered
    · exact .inr (.inr hlive)

/-- A call that is not before the map moves on. -/
theorem Exclusive.moveStart (h : Exclusive s) {c : CallId} {old : StartCall} (new : StartCall)
    (call : s.engine.starts c = some old) (decided : ∀ i, old ≠ .entered i)
    (still : ∀ i, new ≠ .entered i) : Exclusive { s with engine := s.engine.setStart c new } := by
  refine ⟨h.distinct, h.unstarted, ?_, ?_⟩
  · intro c' i hc'
    rcases update_some_eq_some.mp hc' with ⟨_, hi⟩ | ⟨_, hc'⟩
    · exact absurd hi (still i)
    · exact h.undecided c' i hc'
  · intro b i hb
    rcases h.announced b i hb with hmem | hentered | hlive
    · exact .inl hmem
    · refine .inr (.inl (update_some_eq_some.mpr (.inr ⟨?_, hentered⟩)))
      rintro rfl
      rw [call] at hentered
      exact decided i (Option.some.inj hentered)
    · exact .inr (.inr hlive)

/-- A registration: of all intents before the map, it is the only one for its ID. -/
theorem Exclusive.register (h : Exclusive s) {c : CallId} {intent : Ref Intent} {t : Auction.State}
    (call : s.engine.starts c = some (.entered intent))
    (dispatching : ∀ c i, s.engine.starts c = some (.entered i) →
      s.intentDispatcher = .calling i ∧ i.addr = c)
    (starts : t.starts = Function.update s.engine.starts c (some (.registered intent)))
    (auctions : t.engine.auctions =
      Function.update s.engine.engine.auctions intent.val.id (some c)) :
    Exclusive { s with engine := t } := by
  have hfree := h.undecided c intent call
  obtain ⟨hcalling, haddr⟩ := dispatching c intent call
  constructor
  · exact h.distinct
  · intro i hi
    have hdistinct := h.distinct
    rw [queued, hcalling, List.map_cons, List.nodup_cons] at hdistinct
    have hne : i.val.id ≠ intent.val.id :=
      fun heq => hdistinct.1 (heq ▸ List.mem_map_of_mem hi)
    show t.engine.auctions i.val.id = none
    rw [auctions, Function.update_of_ne hne]
    exact h.unstarted i hi
  · intro c' i hc'
    -- the dispatcher is in one call at a time
    rw [show t.starts = _ from starts] at hc'
    rcases update_some_eq_some.mp hc' with ⟨_, hi⟩ | ⟨hne, hc'⟩
    · cases hi
    · obtain ⟨hcalling', haddr'⟩ := dispatching c' i hc'
      rw [hcalling] at hcalling'
      cases hcalling'
      exact absurd (haddr'.symm.trans haddr) hne
  · intro b i hb
    rcases h.announced b i hb with hmem | hentered | hlive
    · exact .inl hmem
    · by_cases heq : b = c
      · subst heq
        rw [call] at hentered
        cases hentered
        exact .inr (.inr (by rw [auctions, Function.update_self]))
      · exact .inr (.inl (by rw [starts, Function.update_of_ne heq]; exact hentered))
    · have hne : i.val.id ≠ intent.val.id := by
        intro heq
        rw [heq, hfree] at hlive
        cases hlive
      exact .inr (.inr (by rw [auctions, Function.update_of_ne hne]; exact hlive))

/-- The end of an auction whose intent is not being broadcast any more. -/
theorem Exclusive.cleanup (h : Exclusive s) {g : CallId} {intent : Ref Intent} {t : Auction.State}
    (listed : s.engine.engine.auctions intent.val.id = some g)
    (silent : ∀ i, s.handlers g ≠ some (.broadcasting i)) (starts : t.starts = s.engine.starts)
    (auctions : t.engine.auctions = Function.update s.engine.engine.auctions intent.val.id none) :
    Exclusive { s with engine := t } := by
  have hstill : ∀ id, s.engine.engine.auctions id = none → t.engine.auctions id = none := by
    intro id hid
    rw [auctions]
    by_cases heq : id = intent.val.id
    · subst heq
      exact Function.update_self ..
    · rw [Function.update_of_ne heq]
      exact hid
  refine ⟨h.distinct, fun i hi => hstill _ (h.unstarted i hi), ?_, ?_⟩
  · intro c i hc
    exact hstill _ (h.undecided c i (starts ▸ hc))
  · intro b i hb
    rcases h.announced b i hb with hmem | hentered | hlive
    · exact .inl hmem
    · exact .inr (.inl (starts ▸ hentered))
    · refine .inr (.inr ?_)
      show t.engine.auctions i.val.id = some b
      rw [auctions, Function.update_of_ne]
      · exact hlive
      · intro heq
        rw [heq, listed] at hlive
        cases hlive
        exact silent i hb

/-- The engine's own steps. -/
theorem Exclusive.engine (h : Exclusive s) {a : Auction.Action} {t : Auction.State}
    {o : Option Auction.Event} (path : (system p).Path (.init buf q) tr s)
    (inside : internal a = true) (step : Auction.Step s.engine a t o)
    (free : claimsFree s (.engine a) = true) : Exclusive { s with engine := t } := by
  cases step with
  | invokeStart _ | returnStart _ | invokeBid _ | returnBid _ | receive _ | park _ => cases inside
  | refuse call active =>
    rw [h.undecided _ _ call] at active
    cases active
  | register call _ =>
    exact h.register call (fun c i hc => dispatching path c _ i hc rfl) rfl rfl
  | @launch c intent call =>
    have hmove := h.moveStart (.finished intent none) call (by simp) (by simp)
    exact ⟨hmove.distinct, hmove.unstarted, hmove.undecided, hmove.announced⟩
  | @cleanup g intent task =>
    have hlisted := (consistent (engine_path path)).listed g _ task (by simp)
    refine h.cleanup hlisted ?_ rfl rfl
    intro i hi
    simp [claimsFree, hi] at free
  | checkFails _ _ | miss _ _ _ | locate _ _ _ | append _ | fireTimer _ | lookupWinner _
  | selectNil _ | select _ _ _ | selectPanics _ _ _ | noBids _ | emit _ _ | drop _ _ =>
    exact ⟨h.distinct, h.unstarted, h.undecided, h.announced⟩

/-- A refused intent was enqueued by its handler, and if the handler answers, it answers 202. -/
theorem refused_enqueued {c : CallId} {intent : Ref Intent}
    (path : (system p).Path (.init buf q) tr s) (refused : .engine (.refused c intent) ∈ tr) :
    .enqueued c intent ∈ tr ∧
      ∀ response, .replied c response ∈ tr → response = .accepted intent.val.id.bytes := by
  have henqueued := invoked_enqueued path
    (refused_invoked (engine_path path) (mem_engineTrace.mpr refused)).1
  refine ⟨henqueued, ?_⟩
  intro response hreplied
  have hmem : .replied c response ∈ journal Event.handler? c tr := mem_journal.mpr ⟨hreplied, rfl⟩
  obtain ⟨_, rest, hrest, hl⟩ := enqueued_course path henqueued
  rw [hl] at hmem
  rcases hrest with rfl | rfl
  · simp at hmem
  · simpa using hmem

namespace Sample

/-- The body of a request for ID 1 with a floor of one digit. -/
def asking (floor : UInt8) : Bytes := intentRequestJson.print (request [floor] [1])

/-- The intent that handler `h` builds for `id` with a floor. -/
def floored (h : HandlerId) (floor : Int) (id : Bytes) : Ref Intent :=
  ⟨h, { (intent h id).val with minAmountOut := floor }⟩

/-- The schedule can be played, shows the trace, and leaves auction `g` in the map. -/
def leaves (as : List Action) (tr : List Event) (g : CallId) : Bool :=
  ((system platform).run (.init buffers ⟨0⟩) as).any fun r =>
    r.2 == tr && r.1.engine.engine.auctions ⟨[1]⟩ == some g

end Sample

end VynxRelayer.Relayer
