import VynxRelayer.Relayer.Flows

/-!
# The handlers and the dispatchers

Each handler pushes at most once and answers at most once, 202 only after its push
(`handlerCourses`). The intent dispatcher makes one call at a time, under the number of the handler
whose intent it took (`addressed`), and a call of `StartAuction` that has not returned is the one it
is in (`dispatching`).

The numbers of calls are a device of the model. The last section shows that they stand in nobody's
way.
-/

namespace VynxRelayer.Relayer

open Lib Auction Ingress TxManager

variable {p : Platform} {buf : Buffers} {q : NonceQueue} {tr : List Event} {s : State}

/-! ## The handlers -/

/-- The handler that an event is about. -/
def Event.handler? : Event → Option HandlerId
  | .enqueued h _ => some h
  | .replied h _ => some h
  | _ => none

/-- What a handler has written, by where it stands. -/
def HandlerCourse (h : HandlerId) : Option Handler → List Event → Prop
  | none, l => l = []
  | some (.ready intent), l => intent.addr = h ∧ l = []
  | some (.broadcasting intent), l => intent.addr = h ∧ l = [.enqueued h intent]
  | some (.failing response), l => (∀ id, response ≠ .accepted id) ∧ l = []
  | some .done, l =>
    (∃ intent, intent.addr = h ∧
      l = [.enqueued h intent, .replied h (.accepted intent.val.id.bytes)]) ∨
    ∃ response, (∀ id, response ≠ .accepted id) ∧ l = [.replied h response]

/-- **Every handler's course**: it pushes its own intent at most once, and answers at most once; 202
after its push, an error without one. -/
theorem handlerCourses (h : (system p).Path (.init buf q) tr s) :
    Told Event.handler? HandlerCourse s.handlers tr := by
  induction h with
  | nil => intro r; rfl
  | snoc _ _ step ih =>
    cases next_cases step with
    | refuse fresh invalid =>
      exact ih.turn fresh rfl (by intro e he; cases he) fun l hl => ⟨submitIntent_error invalid, hl⟩
    | accept fresh valid =>
      exact ih.turn fresh rfl (by intro e he; cases he) fun l hl => ⟨(submitIntent_ok valid).1, hl⟩
    | push ready _ =>
      refine ih.write ready rfl (by intro e he; cases he; rfl) ?_
      rintro l ⟨haddr, rfl⟩
      exact ⟨haddr, rfl⟩
    | atCapacity ready _ =>
      refine ih.turn ready rfl (by intro e he; cases he) ?_
      rintro l ⟨_, rfl⟩
      exact ⟨fun id h => Response.noConfusion h, rfl⟩
    | replyAccepted pushed _ =>
      refine ih.write pushed rfl (by intro e he; cases he; rfl) ?_
      rintro l ⟨haddr, rfl⟩
      exact .inl ⟨_, haddr, rfl⟩
    | replyError failing =>
      refine ih.write failing rfl (by intro e he; cases he; rfl) ?_
      rintro l ⟨herror, rfl⟩
      exact .inr ⟨_, herror, rfl⟩
    | engine _ _ | hub _ => exact ih.silent rfl (shown_map fun _ => rfl)
    | ignore _ _ | readBid _ _ _ | dropBid _ _ _ | dispatchIntent _ _ _ | parkIntent _ _
    | returnIntent _ _ | dispatchBid _ _ _ | parkBid _ _ | returnBid _ _ | receive _ _
    | parkExecutor _ _ | settle _ _ _ | fail _ _ _ | notify _ _ | notifyDropped _ _ | drain _
    | parkDrain _ => exact ih.silent rfl (by intro e he; cases he <;> rfl)

/-- What a handler can have written: nothing; its push, and 202 behind it or not; or an error. -/
theorem HandlerCourse.shape {h : HandlerId} {handler : Option Handler} {l : List Event}
    (course : HandlerCourse h handler l) :
    l = [] ∨
    (∃ intent rest, intent.addr = h ∧
      (rest = [] ∨ rest = [.replied h (.accepted intent.val.id.bytes)]) ∧
      l = .enqueued h intent :: rest) ∨
    ∃ response, (∀ id, response ≠ .accepted id) ∧ l = [.replied h response] := by
  cases handler with
  | none => exact .inl course
  | some handler =>
    cases handler with
    | ready i => exact .inl course.2
    | failing response => exact .inl course.2
    | broadcasting i => exact .inr (.inl ⟨i, [], course.1, .inl rfl, course.2⟩)
    | done =>
      rcases course with ⟨i, haddr, hl⟩ | herror
      · exact .inr (.inl ⟨i, _, haddr, .inr rfl, hl⟩)
      · exact .inr (.inr herror)

/-- What a handler that pushed has written. -/
theorem enqueued_course {h : HandlerId} {intent : Ref Intent}
    (path : (system p).Path (.init buf q) tr s) (enqueued : .enqueued h intent ∈ tr) :
    intent.addr = h ∧ ∃ rest, (rest = [] ∨ rest = [.replied h (.accepted intent.val.id.bytes)]) ∧
      journal Event.handler? h tr = .enqueued h intent :: rest := by
  have hmem : .enqueued h intent ∈ journal Event.handler? h tr := mem_journal.mpr ⟨enqueued, rfl⟩
  rcases (handlerCourses path h).shape with
    hl | ⟨i, rest, haddr, hrest, hl⟩ | ⟨response, _, hl⟩
  · rw [hl] at hmem
    cases hmem
  · have hi : intent = i := by
      rw [hl] at hmem
      rcases hrest with rfl | rfl <;> simpa using hmem
    subst hi
    exact ⟨haddr, rest, hrest, hl⟩
  · rw [hl] at hmem
    simp at hmem

theorem handler_of_enqueued {h : HandlerId} {intent : Ref Intent}
    (path : (system p).Path (.init buf q) tr s) (enqueued : .enqueued h intent ∈ tr) :
    ∃ handler, s.handlers h = some handler := by
  obtain ⟨_, rest, _, hl⟩ := enqueued_course path enqueued
  have hcourse := handlerCourses path h
  cases hh : s.handlers h with
  | none =>
    rw [hh, hl] at hcourse
    cases hcourse
  | some handler => exact ⟨handler, rfl⟩

/-- A handler that answered 202 has pushed an intent with the ID it answered. -/
theorem accepted_course {h : HandlerId} {id : Bytes}
    (path : (system p).Path (.init buf q) tr s) (replied : .replied h (.accepted id) ∈ tr) :
    ∃ intent, intent.val.id.bytes = id ∧
      journal Event.handler? h tr = [.enqueued h intent, .replied h (.accepted id)] := by
  have hmem : .replied h (.accepted id) ∈ journal Event.handler? h tr :=
    mem_journal.mpr ⟨replied, rfl⟩
  rcases (handlerCourses path h).shape with
    hl | ⟨i, rest, _, hrest, hl⟩ | ⟨response, herror, hl⟩
  · rw [hl] at hmem
    cases hmem
  · rw [hl] at hmem
    rcases hrest with rfl | rfl
    · simp at hmem
    · have hid : id = i.val.id.bytes := by simpa using hmem
      subst hid
      exact ⟨i, rfl, hl⟩
  · rw [hl] at hmem
    have heq : response = .accepted id := by simpa [eq_comm] using hmem
    exact absurd heq (herror id)

/-- An enqueue is counted once under the address of its intent. -/
theorem countP_enqueued {h : HandlerId} {intent : Ref Intent}
    (path : (system p).Path (.init buf q) tr s) (enqueued : .enqueued h intent ∈ tr) :
    (tr.filterMap Event.enqueued?).countP (·.addr == h) = 1 := by
  have hcount : (tr.filterMap Event.enqueued?).countP (·.addr == h) =
      (journal Event.handler? h tr).countP fun e => e.enqueued?.isSome := by
    unfold journal
    rw [List.countP_filterMap, List.countP_filter]
    refine List.countP_congr ?_
    intro e he
    cases e with
    | enqueued h' i => simp [Event.enqueued?, Event.handler?, (enqueued_course path he).1]
    | _ => simp [Event.enqueued?]
  obtain ⟨_, rest, hrest, hl⟩ := enqueued_course path enqueued
  rw [hcount, hl]
  rcases hrest with rfl | rfl <;> rfl

/-! ## The dispatcher -/

/-- The dispatcher calls `StartAuction` under the address of the intent it took. -/
theorem addressed (h : (system p).Path (.init buf q) tr s) : Addressed (engineTrace tr) := by
  intro c intent hmem
  obtain ⟨xs, ys, s₁, a, s₂, rfl, _, _, hnext, _⟩ := h.at_mem (mem_engineTrace.mp hmem)
  generalize ho : some (Event.engine (.startInvoked c intent)) = o at hnext
  cases next_cases hnext with
  | dispatchIntent _ _ _ => cases ho; rfl
  | engine inside step => cases (internal_quiet inside step ho.symm).1
  | hub _ => obtain ⟨f, _, hf⟩ := Option.map_eq_some_iff.mp ho.symm; cases hf
  | _ => cases ho

/-- A call of `StartAuction` is counted once under the address of its intent. -/
theorem started_count (h : (system p).Path (.init buf q) tr s) (r : HandlerId) :
    (tr.filterMap Event.started?).countP (·.addr == r) =
      if (s.engine.starts r).isSome then 1 else 0 := by
  rw [← countP_started (engine_path h) (addressed h) r, ← filterMap_engine]
  rfl

/-- What `StartAuction` is called with was enqueued, by the handler whose number the call has. -/
theorem invoked_enqueued {c : CallId} {intent : Ref Intent}
    (h : (system p).Path (.init buf q) tr s) (invoked : .startInvoked c intent ∈ engineTrace tr) :
    .enqueued c intent ∈ tr := by
  obtain ⟨e, he, henq⟩ := (intents h).mem_sent (mem_engineTrace.mp invoked) rfl
  cases e <;> cases henq
  rename_i r
  have hr : r = c := by rw [← (enqueued_course h he).1, addressed h c intent invoked]
  exact hr ▸ he

/-- The intent of a call that has not returned. -/
def pendingCall : StartCall → Option (Ref Intent)
  | .entered intent => some intent
  | .registered intent => some intent
  | .finished intent _ => some intent
  | .returned => none

/-- The engine's own steps neither begin nor end a call. -/
theorem pendingCall_internal {b : Auction.Action} {e e' : Auction.State} {o : Option Auction.Event}
    (inside : internal b = true) (step : Auction.next e b = some (e', o)) {c : CallId}
    {call : StartCall} (stands : e'.starts c = some call) :
    ∃ old, e.starts c = some old ∧ pendingCall old = pendingCall call := by
  cases Auction.next_cases step with
  | invokeStart _ | returnStart _ | invokeBid _ | returnBid _ | receive _ | park _ => cases inside
  | refuse stood _ | register stood _ | launch stood =>
    rcases update_some_eq_some.mp stands with ⟨rfl, rfl⟩ | ⟨_, hold⟩
    · exact ⟨_, stood, rfl⟩
    · exact ⟨call, hold, rfl⟩
  | checkFails _ _ | miss _ _ _ | locate _ _ _ | append _ | fireTimer _ | lookupWinner _
  | selectNil _ | select _ _ _ | selectPanics _ _ _ | noBids _ | emit _ _ | drop _ _ | cleanup _ =>
    exact ⟨call, stands, rfl⟩

/-- **A call that has not returned is the one the dispatcher is in.** -/
theorem dispatching (h : (system p).Path (.init buf q) tr s) :
    ∀ c call intent, s.engine.starts c = some call → pendingCall call = some intent →
      s.intentDispatcher = .calling intent ∧ intent.addr = c := by
  induction h with
  | nil => intro c call intent hc; cases hc
  | snoc _ _ step ih =>
    intro c call intent hc hpending
    cases next_cases step with
    | dispatchIntent waiting _ _ =>
      rcases update_some_eq_some.mp hc with ⟨rfl, rfl⟩ | ⟨_, hc⟩
      · cases hpending
        exact ⟨rfl, rfl⟩
      · -- another call would have been the dispatcher's, which was waiting
        have hcalling := (ih c call intent hc hpending).1
        rw [waiting] at hcalling
        cases hcalling
    | returnIntent calling _ =>
      rcases update_some_eq_some.mp hc with ⟨rfl, rfl⟩ | ⟨hne, hc⟩
      · cases hpending
      · obtain ⟨hcalling, haddr⟩ := ih c call intent hc hpending
        rw [calling] at hcalling
        cases hcalling
        exact absurd haddr.symm hne
    | engine inside move =>
      obtain ⟨old, hold, hsame⟩ := pendingCall_internal inside move hc
      exact ih c old intent hold (hsame.trans hpending)
    | refuse _ _ | accept _ _ | push _ _ | atCapacity _ _ | replyAccepted _ _ | replyError _
    | hub _ | ignore _ _ | readBid _ _ _ | dropBid _ _ _ | parkIntent _ _ | dispatchBid _ _ _
    | parkBid _ _ | returnBid _ _ | receive _ _ | parkExecutor _ _ | settle _ _ _ | fail _ _ _
    | notify _ _ | notifyDropped _ _ | drain _ | parkDrain _ => exact ih c call intent hc hpending

/-! ## Numbers

Intents and bids carry the numbers of the calls that are made for them, and a call is refused a
number that was used before. The dispatchers never meet that refusal: what waits on their channels
has a number of its own. -/

/-- How bids are numbered: those to come have no call, and those that wait have numbers of their own
and no call either. -/
structure Numbered (s : State) : Prop where
  fresh : ∀ c, s.bidCount ≤ c → s.engine.bids c = none
  below : ∀ b ∈ s.bidCh.pending, b.addr < s.bidCount
  uncalled : ∀ b ∈ s.bidCh.pending, s.engine.bids b.addr = none
  distinct : (s.bidCh.pending.map Ref.addr).Nodup

/-- The engine's own steps make no call of `SubmitBid`. -/
theorem bids_internal {b : Auction.Action} {e e' : Auction.State} {o : Option Auction.Event}
    (inside : internal b = true) (step : Auction.next e b = some (e', o)) {c : CallId}
    (free : e.bids c = none) : e'.bids c = none := by
  cases Auction.next_cases step with
  | invokeStart _ | returnStart _ | invokeBid _ | returnBid _ | receive _ | park _ => cases inside
  | checkFails call _ | miss call _ _ | locate call _ _ | append call =>
    exact update_some_of_some call free
  | refuse _ _ | register _ _ | launch _ | fireTimer _ | lookupWinner _ | selectNil _
  | select _ _ _ | selectPanics _ _ _ | noBids _ | emit _ _ | drop _ _ | cleanup _ => exact free

theorem numbered (h : (system p).Path (.init buf q) tr s) : Numbered s := by
  induction h with
  | nil =>
    exact ⟨fun _ _ => rfl, fun b hb => absurd hb List.not_mem_nil,
      fun b hb => absurd hb List.not_mem_nil, List.nodup_nil⟩
  | snoc _ _ step ih =>
    obtain ⟨hfresh, hbelow, huncalled, hdistinct⟩ := ih
    cases next_cases step with
    | readBid _ _ sent =>
      have hpending := (Chan.pending_trySend sent).1
      constructor
      · intro c hc
        exact hfresh c (Nat.le_of_succ_le hc)
      · intro b hb
        rw [hpending, List.mem_append, List.mem_singleton] at hb
        rcases hb with hb | rfl
        · exact Nat.lt_succ_of_lt (hbelow b hb)
        · exact Nat.lt_succ_self _
      · intro b hb
        rw [hpending, List.mem_append, List.mem_singleton] at hb
        rcases hb with hb | rfl
        · exact huncalled b hb
        · exact hfresh _ (Nat.le_refl _)
      · rw [hpending, List.map_append, List.nodup_append]
        refine ⟨hdistinct, by simp, ?_⟩
        intro c hc c' hc'
        obtain ⟨b, hb, rfl⟩ := List.mem_map.mp hc
        cases List.mem_singleton.mp hc'
        exact Nat.ne_of_lt (hbelow b hb)
    | dropBid _ _ _ =>
      exact ⟨fun c hc => hfresh c (Nat.le_of_succ_le hc),
        fun b hb => Nat.lt_succ_of_lt (hbelow b hb), huncalled, hdistinct⟩
    | dispatchBid _ taken _ =>
      have hpending := (Chan.pending_take taken).1
      rw [hpending] at hbelow huncalled hdistinct
      rw [List.map_cons, List.nodup_cons] at hdistinct
      refine ⟨?_, fun b hb => hbelow b (List.mem_cons_of_mem _ hb), ?_, hdistinct.2⟩
      · intro c hc
        have hlt := Nat.lt_of_lt_of_le (hbelow _ List.mem_cons_self) hc
        exact update_some_eq_none.mpr ⟨Nat.ne_of_gt hlt, hfresh c hc⟩
      · intro b hb
        refine update_some_eq_none.mpr ⟨?_, huncalled b (List.mem_cons_of_mem _ hb)⟩
        intro heq
        exact hdistinct.1 (heq ▸ List.mem_map_of_mem hb)
    | returnBid _ call =>
      exact ⟨fun c hc => update_some_of_some call (hfresh c hc), hbelow,
        fun b hb => update_some_of_some call (huncalled b hb), hdistinct⟩
    | parkBid _ parked =>
      have hpending := (Chan.pending_park parked).1
      exact ⟨hfresh, by rw [hpending]; exact hbelow, by rw [hpending]; exact huncalled,
        by rw [hpending]; exact hdistinct⟩
    | engine inside move =>
      exact ⟨fun c hc => bids_internal inside move (hfresh c hc), hbelow,
        fun b hb => bids_internal inside move (huncalled b hb), hdistinct⟩
    | refuse _ _ | accept _ _ | push _ _ | atCapacity _ _ | replyAccepted _ _ | replyError _
    | hub _ | ignore _ _ | dispatchIntent _ _ _ | parkIntent _ _ | returnIntent _ _ | receive _ _
    | parkExecutor _ _ | settle _ _ _ | fail _ _ _ | notify _ _ | notifyDropped _ _ | drain _
    | parkDrain _ => exact ⟨hfresh, hbelow, huncalled, hdistinct⟩

end VynxRelayer.Relayer
