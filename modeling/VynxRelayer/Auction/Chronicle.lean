import VynxRelayer.Auction.Lifecycle
import VynxRelayer.Lib.Journal

/-!
# Chronicles

What a trace says about one auction instance, about one bid, and about one entry.

`life g tr` is the part of a trace that instance `g` wrote. Where the goroutine stands decides the
whole of it (`chronicle`): registered; then one selection over its own entry; then one outcome (no
bids, a voucher emitted, or one dropped); then closed. Order and multiplicity of an instance's
events are read off this one statement. Instances of one ID take turns: one is registered only after
every earlier one has closed (`registered_after_close`).

`course c tr` is the part that call `c` of `SubmitBid` wrote, and where the call stands decides it
(`courses`): invoked; then one verdict (a failed check, no auction found, or the bid appended); then
returned with it.

`appendedTo p tr` is the list of bids that the trace appended to entry `p`, and the entry holds
exactly these, in that order (`ledger`). A selection therefore compares the bids that were appended
to the instance's own entry before it took the lock (`selected_justified`).
-/

namespace VynxRelayer.Auction

open Lib State

/-! ## The life of an instance -/

/-- The instance whose life an event belongs to. -/
def Event.instance? : Event → Option CallId
  | .registered c _ => some c
  | .refused c _ => some c
  | .selected g _ _ _ => some g
  | .noBids g => some g
  | .emitted g _ => some g
  | .dropped g _ => some g
  | .closed g => some g
  | _ => none

/-- The events of a trace that belong to the life of instance `g`. -/
abbrev life (g : CallId) (tr : List Event) : List Event := journal Event.instance? g tr

/-- How an auction that selected `winner` ends. -/
def Outcome (g : CallId) (intent : Ref Intent) : Option Bid → Event → Prop
  | none, e => e = .noBids g
  | some w, e => e = .emitted g (voucherFor intent w) ∨ e = .dropped g (voucherFor intent w)

/-- What an instance has lived through, by the phase of its goroutine. -/
def Story (g : CallId) (intent : Ref Intent) : Phase → List Event → Prop
  | .launching, l => l = [.registered g intent]
  | .waiting, l => l = [.registered g intent]
  | .fired, l => l = [.registered g intent]
  | .located _, l => l = [.registered g intent]
  | .chosen w, l => ∃ bids, w = bids.argmax Bid.rank ∧
      l = [.registered g intent, .selected g g bids w]
  | .closing, l => ∃ bids w e, w = bids.argmax Bid.rank ∧ Outcome g intent w e ∧
      l = [.registered g intent, .selected g g bids w, e]
  | .done, l => ∃ bids w e, w = bids.argmax Bid.rank ∧ Outcome g intent w e ∧
      l = [.registered g intent, .selected g g bids w, e, .closed g]
  | .panicked, _ => False

/-- What an instance has lived through, by its goroutine and its call of `StartAuction`. A call with
no goroutine has registered nothing, and once it is past the map it was refused. -/
def Life (g : CallId) : Option Task × Option StartCall → List Event → Prop
  | (some task, _), l => Story g task.intent task.phase l
  | (none, none), l => l = []
  | (none, some (.entered _)), l => l = []
  | (none, some _), l => ∃ intent, l = [.refused g intent]

/-- Where the instances stand. -/
def State.instances (s : State) (g : CallId) : Option Task × Option StartCall :=
  (s.tasks g, s.starts g)

/-- The trace tells the life of every instance. -/
abbrev Chronicled (tr : List Event) (s : State) : Prop := Told Event.instance? Life s.instances tr

theorem Chronicled.story {tr : List Event} {s : State} {g : CallId} {task : Task}
    (h : Chronicled tr s) (htask : s.tasks g = some task) :
    Story g task.intent task.phase (life g tr) := by
  have hg := h g
  rwa [State.instances, htask] at hg

/-- A goroutine that moves on, and shows at most an event of its own, adds to its own life and to
no other one. -/
theorem Chronicled.move {tr : List Event} {s s' : State} {g : CallId} {intent : Ref Intent}
    {old new : Phase} {o : Option Event} (h : Chronicled tr s)
    (task : s.tasks g = some ⟨intent, old⟩)
    (tasks : s'.tasks = Function.update s.tasks g (some ⟨intent, new⟩))
    (starts : ∀ g', g' ≠ g → s'.starts g' = s.starts g')
    (own : ∀ e, o = some e → e.instance? = some g)
    (tell : ∀ l, Story g intent old l → Story g intent new (l ++ o.toList)) :
    Chronicled (tr ++ o.toList) s' := by
  refine Told.move h g ?_ own ?_
  · intro g' hg
    rw [State.instances, State.instances, starts g' hg, tasks, Function.update_of_ne hg]
  · intro l hl
    rw [State.instances, task] at hl
    rw [State.instances, tasks, Function.update_self]
    exact tell l hl

/-- **Every step adds to the chronicle what it did.** -/
theorem chronicled_step {tr : List Event} {s s' : State} {a : Action} {o : Option Event}
    (hc : Consistent s) (h : Chronicled tr s) (step : Step s a s' o) :
    Chronicled (tr ++ o.toList) s' := by
  cases step with
  | @invokeStart c intent fresh =>
    have htask := hc.unborn c (.inl fresh)
    refine Told.step h c (fun g hg => ?_) (by intro e he; cases he; simp [Event.instance?]) ?_
    · simp only [State.instances, State.setStart, Function.update_of_ne hg]
    · intro hl
      rw [journal_append_of_ne (by intro e he; cases he; simp [Event.instance?])]
      simp only [State.instances, htask, fresh] at hl
      simp only [State.instances, State.setStart, htask, Function.update_self]
      exact hl
  | @refuse c intent p call active =>
    have htask := hc.unborn c (.inr ⟨_, call⟩)
    refine Told.move h c (fun g hg => ?_) (by intro e he; cases he; rfl) ?_
    · simp only [State.instances, State.setStart, Function.update_of_ne hg]
    · intro l hl
      simp only [State.instances, htask, call] at hl
      simp only [State.instances, State.setStart, htask, Function.update_self]
      exact ⟨intent, by rw [show l = [] from hl]; rfl⟩
  | @register c intent call free =>
    have htask := hc.unborn c (.inr ⟨_, call⟩)
    refine Told.move h c (fun g hg => ?_) (by intro e he; cases he; rfl) ?_
    · simp only [State.instances, State.setStart, State.setTask, State.setEngine,
        Function.update_of_ne hg]
    · intro l hl
      simp only [State.instances, htask, call] at hl
      simp only [State.instances, State.setStart, State.setTask, Function.update_self]
      rw [show l = [] from hl]
      rfl
  | @launch c intent call =>
    exact h.move (hc.launching c intent call) rfl (fun _ hg => Function.update_of_ne hg ..)
      (by intro e he; cases he) (by intro l hl; rw [Option.toList_none, List.append_nil]; exact hl)
  | @returnStart c intent err call =>
    refine Told.step h c (fun g hg => ?_) (by intro e he; cases he; simp [Event.instance?]) ?_
    · simp only [State.instances, State.setStart, Function.update_of_ne hg]
    · intro hl
      rw [journal_append_of_ne (by intro e he; cases he; simp [Event.instance?])]
      simp only [State.instances, call] at hl
      simp only [State.instances, State.setStart, Function.update_self]
      cases htask : s.tasks c <;> rw [htask] at hl <;> exact hl
  | invokeBid _ | checkFails _ _ | miss _ _ _ | locate _ _ _ | append _ | returnBid _ =>
    exact Told.silent h rfl (by intro e he; cases he <;> rfl)
  | fireTimer task | lookupWinner task =>
    exact h.move task rfl (fun _ _ => rfl) (by intro e he; cases he)
      (by intro l hl; rw [Option.toList_none, List.append_nil]; exact hl)
  | selectNil task => cases hc.own _ _ _ task
  | select task object loop =>
    refine h.move task rfl (fun _ _ => rfl) (by intro e he; cases he; rfl) ?_
    intro l hl
    cases hc.own _ _ _ task
    rw [hc.selectLoop object] at loop
    cases loop
    exact ⟨_, rfl, by rw [show l = [.registered _ _] from hl]; rfl⟩
  | selectPanics task object loop =>
    rw [hc.selectLoop object] at loop
    cases loop
  | noBids task =>
    refine h.move task rfl (fun _ _ => rfl) (by intro e he; cases he; rfl) ?_
    rintro l ⟨bids, hw, rfl⟩
    exact ⟨bids, none, _, hw, rfl, rfl⟩
  | emit task _ =>
    refine h.move task rfl (fun _ _ => rfl) (by intro e he; cases he; rfl) ?_
    rintro l ⟨bids, hw, rfl⟩
    exact ⟨bids, some _, _, hw, .inl rfl, rfl⟩
  | drop task _ =>
    refine h.move task rfl (fun _ _ => rfl) (by intro e he; cases he; rfl) ?_
    rintro l ⟨bids, hw, rfl⟩
    exact ⟨bids, some _, _, hw, .inr rfl, rfl⟩
  | cleanup task =>
    refine h.move task rfl (fun _ _ => rfl) (by intro e he; cases he; rfl) ?_
    rintro l ⟨bids, w, e, hw, hout, rfl⟩
    exact ⟨bids, w, e, hw, hout, rfl⟩
  | receive _ | park _ => exact Told.silent h rfl (by intro e he; cases he <;> rfl)

/-- **The chronicle**: along every run, the trace tells the life of every instance. -/
theorem chronicle {cap : Nat} {tr : List Event} {s : State} (h : system.Path (.init cap) tr s) :
    Chronicled tr s := by
  induction h with
  | nil => intro g; rfl
  | snoc hpath _ step ih => exact chronicled_step (consistent hpath) ih (next_cases step)

/-- An event of an instance, other than its refusal, belongs to a goroutine's story. -/
theorem Chronicled.story_of_mem {tr : List Event} {s : State} {g : CallId} {e : Event}
    (h : Chronicled tr s) (mem : e ∈ life g tr) (born : ∀ intent, e ≠ .refused g intent) :
    ∃ task, s.tasks g = some task ∧ Story g task.intent task.phase (life g tr) := by
  cases htask : s.tasks g with
  | some task => exact ⟨task, rfl, h.story htask⟩
  | none =>
    exfalso
    have hg := h g
    rw [State.instances, htask] at hg
    have hnil : life g tr ≠ [] := List.ne_nil_of_mem mem
    cases hcall : s.starts g with
    | none => rw [hcall] at hg; exact hnil hg
    | some call =>
      rw [hcall] at hg
      cases call with
      | entered _ => exact hnil hg
      | registered _ | finished _ _ | returned =>
        obtain ⟨intent, hl⟩ := hg
        rw [show life g tr = _ from hl, List.mem_singleton] at mem
        exact born intent mem

/-- An outcome is no registration and no close, and a voucher is emitted for the winner only. -/
theorem Outcome.shape {g : CallId} {intent : Ref Intent} {w : Option Bid} {e : Event}
    (h : Outcome g intent w e) : e ≠ .closed g ∧ (∀ i, e ≠ .registered g i) ∧
      ∀ v, e = .emitted g v → ∃ b, w = some b ∧ v = voucherFor intent b := by
  cases w with
  | none => cases h; simp
  | some b => rcases h with rfl | rfl <;> simp

/-- The lengths a story can have: registered; selected; with its outcome, and closed or not. -/
theorem Story.shape {g : CallId} {intent : Ref Intent} {phase : Phase} {l : List Event}
    (h : Story g intent phase l) :
    l = [.registered g intent] ∨
    (∃ bids w, l = [.registered g intent, .selected g g bids w]) ∨
    ∃ bids w e rest, w = bids.argmax Bid.rank ∧ Outcome g intent w e ∧
      (rest = [] ∨ phase = .done ∧ rest = [.closed g]) ∧
      l = [.registered g intent, .selected g g bids w, e] ++ rest := by
  cases phase with
  | launching | waiting | fired | located _ => exact .inl h
  | chosen w =>
    obtain ⟨bids, _, hl⟩ := h
    exact .inr (.inl ⟨bids, w, hl⟩)
  | closing =>
    obtain ⟨bids, w, e, hw, hout, hl⟩ := h
    exact .inr (.inr ⟨bids, w, e, [], hw, hout, .inl rfl, hl⟩)
  | done =>
    obtain ⟨bids, w, e, hw, hout, hl⟩ := h
    exact .inr (.inr ⟨bids, w, e, [.closed g], hw, hout, .inr ⟨rfl, rfl⟩, hl⟩)
  | panicked => exact h.elim

/-- A closed instance lived its whole life: registered, one selection over its own entry, one
outcome, closed. -/
theorem closed_story {cap : Nat} {tr : List Event} {s : State} {g : CallId}
    (h : system.Path (.init cap) tr s) (closed : .closed g ∈ tr) :
    ∃ intent bids w e, s.tasks g = some ⟨intent, .done⟩ ∧ w = bids.argmax Bid.rank ∧
      Outcome g intent w e ∧
      life g tr = [.registered g intent, .selected g g bids w, e, .closed g] := by
  have hmem : .closed g ∈ life g tr := mem_journal.mpr ⟨closed, rfl⟩
  obtain ⟨⟨intent, phase⟩, htask, hstory⟩ :=
    (chronicle h).story_of_mem hmem (by intro i h; cases h)
  rcases hstory.shape with hl | ⟨bids, w, hl⟩ | ⟨bids, w, e, rest, hw, hout, hrest, hl⟩
  · rw [hl] at hmem
    simp at hmem
  · rw [hl] at hmem
    simp at hmem
  · rcases hrest with rfl | ⟨rfl, rfl⟩
    · rw [hl] at hmem
      simp [hout.shape.1.symm] at hmem
    · exact ⟨intent, bids, w, e, htask, hw, hout, hl⟩

/-- An emitted voucher is its instance's one outcome: it was built from the instance's intent and
the winner of its one selection. -/
theorem emitted_story {cap : Nat} {tr : List Event} {s : State} {g : CallId} {v : Voucher}
    (h : system.Path (.init cap) tr s) (emitted : .emitted g v ∈ tr) :
    ∃ intent bids w rest, some w = bids.argmax Bid.rank ∧ v = voucherFor intent w ∧
      (rest = [] ∨ rest = [.closed g]) ∧
      life g tr = [.registered g intent, .selected g g bids (some w), .emitted g v] ++ rest := by
  have hmem : .emitted g v ∈ life g tr := mem_journal.mpr ⟨emitted, rfl⟩
  obtain ⟨⟨intent, phase⟩, _, hstory⟩ :=
    (chronicle h).story_of_mem hmem (by intro i h; cases h)
  rcases hstory.shape with hl | ⟨bids, w, hl⟩ | ⟨bids, w, e, rest, hw, hout, hrest, hl⟩
  · rw [hl] at hmem
    simp at hmem
  · rw [hl] at hmem
    simp at hmem
  · have hrest : rest = [] ∨ rest = [.closed g] := hrest.imp_right And.right
    have he : e = .emitted g v := by
      rw [hl] at hmem
      rcases hrest with rfl | rfl <;> simpa [eq_comm] using hmem
    obtain ⟨b, rfl, hv⟩ := hout.shape.2.2 v he
    exact ⟨intent, bids, b, rest, hw, hv, hrest, by rw [hl, he]⟩

/-! ## Registrations -/

/-- A story begins with the registration of its intent, and has no other one. -/
theorem Story.registered {g : CallId} {intent : Ref Intent} {phase : Phase} {l : List Event}
    (h : Story g intent phase l) :
    ∃ rest, l = .registered g intent :: rest ∧ ∀ i, .registered g i ∉ rest := by
  rcases h.shape with hl | ⟨bids, w, hl⟩ | ⟨bids, w, e, rest, _, hout, hrest, hl⟩
  · exact ⟨_, hl, by simp⟩
  · exact ⟨_, hl, by simp⟩
  · refine ⟨_, hl, ?_⟩
    intro i
    have hne := (hout.shape.2.1 i).symm
    rcases hrest with rfl | ⟨_, rfl⟩ <;> simp [hne]

/-- A goroutine's registration is in the trace, under the intent it runs for. -/
theorem registered_mem {cap : Nat} {tr : List Event} {s : State} {g : CallId} {task : Task}
    (h : system.Path (.init cap) tr s) (htask : s.tasks g = some task) :
    .registered g task.intent ∈ tr := by
  obtain ⟨rest, hl, _⟩ := ((chronicle h).story htask).registered
  have hmem : .registered g task.intent ∈ life g tr := by rw [hl]; exact List.mem_cons_self
  exact (mem_journal.mp hmem).1

/-- A registration in the trace is that of a goroutine for its intent. -/
theorem registered_task {cap : Nat} {tr : List Event} {s : State} {g : CallId}
    {intent : Ref Intent} (h : system.Path (.init cap) tr s)
    (registered : .registered g intent ∈ tr) :
    ∃ phase, s.tasks g = some ⟨intent, phase⟩ ∧ Story g intent phase (life g tr) := by
  have hmem : .registered g intent ∈ life g tr := mem_journal.mpr ⟨registered, rfl⟩
  obtain ⟨⟨i, phase⟩, htask, hstory⟩ :=
    (chronicle h).story_of_mem hmem (by intro i h; cases h)
  obtain ⟨rest, hl, hrest⟩ := hstory.registered
  rw [hl] at hmem
  have hi : intent = i := by
    rcases List.mem_cons.mp hmem with heq | hlate
    · cases heq
      rfl
    · exact absurd hlate (hrest intent)
  subst hi
  exact ⟨phase, htask, hstory⟩

/-- An emitted voucher is for the intent its instance registered. -/
theorem emitted_registered {cap : Nat} {tr : List Event} {s : State} {g : CallId} {v : Voucher}
    (h : system.Path (.init cap) tr s) (emitted : .emitted g v ∈ tr) :
    .registered g v.intent ∈ tr ∧ v.intentID = v.intent.val.id := by
  obtain ⟨intent, bids, w, rest, _, rfl, _, hl⟩ := emitted_story h emitted
  have hmem : .registered g intent ∈ life g tr := by rw [hl]; exact List.mem_cons_self
  exact ⟨(mem_journal.mp hmem).1, rfl⟩

/-- An instance emits one voucher. -/
theorem emitted_unique {cap : Nat} {tr : List Event} {s : State} {g : CallId} {v v' : Voucher}
    (h : system.Path (.init cap) tr s) (first : .emitted g v ∈ tr) (second : .emitted g v' ∈ tr) :
    v = v' := by
  obtain ⟨_, _, _, _, _, _, _, hl⟩ := emitted_story h first
  obtain ⟨_, _, _, _, _, _, _, hl'⟩ := emitted_story h second
  rw [hl] at hl'
  simp only [List.cons_append, List.nil_append, List.cons.injEq, Event.emitted.injEq,
    true_and] at hl'
  exact hl'.2.2.1

/-- **Auctions of one ID take turns**: an instance is registered only after every earlier one of its
ID has closed. -/
theorem registered_after_close {cap : Nat} {xs ys : List Event} {s : State} {g g' : CallId}
    {intent intent' : Ref Intent}
    (h : system.Path (.init cap) (xs ++ .registered g' intent' :: ys) s)
    (earlier : .registered g intent ∈ xs) (same : intent.val.id = intent'.val.id) :
    .closed g ∈ xs := by
  obtain ⟨s₁, a, s₂, hpre, _, hnext, _⟩ := h.at_event
  obtain ⟨phase, htask, hstory⟩ := registered_task hpre earlier
  cases next_cases hnext with
  | register _ free =>
    have hdone : phase = .done := by
      by_contra hlive
      -- a live goroutine for the ID would be in the map
      have hlisted := (consistent hpre).listed g _ htask hlive
      rw [same, free] at hlisted
      cases hlisted
    subst hdone
    obtain ⟨bids, w, e, _, _, hl⟩ := hstory
    have hmem : .closed g ∈ life g xs := by rw [hl]; simp
    exact (mem_journal.mp hmem).1

/-- Instance `g` sent its voucher and closed before instance `g'` was registered and sent its own.
-/
def InTurn (tr : List Event) (g : CallId) (v : Voucher) (g' : CallId) (v' : Voucher) : Prop :=
  [.emitted g v, .closed g, .registered g' v'.intent, .emitted g' v'].Sublist tr

/-- The later of two instances of one ID, both of which emitted, came after the whole of the
earlier one. -/
theorem inTurn_of_registered {cap : Nat} {xs ys : List Event} {s : State} {g g' : CallId}
    {v v' : Voucher} (h : system.Path (.init cap) (xs ++ .registered g' v'.intent :: ys) s)
    (first : .emitted g v ∈ xs ++ .registered g' v'.intent :: ys)
    (second : .emitted g' v' ∈ xs ++ .registered g' v'.intent :: ys)
    (earlier : .registered g v.intent ∈ xs) (same : v.intent.val.id = v'.intent.val.id) :
    InTurn (xs ++ .registered g' v'.intent :: ys) g v g' v' := by
  obtain ⟨s₁, a, s₂, hpre, _, hnext, _⟩ := h.at_event
  have hclosed := registered_after_close h earlier same
  -- the earlier life is complete before the registration, so its one outcome lies there too
  have hbefore : [.emitted g v, .closed g].Sublist xs := by
    obtain ⟨_, _, _, e, _, _, _, hl⟩ := closed_story hpre hclosed
    obtain ⟨_, _, _, _, _, _, _, hl'⟩ := emitted_story h first
    have he : e = .emitted g v := by
      unfold life journal at hl hl'
      rw [List.filter_append, hl] at hl'
      simp only [List.cons_append, List.nil_append, List.cons.injEq] at hl'
      exact hl'.2.2.1
    subst he
    have hsub : [.emitted g v, .closed g].Sublist (life g xs) := by
      rw [hl]
      exact .cons _ (.cons _ (.refl _))
    exact hsub.trans (journal_sublist _ _ _)
  -- and the later one begins with it
  have hafter : .emitted g' v' ∈ ys := by
    rcases List.mem_append.mp second with hmem | hmem
    · obtain ⟨_, htask, _⟩ := registered_task hpre (emitted_registered hpre hmem).1
      cases next_cases hnext with
      | register call _ =>
        rw [(consistent hpre).unborn g' (.inr ⟨_, call⟩)] at htask
        cases htask
    · simpa using hmem
  exact hbefore.append (.cons_cons _ (List.singleton_sublist.mpr hafter))

/-- **Two vouchers for one ID** are those of two instances that took turns. -/
theorem emitted_inTurn {cap : Nat} {tr : List Event} {s : State} {g g' : CallId} {v v' : Voucher}
    (h : system.Path (.init cap) tr s) (first : .emitted g v ∈ tr) (second : .emitted g' v' ∈ tr)
    (same : v.intentID = v'.intentID) (other : g ≠ g') :
    InTurn tr g v g' v' ∨ InTurn tr g' v' g v := by
  obtain ⟨hreg, hid⟩ := emitted_registered h first
  obtain ⟨hreg', hid'⟩ := emitted_registered h second
  rw [hid, hid'] at same
  obtain ⟨xs, ys, rfl⟩ := List.append_of_mem hreg'
  have hside : .registered g v.intent ∈ xs ∨ .registered g v.intent ∈ ys := by
    rcases List.mem_append.mp hreg with hmem | hmem
    · exact .inl hmem
    · rcases List.mem_cons.mp hmem with heq | hmem
      · exact absurd (Event.registered.inj heq).1 other
      · exact .inr hmem
  rcases hside with hmem | hmem
  · exact .inl (inTurn_of_registered h first second hmem same)
  · obtain ⟨zs, ws, rfl⟩ := List.append_of_mem hmem
    rw [← List.cons_append, ← List.append_assoc] at h first second ⊢
    exact .inr (inTurn_of_registered h second first (by simp) same.symm)

/-! ## The course of a bid -/

/-- The call of `SubmitBid` that an event belongs to. -/
def Event.bidCall? : Event → Option CallId
  | .bidInvoked c _ => some c
  | .missed c _ => some c
  | .appended c _ _ => some c
  | .bidReturned c _ => some c
  | _ => none

/-- The events of a trace that call `c` of `SubmitBid` wrote. -/
abbrev course (c : CallId) (tr : List Event) : List Event := journal Event.bidCall? c tr

/-- What a call has written once its answer is settled. -/
def Verdict (c : CallId) (bid : Bid) : Option EngineError → List Event → Prop
  | none, l => ∃ p, l = [.bidInvoked c bid, .appended c bid p]
  | some (.notFound id), l => id = bid.intentID ∧ l = [.bidInvoked c bid, .missed c bid]
  | some err, l => checkBid bid = some err ∧ l = [.bidInvoked c bid]

/-- What a call of `SubmitBid` has written, by where it stands. -/
def Course (c : CallId) : Option BidCall → List Event → Prop
  | none, l => l = []
  | some (.entered bid), l => l = [.bidInvoked c bid]
  | some (.located bid _), l => l = [.bidInvoked c bid]
  | some (.finished bid err), l => Verdict c bid err l
  | some .returned, l => ∃ bid err l', Verdict c bid err l' ∧ l = l' ++ [.bidReturned c err]

/-- The trace tells the course of every bid. -/
abbrev Coursed (tr : List Event) (s : State) : Prop := Told Event.bidCall? Course s.bids tr

theorem checkBid_ne_notFound {bid : Bid} {id : IntentID} :
    checkBid bid ≠ some (.notFound id) := by
  unfold checkBid
  split
  · simp
  · split <;> simp

theorem coursed_step {tr : List Event} {s s' : State} {a : Action} {o : Option Event}
    (h : Coursed tr s) (step : Step s a s' o) : Coursed (tr ++ o.toList) s' := by
  cases step with
  | invokeBid fresh =>
    refine Told.write h fresh rfl (by intro e he; cases he; rfl) ?_
    intro l hl
    rw [show l = [] from hl]
    rfl
  | @checkFails c bid err call bad =>
    refine Told.turn h call rfl (by intro e he; cases he) ?_
    intro l hl
    cases err with
    | notFound id => exact absurd bad checkBid_ne_notFound
    | alreadyActive id | amountOutNil id | gasPriceNil id => exact ⟨bad, hl⟩
  | miss call _ _ =>
    refine Told.write h call rfl (by intro e he; cases he; rfl) ?_
    intro l hl
    rw [show l = _ from hl]
    exact ⟨rfl, rfl⟩
  | locate call _ _ =>
    exact Told.turn h call rfl (by intro e he; cases he) fun l hl => hl
  | @append c bid p call =>
    refine Told.write h call rfl (by intro e he; cases he; rfl) ?_
    intro l hl
    rw [show l = _ from hl]
    exact ⟨p, rfl⟩
  | @returnBid c bid err call =>
    refine Told.write h call rfl (by intro e he; cases he; rfl) ?_
    intro l hl
    exact ⟨bid, err, l, hl, rfl⟩
  | invokeStart _ | refuse _ _ | register _ _ | launch _ | returnStart _ | fireTimer _
  | lookupWinner _ | selectNil _ | select _ _ _ | selectPanics _ _ _ | noBids _ | emit _ _
  | drop _ _ | cleanup _ | receive _ | park _ =>
    exact Told.silent h rfl (by intro e he; cases he <;> rfl)

/-- **Every bid's course**: along every run, where a call of `SubmitBid` stands decides what it has
written. -/
theorem courses {cap : Nat} {tr : List Event} {s : State} (h : system.Path (.init cap) tr s) :
    Coursed tr s := by
  induction h with
  | nil => intro c; rfl
  | snoc _ _ step ih => exact coursed_step ih (next_cases step)

/-- A call that has returned wrote its verdict, and then its return. -/
theorem returned_course {cap : Nat} {tr : List Event} {s : State} {c : CallId}
    {err : Option EngineError} (h : system.Path (.init cap) tr s)
    (returned : .bidReturned c err ∈ tr) :
    ∃ bid l, Verdict c bid err l ∧ course c tr = l ++ [.bidReturned c err] := by
  have hmem : .bidReturned c err ∈ course c tr := mem_journal.mpr ⟨returned, rfl⟩
  have hcourse := courses h c
  -- only a call that has returned has written its return
  have hopen : ∀ bid err' l, Verdict c bid err' l → .bidReturned c err ∉ l := by
    intro bid err' l hv hl
    cases err' with
    | none => obtain ⟨p, rfl⟩ := hv; simp at hl
    | some err' => cases err' <;> obtain ⟨_, rfl⟩ := hv <;> simp at hl
  cases hcall : s.bids c with
  | none => rw [hcall] at hcourse; rw [show course c tr = [] from hcourse] at hmem; simp at hmem
  | some call =>
    rw [hcall] at hcourse
    cases call with
    | entered bid => rw [show course c tr = _ from hcourse] at hmem; simp at hmem
    | located bid p => rw [show course c tr = _ from hcourse] at hmem; simp at hmem
    | finished bid err' => exact absurd hmem (hopen bid err' _ hcourse)
    | returned =>
      obtain ⟨bid, err', l, hv, hl⟩ := hcourse
      rw [show course c tr = _ from hl] at hmem
      rcases List.mem_append.mp hmem with hmem | hmem
      · exact absurd hmem (hopen bid err' l hv)
      · rw [List.mem_singleton] at hmem
        cases hmem
        exact ⟨bid, l, hv, hl⟩

/-- An acknowledged bid was appended to an entry before the call returned. -/
theorem acknowledged_course {cap : Nat} {tr : List Event} {s : State} {c : CallId}
    (h : system.Path (.init cap) tr s) (returned : .bidReturned c none ∈ tr) :
    ∃ bid p, course c tr = [.bidInvoked c bid, .appended c bid p, .bidReturned c none] := by
  obtain ⟨bid, l, ⟨p, rfl⟩, hl⟩ := returned_course h returned
  exact ⟨bid, p, hl⟩

/-- An appended bid was invoked with that bid. -/
theorem appended_invoked {cap : Nat} {tr : List Event} {s : State} {c : CallId} {bid : Bid}
    {p : EntryPtr} (h : system.Path (.init cap) tr s) (appended : .appended c bid p ∈ tr) :
    [.bidInvoked c bid, .appended c bid p].Sublist tr := by
  obtain ⟨xs, ys, s₁, a, s₂, rfl, hpre, _, hnext, _⟩ := h.at_mem appended
  cases next_cases hnext with
  | append call =>
    have hcourse := courses hpre c
    rw [call] at hcourse
    have hinv : .bidInvoked c bid ∈ course c xs := by
      rw [show course c xs = _ from hcourse]
      exact List.mem_cons_self
    exact (List.singleton_sublist.mpr (mem_journal.mp hinv).1).append
      (List.singleton_sublist.mpr List.mem_cons_self)

/-! ## The bids of an entry -/

/-- The bid an event appends to entry `p`. -/
def Event.bidFor (p : EntryPtr) : Event → Option Bid
  | .appended _ bid q => if q = p then some bid else none
  | _ => none

/-- The bids a trace appended to entry `p`, in the order of the appends. -/
def appendedTo (p : EntryPtr) (tr : List Event) : List Bid := tr.filterMap (Event.bidFor p)

theorem appendedTo_append (p : EntryPtr) (tr tr' : List Event) :
    appendedTo p (tr ++ tr') = appendedTo p tr ++ appendedTo p tr' :=
  List.filterMap_append

theorem mem_appendedTo {p : EntryPtr} {tr : List Event} {bid : Bid} :
    bid ∈ appendedTo p tr ↔ ∃ c, .appended c bid p ∈ tr := by
  unfold appendedTo
  rw [List.mem_filterMap]
  constructor
  · rintro ⟨e, hmem, he⟩
    cases e with
    | appended c b q =>
      simp only [Event.bidFor] at he
      split at he <;> cases he
      rename_i hq
      exact ⟨c, hq ▸ hmem⟩
    | _ => cases he
  · rintro ⟨c, hmem⟩
    exact ⟨_, hmem, if_pos rfl⟩

/-- The bids on the heap at `p`. -/
def bidsAt (s : State) (p : EntryPtr) : List Bid := ((s.engine.entries p).map (·.bids)).getD []

theorem ledger_step {tr : List Event} {s s' : State} {a : Action} {o : Option Event}
    (hc : Consistent s) (h : ∀ p, bidsAt s p = appendedTo p tr) (step : Step s a s' o) :
    ∀ p, bidsAt s' p = appendedTo p (tr ++ o.toList) := by
  intro p
  rw [appendedTo_append, ← h p]
  cases step with
  | @register c intent call free =>
    have hnone : s.engine.entries c = none := by
      cases hentry : s.engine.entries c with
      | none => rfl
      | some entry =>
        obtain ⟨t, ht⟩ := hc.born c entry hentry
        rw [hc.unborn c (.inr ⟨_, call⟩)] at ht
        cases ht
    show ((Function.update s.engine.entries c (some ⟨[], intent⟩) p).map (·.bids)).getD [] =
      bidsAt s p ++ []
    rw [List.append_nil]
    by_cases hp : p = c
    · subst hp
      simp [bidsAt, hnone]
    · simp [bidsAt, hp]
  | @append c bid q call =>
    obtain ⟨_, entry, hentry, _⟩ := hc.held c bid q call
    show (((s.engine.appendBid q bid).entries p).map (·.bids)).getD [] =
      bidsAt s p ++ appendedTo p [.appended c bid q]
    by_cases hp : p = q
    · subst hp
      simp [bidsAt, Engine.appendBid, hentry, appendedTo, Event.bidFor]
    · have hp' : q ≠ p := fun h => hp h.symm
      simp [bidsAt, Engine.appendBid, hp, hp', appendedTo, Event.bidFor]
  | _ => exact (List.append_nil _).symm

/-- **The ledger**: along every run, an entry holds the bids that were appended to it, in their
order. -/
theorem ledger {cap : Nat} {tr : List Event} {s : State} (h : system.Path (.init cap) tr s)
    (p : EntryPtr) : bidsAt s p = appendedTo p tr := by
  induction h generalizing p with
  | nil => rfl
  | snoc hpath _ step ih => exact ledger_step (consistent hpath) ih (next_cases step) p

/-- **A selection sees its own ledger**: the entry an instance locks is its own, the bids it
compares are those appended there before, all priced and for its intent, and its winner is the first
of the greatest rank. Until then the instance has only been registered. -/
theorem selected_justified {cap : Nat} {xs ys : List Event} {s : State} {g : CallId}
    {p : EntryPtr} {bids : List Bid} {w : Option Bid}
    (h : system.Path (.init cap) (xs ++ .selected g p bids w :: ys) s) :
    ∃ intent, life g xs = [.registered g intent] ∧ p = g ∧ bids = appendedTo g xs ∧
      w = bids.argmax Bid.rank ∧ ∀ b ∈ bids, b.Priced ∧ b.intentID = intent.val.id := by
  obtain ⟨s₁, a, s₂, hpre, _, hnext, _⟩ := h.at_event
  have hc := consistent hpre
  cases next_cases hnext with
  | @select _ intent _ entry _ task object loop =>
    cases hc.own _ _ _ task
    rw [hc.selectLoop object] at loop
    cases loop
    obtain ⟨entry', hentry', hint⟩ := hc.object g _ task
    rw [object] at hentry'
    cases hentry'
    refine ⟨intent, (chronicle hpre).story task, rfl, ?_, rfl, ?_⟩
    · rw [← ledger hpre g]
      simp only [bidsAt, object, Option.map_some, Option.getD_some]
    · intro b hb
      obtain ⟨hpriced, hid⟩ := hc.sorted g entry object b hb
      exact ⟨hpriced, by rw [hid, hint]⟩

/-- A voucher names the solver of its winning bid, and that bid was submitted. -/
theorem emitted_invoked {cap : Nat} {tr : List Event} {s : State} {g : CallId} {v : Voucher}
    (h : system.Path (.init cap) tr s) (emitted : .emitted g v ∈ tr) :
    v.winningSolver = v.winningBid.solver ∧ ∃ c, .bidInvoked c v.winningBid ∈ tr := by
  obtain ⟨intent, bids, w, rest, hw, rfl, _, hl⟩ := emitted_story h emitted
  have hsel : .selected g g bids (some w) ∈ life g tr := by rw [hl]; simp
  obtain ⟨pre, post, rfl⟩ := List.append_of_mem (mem_journal.mp hsel).1
  obtain ⟨_, _, _, hbids, _, _⟩ := selected_justified h
  obtain ⟨c, happ⟩ := mem_appendedTo.mp (hbids ▸ List.argmax_mem hw.symm)
  have hinvoked := appended_invoked h (List.mem_append_left _ happ)
  exact ⟨rfl, c, hinvoked.subset List.mem_cons_self⟩

end VynxRelayer.Auction
