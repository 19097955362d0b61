import VynxRelayer.Auction.Threads
import VynxRelayer.Lib.Table

/-!
# Lifecycles

A goroutine refers to its auction only by the intent's ID and looks its entry up again when its
timer fires, while the ID is free for a new auction as soon as the old entry is deleted. That this
goes right rests on one invariant over the map, the heap, the goroutines and the callers' pointers,
which no line of the source states: `Consistent`.
-/

namespace VynxRelayer.Auction

open Lib State

/-- The goroutine of instance `g` has registered its entry and not yet executed `Cleanup`. -/
def Live (s : State) (g : CallId) : Prop := ∃ task, s.tasks g = some task ∧ task.phase ≠ .done

/-- **The engine's invariant.** -/
structure Consistent (s : State) : Prop where
  /-- A pointer in the map is that of a live goroutine for the ID. -/
  owner : ∀ id p, s.engine.auctions id = some p →
    ∃ task, s.tasks p = some task ∧ task.phase ≠ .done ∧ task.intent.val.id = id
  /-- A live goroutine's own entry is in the map under its ID. -/
  listed : ∀ g task, s.tasks g = some task → task.phase ≠ .done →
    s.engine.auctions task.intent.val.id = some g
  /-- A goroutine's entry is on the heap, also after it is cleaned up. -/
  object : ∀ g task, s.tasks g = some task →
    ∃ entry, s.engine.entries g = some entry ∧ entry.intent = task.intent
  /-- An entry on the heap was made with its goroutine. -/
  born : ∀ p entry, s.engine.entries p = some entry → ∃ task, s.tasks p = some task
  /-- An entry holds priced bids for its own intent only. -/
  sorted : ∀ p entry, s.engine.entries p = some entry →
    ∀ b ∈ entry.bids, b.Priced ∧ b.intentID = entry.intent.val.id
  /-- A pointer a caller holds leads to an entry for the bid's intent. -/
  held : ∀ c bid p, s.bids c = some (.located bid p) → bid.Priced ∧
    ∃ entry, s.engine.entries p = some entry ∧ entry.intent.val.id = bid.intentID
  /-- The entry a goroutine looked up is its own. -/
  own : ∀ g intent p, s.tasks g = some ⟨intent, .located p⟩ → p = some g
  /-- No goroutine has panicked. -/
  sound : ∀ g task, s.tasks g = some task → task.phase ≠ .panicked
  /-- A call that has not registered has no goroutine. -/
  unborn : ∀ c, (s.starts c = none ∨ ∃ intent, s.starts c = some (.entered intent)) →
    s.tasks c = none
  /-- A call between its registration and its `go` statement has its goroutine to launch. -/
  launching : ∀ c intent, s.starts c = some (.registered intent) →
    s.tasks c = some ⟨intent, .launching⟩

theorem consistent_init (cap : Nat) : Consistent (.init cap) where
  owner := by intro id p h; cases h
  listed := by intro g task h; cases h
  object := by intro g task h; cases h
  born := by intro p entry h; cases h
  sorted := by intro p entry h; cases h
  held := by intro c bid p h; cases h
  own := by intro g intent p h; cases h
  sound := by intro g task h; cases h
  unborn := by intro c _; rfl
  launching := by intro c intent h; cases h

/-! ## What a step preserves -/

/-- A goroutine past its launch has no call about to launch it. -/
theorem Consistent.launched {s : State} (h : Consistent s) {g : CallId} {intent : Ref Intent}
    {phase : Phase} (task : s.tasks g = some ⟨intent, phase⟩) (past : phase ≠ .launching) :
    ∀ i, s.starts g ≠ some (.registered i) := by
  intro i hreg
  have hlaunch := h.launching g i hreg
  rw [task] at hlaunch
  cases hlaunch
  exact past rfl

/-- A goroutine that moves on within its body keeps the invariant. -/
theorem Consistent.setTask {s : State} (h : Consistent s) {g : CallId} {intent : Ref Intent}
    {old new : Phase} (task : s.tasks g = some ⟨intent, old⟩)
    (launched : ∀ i, s.starts g ≠ some (.registered i)) (live : old ≠ .done)
    (still : new ≠ .done) (fine : new ≠ .panicked)
    (found : ∀ p, new = .located p → p = some g) : Consistent (s.setTask g intent new) := by
  refine { h with owner := ?_, listed := ?_, object := ?_, born := ?_, own := ?_, sound := ?_,
                  unborn := ?_, launching := ?_ }
  · intro id p hp
    obtain ⟨t, ht, hlive, hid⟩ := h.owner id p hp
    by_cases hpg : p = g
    · subst hpg
      rw [task] at ht
      cases ht
      exact ⟨⟨intent, new⟩, Function.update_self .., still, hid⟩
    · exact ⟨t, (Function.update_of_ne hpg ..).trans ht, hlive, hid⟩
  · intro g' t ht hlive
    rcases update_some_eq_some.mp ht with ⟨rfl, rfl⟩ | ⟨_, ht⟩
    · exact h.listed g' ⟨intent, old⟩ task live
    · exact h.listed g' t ht hlive
  · intro g' t ht
    rcases update_some_eq_some.mp ht with ⟨rfl, rfl⟩ | ⟨_, ht⟩
    · exact h.object g' ⟨intent, old⟩ task
    · exact h.object g' t ht
  · intro p entry hentry
    obtain ⟨t, ht⟩ := h.born p entry hentry
    by_cases hpg : p = g
    · subst hpg
      exact ⟨⟨intent, new⟩, Function.update_self ..⟩
    · exact ⟨t, (Function.update_of_ne hpg ..).trans ht⟩
  · intro g' i p ht
    rcases update_some_eq_some.mp ht with ⟨rfl, heq⟩ | ⟨_, ht⟩
    · cases heq
      exact found p rfl
    · exact h.own g' i p ht
  · intro g' t ht
    rcases update_some_eq_some.mp ht with ⟨rfl, rfl⟩ | ⟨_, ht⟩
    · exact fine
    · exact h.sound g' t ht
  · intro c hc
    have hnone := h.unborn c hc
    refine update_some_eq_none.mpr ⟨?_, hnone⟩
    rintro rfl
    rw [task] at hnone
    cases hnone
  · intro c i hc
    refine update_some_eq_some.mpr (.inr ⟨?_, h.launching c i hc⟩)
    rintro rfl
    exact launched i hc

/-- A call of `StartAuction` that moves on, but to its registration, keeps the invariant. -/
theorem Consistent.setStart {s : State} (h : Consistent s) {c : CallId} {call : StartCall}
    (unborn : (∃ intent, call = .entered intent) → s.tasks c = none)
    (registered : ∀ intent, call = .registered intent → s.tasks c = some ⟨intent, .launching⟩) :
    Consistent (s.setStart c call) := by
  refine { h with unborn := ?_, launching := ?_ }
  · intro c' hc'
    rcases hc' with hnone | ⟨intent, hent⟩
    · exact h.unborn c' (.inl (update_some_eq_none.mp hnone).2)
    · rcases update_some_eq_some.mp hent with ⟨rfl, rfl⟩ | ⟨_, hent⟩
      · exact unborn ⟨intent, rfl⟩
      · exact h.unborn c' (.inr ⟨intent, hent⟩)
  · intro c' intent hreg
    rcases update_some_eq_some.mp hreg with ⟨rfl, rfl⟩ | ⟨_, hreg⟩
    · exact registered intent rfl
    · exact h.launching c' intent hreg

/-- A call of `SubmitBid` that moves on keeps the invariant when the pointer it takes, if any,
leads to an entry for its bid. -/
theorem Consistent.setBid {s : State} (h : Consistent s) {c : CallId} {call : BidCall}
    (held : ∀ bid p, call = .located bid p → bid.Priced ∧
      ∃ entry, s.engine.entries p = some entry ∧ entry.intent.val.id = bid.intentID) :
    Consistent (s.setBid c call) := by
  refine { h with held := ?_ }
  intro c' bid p hc'
  rcases update_some_eq_some.mp hc' with ⟨rfl, rfl⟩ | ⟨_, hc'⟩
  · exact held bid p rfl
  · exact h.held c' bid p hc'

/-- A registration under a free ID keeps the invariant: the new entry is the ID's only one. -/
theorem Consistent.register {s : State} (h : Consistent s) {c : CallId} {intent : Ref Intent}
    (call : s.starts c = some (.entered intent))
    (free : s.engine.auctions intent.val.id = none) :
    Consistent (((s.setEngine (s.engine.insert c intent)).setTask c intent .launching).setStart c
      (.registered intent)) := by
  have hfresh : s.tasks c = none := h.unborn c (.inr ⟨intent, call⟩)
  have hother : ∀ g task, s.tasks g = some task → g ≠ c := by
    rintro g task ht rfl
    rw [hfresh] at ht
    cases ht
  have hheap : ∀ p entry, s.engine.entries p = some entry → p ≠ c := by
    intro p entry hentry
    obtain ⟨t, ht⟩ := h.born p entry hentry
    exact hother p t ht
  have hkey : ∀ g task, s.tasks g = some task → task.phase ≠ .done →
      task.intent.val.id ≠ intent.val.id := by
    intro g task ht hlive heq
    have hl := h.listed g task ht hlive
    rw [heq, free] at hl
    cases hl
  constructor
  · intro id p hp
    rcases update_some_eq_some.mp hp with ⟨rfl, rfl⟩ | ⟨_, hp⟩
    · exact ⟨⟨intent, .launching⟩, Function.update_self .., by simp, rfl⟩
    · obtain ⟨t, ht, hlive, hid⟩ := h.owner id p hp
      exact ⟨t, update_some_eq_some.mpr (.inr ⟨hother p t ht, ht⟩), hlive, hid⟩
  · intro g t ht hlive
    rcases update_some_eq_some.mp ht with ⟨rfl, rfl⟩ | ⟨_, ht⟩
    · exact Function.update_self ..
    · exact update_some_eq_some.mpr (.inr ⟨hkey g t ht hlive, h.listed g t ht hlive⟩)
  · intro g t ht
    rcases update_some_eq_some.mp ht with ⟨rfl, rfl⟩ | ⟨hne, ht⟩
    · exact ⟨⟨[], intent⟩, Function.update_self .., rfl⟩
    · obtain ⟨entry, hentry, hint⟩ := h.object g t ht
      exact ⟨entry, update_some_eq_some.mpr (.inr ⟨hne, hentry⟩), hint⟩
  · intro p entry hentry
    rcases update_some_eq_some.mp hentry with ⟨rfl, rfl⟩ | ⟨hne, hentry⟩
    · exact ⟨⟨intent, .launching⟩, Function.update_self ..⟩
    · obtain ⟨t, ht⟩ := h.born p entry hentry
      exact ⟨t, update_some_eq_some.mpr (.inr ⟨hne, ht⟩)⟩
  · intro p entry hentry b hb
    rcases update_some_eq_some.mp hentry with ⟨rfl, rfl⟩ | ⟨_, hentry⟩
    · cases hb
    · exact h.sorted p entry hentry b hb
  · intro c' bid p hc'
    obtain ⟨hpriced, entry, hentry, hid⟩ := h.held c' bid p hc'
    exact ⟨hpriced, entry, update_some_eq_some.mpr (.inr ⟨hheap p entry hentry, hentry⟩), hid⟩
  · intro g i p ht
    rcases update_some_eq_some.mp ht with ⟨rfl, heq⟩ | ⟨_, ht⟩
    · cases heq
    · exact h.own g i p ht
  · intro g t ht
    rcases update_some_eq_some.mp ht with ⟨rfl, rfl⟩ | ⟨_, ht⟩
    · simp
    · exact h.sound g t ht
  · rintro c' (hnone | ⟨i, hent⟩)
    · obtain ⟨hne, hnone⟩ := update_some_eq_none.mp hnone
      exact update_some_eq_none.mpr ⟨hne, h.unborn c' (.inl hnone)⟩
    · rcases update_some_eq_some.mp hent with ⟨rfl, heq⟩ | ⟨hne, hent⟩
      · cases heq
      · exact update_some_eq_none.mpr ⟨hne, h.unborn c' (.inr ⟨i, hent⟩)⟩
  · intro c' i hreg
    rcases update_some_eq_some.mp hreg with ⟨rfl, heq⟩ | ⟨hne, hreg⟩
    · cases heq
      exact Function.update_self ..
    · exact update_some_eq_some.mpr (.inr ⟨hne, h.launching c' i hreg⟩)

/-- The `go` statement keeps the invariant. -/
theorem Consistent.launch {s : State} (h : Consistent s) {c : CallId} {intent : Ref Intent}
    (call : s.starts c = some (.registered intent)) :
    Consistent ((s.setTask c intent .waiting).setStart c (.finished intent none)) := by
  have htask := h.launching c intent call
  -- the two writes commute: once the call has left its registration, its goroutine may move
  have hcall : Consistent (s.setStart c (.finished intent none)) :=
    h.setStart (by rintro ⟨_, h⟩; cases h) (by intro _ h; cases h)
  have hleft : ∀ i, (s.setStart c (.finished intent none)).starts c ≠ some (.registered i) := by
    intro i hreg
    rcases update_some_eq_some.mp hreg with ⟨_, heq⟩ | ⟨hne, _⟩
    · cases heq
    · exact hne rfl
  exact hcall.setTask htask hleft (by simp) (by simp) (by simp) (by intro p h; cases h)

/-- An append through any pointer a caller may hold, stale or not, keeps the invariant. -/
theorem Consistent.append {s : State} (h : Consistent s) {c : CallId} {bid : Bid} {p : EntryPtr}
    (call : s.bids c = some (.located bid p)) :
    Consistent ((s.setEngine (s.engine.appendBid p bid)).setBid c (.finished bid none)) := by
  obtain ⟨hpriced, entry, hentry, hid⟩ := h.held c bid p call
  -- the heap after the append: the same objects for the same intents, one with a bid more
  have hback : ∀ q e, (s.engine.appendBid p bid).entries q = some e →
      ∃ e', s.engine.entries q = some e' ∧ e'.intent = e.intent ∧
        (e.bids = e'.bids ∨ q = p ∧ e.bids = e'.bids ++ [bid]) := by
    intro q e he
    simp only [Engine.appendBid, hentry, Option.map_some] at he
    rcases update_some_eq_some.mp he with ⟨rfl, rfl⟩ | ⟨_, he⟩
    · exact ⟨entry, hentry, rfl, .inr ⟨rfl, rfl⟩⟩
    · exact ⟨e, he, rfl, .inl rfl⟩
  have hforth : ∀ q e, s.engine.entries q = some e →
      ∃ e', (s.engine.appendBid p bid).entries q = some e' ∧ e'.intent = e.intent := by
    intro q e he
    simp only [Engine.appendBid, hentry, Option.map_some]
    by_cases hq : q = p
    · subst hq
      rw [hentry] at he
      cases he
      exact ⟨_, Function.update_self .., rfl⟩
    · exact ⟨e, (Function.update_of_ne hq ..).trans he, rfl⟩
  refine { h with object := ?_, born := ?_, sorted := ?_, held := ?_ }
  · intro g t ht
    obtain ⟨e, he, hint⟩ := h.object g t ht
    obtain ⟨e', he', hint'⟩ := hforth g e he
    exact ⟨e', he', hint'.trans hint⟩
  · intro q e he
    obtain ⟨e', he', _⟩ := hback q e he
    exact h.born q e' he'
  · intro q e he b hb
    obtain ⟨e', he', hint, hbids | ⟨rfl, hbids⟩⟩ := hback q e he
    · rw [← hint]
      exact h.sorted q e' he' b (hbids ▸ hb)
    · rw [hbids] at hb
      rw [← hint]
      rcases List.mem_append.mp hb with hb | hb
      · exact h.sorted q e' he' b hb
      · rw [List.mem_singleton] at hb
        subst hb
        rw [hentry] at he'
        cases he'
        exact ⟨hpriced, hid.symm⟩
  · intro c' b q hc'
    rcases update_some_eq_some.mp hc' with ⟨_, heq⟩ | ⟨_, hc'⟩
    · cases heq
    · obtain ⟨hb, e, he, heid⟩ := h.held c' b q hc'
      obtain ⟨e', he', hint'⟩ := hforth q e he
      exact ⟨hb, e', he', by rw [hint']; exact heid⟩

/-- `Cleanup` keeps the invariant: what it deletes under the goroutine's ID is the goroutine's
own entry. -/
theorem Consistent.cleanup {s : State} (h : Consistent s) {g : CallId} {intent : Ref Intent}
    (task : s.tasks g = some ⟨intent, .closing⟩) :
    Consistent ((s.setEngine (s.engine.cleanup intent.val.id)).setTask g intent .done) := by
  have hown : s.engine.auctions intent.val.id = some g :=
    h.listed g ⟨intent, .closing⟩ task (by simp)
  constructor
  · intro id p hp
    obtain ⟨hne, hp⟩ := update_none_eq_some.mp hp
    obtain ⟨t, ht, hlive, hid⟩ := h.owner id p hp
    refine ⟨t, update_some_eq_some.mpr (.inr ⟨?_, ht⟩), hlive, hid⟩
    rintro rfl
    rw [task] at ht
    cases ht
    exact hne hid.symm
  · intro g' t ht hlive
    rcases update_some_eq_some.mp ht with ⟨rfl, rfl⟩ | ⟨hne, ht⟩
    · exact absurd rfl hlive
    · refine update_none_eq_some.mpr ⟨?_, h.listed g' t ht hlive⟩
      intro heq
      have hl := h.listed g' t ht hlive
      rw [heq, hown] at hl
      cases hl
      exact hne rfl
  · intro g' t ht
    rcases update_some_eq_some.mp ht with ⟨rfl, rfl⟩ | ⟨_, ht⟩
    · exact h.object g' ⟨intent, .closing⟩ task
    · exact h.object g' t ht
  · intro p entry hentry
    obtain ⟨t, ht⟩ := h.born p entry hentry
    by_cases hpg : p = g
    · subst hpg
      exact ⟨⟨intent, .done⟩, Function.update_self ..⟩
    · exact ⟨t, (Function.update_of_ne hpg ..).trans ht⟩
  · exact h.sorted
  · exact h.held
  · intro g' i p ht
    rcases update_some_eq_some.mp ht with ⟨_, heq⟩ | ⟨_, ht⟩
    · cases heq
    · exact h.own g' i p ht
  · intro g' t ht
    rcases update_some_eq_some.mp ht with ⟨_, rfl⟩ | ⟨_, ht⟩
    · simp
    · exact h.sound g' t ht
  · intro c hc
    have hnone := h.unborn c hc
    refine update_some_eq_none.mpr ⟨?_, hnone⟩
    rintro rfl
    rw [task] at hnone
    cases hnone
  · intro c i hc
    refine update_some_eq_some.mpr (.inr ⟨?_, h.launching c i hc⟩)
    rintro rfl
    exact h.launched task (by simp) i hc

/-- A goroutine's selection loop runs over priced bids only. -/
theorem Consistent.selectLoop {s : State} (h : Consistent s) {p : EntryPtr} {entry : AuctionEntry}
    (object : s.engine.entries p = some entry) :
    selectLoop none entry.bids = .ok (entry.bids.argmax Bid.rank) :=
  selectLoop_eq_argmax fun b hb => (h.sorted p entry object b hb).1

/-- **Every step keeps the invariant.** -/
theorem consistent_step {s s' : State} {a : Action} {o : Option Event} (h : Consistent s)
    (step : Step s a s' o) : Consistent s' := by
  cases step with
  | invokeStart fresh =>
    exact h.setStart (fun _ => h.unborn _ (.inl fresh)) (by intro _ h; cases h)
  | refuse call _ => exact h.setStart (by rintro ⟨_, h⟩; cases h) (by intro _ h; cases h)
  | register call free => exact h.register call free
  | launch call => exact h.launch call
  | returnStart _ => exact h.setStart (by rintro ⟨_, h⟩; cases h) (by intro _ h; cases h)
  | invokeBid _ => exact h.setBid (by intro _ _ h; cases h)
  | checkFails _ _ => exact h.setBid (by intro _ _ h; cases h)
  | miss _ _ _ => exact h.setBid (by intro _ _ h; cases h)
  | @locate c bid p call priced found =>
    refine h.setBid ?_
    intro b q heq
    cases heq
    obtain ⟨t, ht, _, hid⟩ := h.owner _ _ found
    obtain ⟨entry, hentry, hint⟩ := h.object _ t ht
    exact ⟨priced, entry, hentry, by rw [hint]; exact hid⟩
  | append call => exact h.append call
  | returnBid _ => exact h.setBid (by intro _ _ h; cases h)
  | fireTimer task =>
    exact h.setTask task (h.launched task (by simp)) (by simp) (by simp) (by simp)
      (by intro _ h; cases h)
  | lookupWinner task =>
    refine h.setTask task (h.launched task (by simp)) (by simp) (by simp) (by simp) ?_
    intro p heq
    cases heq
    exact h.listed _ ⟨_, .fired⟩ task (by simp)
  | selectNil task => cases h.own _ _ _ task
  | select task _ _ =>
    exact h.setTask task (h.launched task (by simp)) (by simp) (by simp) (by simp)
      (by intro _ h; cases h)
  | selectPanics task object loop =>
    rw [h.selectLoop object] at loop
    cases loop
  | noBids task =>
    exact h.setTask task (h.launched task (by simp)) (by simp) (by simp) (by simp)
      (by intro _ h; cases h)
  | emit task _ =>
    have h' : Consistent (s.setTask _ _ .closing) :=
      h.setTask task (h.launched task (by simp)) (by simp) (by simp) (by simp)
        (by intro _ h; cases h)
    exact { h' with }
  | drop task _ =>
    exact h.setTask task (h.launched task (by simp)) (by simp) (by simp) (by simp)
      (by intro _ h; cases h)
  | cleanup task => exact h.cleanup task
  | receive _ => exact { h with }
  | park _ => exact { h with }

/-- The invariant holds in every state that a run reaches. -/
theorem consistent {cap : Nat} {tr : List Event} {s : State} (h : system.Path (.init cap) tr s) :
    Consistent s :=
  preserved h (consistent_init cap) fun _ _ _ _ => consistent_step

end VynxRelayer.Auction
