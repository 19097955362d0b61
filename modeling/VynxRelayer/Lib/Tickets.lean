import Mathlib.Data.List.Perm.Basic
import Mathlib.Logic.Function.Basic
import VynxRelayer.Lib.System

/-!
# Tickets

An **office** hands out the numbers 0, 1, 2, … Any number of parties call for one, any number of
times: a party calls, takes the next ticket at some later moment, and returns with it at some still
later moment. Only the taking is a single step, so calls overlap in every way that a schedule allows.

The `Ledger` says where the tickets are: those returned and those still held are all that were
issued, each of them once, and every call has taken its ticket or waits for it. So when all parties
are back, the tickets returned are a block without gap or repetition (`block`). Of two calls that do
not overlap, the later one has the higher ticket (`returned_lt`).
-/

namespace Lib.Tickets

variable {ι : Type}

/-- Where a party stands. -/
inductive Stand where
  | idle
  /-- it has called, and has no ticket yet -/
  | waiting
  /-- it has its ticket, and has not returned -/
  | holding (i : Nat)
  deriving DecidableEq

/-- The tickets issued so far, and the parties. -/
structure Office (ι : Type) where
  issued : Nat
  stand : ι → Stand

inductive Action (ι : Type) where
  | call (p : ι)
  | take (p : ι)
  | back (p : ι)

inductive Event (ι : Type) where
  | called (p : ι)
  | returned (p : ι) (i : Nat)
  deriving DecidableEq

/-- Nobody has called. -/
def Office.new : Office ι := ⟨0, fun _ => .idle⟩

section Next

variable [DecidableEq ι]

def next (s : Office ι) : Action ι → Option (Office ι × Option (Event ι))
  | .call p =>
    match s.stand p with
    | .idle => some ({ s with stand := Function.update s.stand p .waiting }, some (.called p))
    | _ => none
  | .take p =>
    match s.stand p with
    | .waiting => some (⟨s.issued + 1, Function.update s.stand p (.holding s.issued)⟩, none)
    | _ => none
  | .back p =>
    match s.stand p with
    | .holding i => some ({ s with stand := Function.update s.stand p .idle }, some (.returned p i))
    | _ => none

/-- The office as a system. -/
def office (ι : Type) [DecidableEq ι] : System (Office ι) (Action ι) (Event ι) := ⟨next⟩

/-- **What a step can do.** -/
inductive Step (s : Office ι) : Office ι → Option (Event ι) → Prop
  | call {p : ι} (idle : s.stand p = .idle) :
      Step s { s with stand := Function.update s.stand p .waiting } (some (.called p))
  | take {p : ι} (waiting : s.stand p = .waiting) :
      Step s ⟨s.issued + 1, Function.update s.stand p (.holding s.issued)⟩ none
  | back {p : ι} {i : Nat} (holding : s.stand p = .holding i) :
      Step s { s with stand := Function.update s.stand p .idle } (some (.returned p i))

theorem next_cases {s s' : Office ι} {a : Action ι} {o : Option (Event ι)}
    (h : (office ι).next s a = some (s', o)) : Step s s' o := by
  cases a with
  | call p =>
    simp only [office, next] at h
    split at h
    · rename_i hidle
      cases h
      exact .call hidle
    · cases h
  | take p =>
    simp only [office, next] at h
    split at h
    · rename_i hwaiting
      cases h
      exact .take hwaiting
    · cases h
  | back p =>
    simp only [office, next] at h
    split at h
    · rename_i hholding
      cases h
      exact .back hholding
    · cases h

end Next

/-! ## The ledger -/

def Event.isCall : Event ι → Bool
  | .called _ => true
  | .returned _ _ => false

def Event.ticket? : Event ι → Option Nat
  | .called _ => none
  | .returned _ i => some i

/-- The calls of a trace. -/
def calls (tr : List (Event ι)) : Nat := tr.countP Event.isCall

/-- The tickets returned in a trace. -/
def returned (tr : List (Event ι)) : List Nat := tr.filterMap Event.ticket?

theorem calls_append (xs ys : List (Event ι)) : calls (xs ++ ys) = calls xs + calls ys :=
  List.countP_append

theorem returned_append (xs ys : List (Event ι)) : returned (xs ++ ys) = returned xs ++ returned ys :=
  List.filterMap_append

theorem mem_returned {tr : List (Event ι)} {p : ι} {i : Nat} (mem : Event.returned p i ∈ tr) :
    i ∈ returned tr :=
  List.mem_filterMap.mpr ⟨.returned p i, mem, rfl⟩

/-- Where the tickets are, and who waits for one. -/
structure Ledger (tr : List (Event ι)) (s : Office ι) (waiting : List ι) (held : List (ι × Nat)) :
    Prop where
  mem_waiting : ∀ p, p ∈ waiting ↔ s.stand p = .waiting
  mem_held : ∀ p i, (p, i) ∈ held ↔ s.stand p = .holding i
  waiting_nodup : waiting.Nodup
  held_nodup : held.Nodup
  tickets : (returned tr ++ held.map Prod.snd).Perm (List.range s.issued)
  calls_eq : calls tr = s.issued + waiting.length

namespace Ledger

variable {tr : List (Event ι)} {s : Office ι} {waiting : List ι} {held : List (ι × Nat)} {p : ι}
  {i : Nat}

theorem new : Ledger ([] : List (Event ι)) .new [] [] where
  mem_waiting p := by simp [Office.new]
  mem_held p i := by simp [Office.new]
  waiting_nodup := .nil
  held_nodup := .nil
  tickets := .refl _
  calls_eq := rfl

variable [DecidableEq ι]

theorem call (h : Ledger tr s waiting held) (idle : s.stand p = .idle) :
    Ledger (tr ++ [Event.called p]) { s with stand := Function.update s.stand p .waiting }
      (p :: waiting) held where
  mem_waiting q := by
    rw [List.mem_cons, h.mem_waiting]
    by_cases hq : q = p
    · subst hq
      simp
    · simp [hq]
  mem_held q j := by
    rw [h.mem_held]
    by_cases hq : q = p
    · subst hq
      simp [idle]
    · simp [hq]
  waiting_nodup := by
    refine List.nodup_cons.mpr ⟨?_, h.waiting_nodup⟩
    rw [h.mem_waiting, idle]
    exact Stand.noConfusion
  held_nodup := h.held_nodup
  tickets := by
    rw [returned_append]
    show (returned tr ++ [] ++ held.map Prod.snd).Perm (List.range s.issued)
    rw [List.append_nil]
    exact h.tickets
  calls_eq := by
    rw [calls_append, h.calls_eq, List.length_cons]
    rfl

theorem take (h : Ledger tr s waiting held) (wait : s.stand p = .waiting) :
    Ledger tr ⟨s.issued + 1, Function.update s.stand p (.holding s.issued)⟩ (waiting.erase p)
      ((p, s.issued) :: held) where
  mem_waiting q := by
    rw [h.waiting_nodup.mem_erase_iff, h.mem_waiting]
    by_cases hq : q = p
    · subst hq
      simp
    · simp [hq]
  mem_held q j := by
    rw [List.mem_cons, h.mem_held]
    by_cases hq : q = p
    · subst hq
      simp [wait, eq_comm]
    · simp [hq]
  waiting_nodup := h.waiting_nodup.erase p
  held_nodup := by
    refine List.nodup_cons.mpr ⟨?_, h.held_nodup⟩
    rw [h.mem_held, wait]
    exact Stand.noConfusion
  tickets := by
    rw [List.map_cons, List.range_succ]
    exact List.perm_middle.trans ((h.tickets.cons _).trans (List.perm_append_singleton _ _).symm)
  calls_eq := by
    have hlength := List.length_erase_add_one ((h.mem_waiting p).mpr wait)
    rw [h.calls_eq]
    show s.issued + waiting.length = s.issued + 1 + (waiting.erase p).length
    omega

theorem back (h : Ledger tr s waiting held) (hold : s.stand p = .holding i) :
    Ledger (tr ++ [Event.returned p i]) { s with stand := Function.update s.stand p .idle } waiting
      (held.erase (p, i)) where
  mem_waiting q := by
    rw [h.mem_waiting]
    by_cases hq : q = p
    · subst hq
      simp [hold]
    · simp [hq]
  mem_held q j := by
    rw [h.held_nodup.mem_erase_iff, h.mem_held]
    by_cases hq : q = p
    · subst hq
      simp [hold, eq_comm]
    · simp [hq]
  waiting_nodup := h.waiting_nodup
  held_nodup := h.held_nodup.erase _
  tickets := by
    have hperm : (held.map Prod.snd).Perm (i :: (held.erase (p, i)).map Prod.snd) :=
      (List.perm_cons_erase ((h.mem_held p i).mpr hold)).map Prod.snd
    rw [returned_append]
    show (returned tr ++ [i] ++ (held.erase (p, i)).map Prod.snd).Perm (List.range s.issued)
    rw [List.append_assoc]
    exact (hperm.symm.append_left _).trans h.tickets
  calls_eq := by
    rw [calls_append, h.calls_eq]
    rfl

end Ledger

section Run

variable [DecidableEq ι] {tr : List (Event ι)} {s t : Office ι}

/-- Every run has a ledger. -/
theorem exists_ledger (run : (office ι).Path .new tr s) :
    ∃ waiting held, Ledger tr s waiting held := by
  induction run with
  | nil => exact ⟨[], [], .new⟩
  | snoc _ _ step ih =>
    obtain ⟨waiting, held, h⟩ := ih
    cases next_cases step with
    | call idle => exact ⟨_, _, h.call idle⟩
    | take wait =>
      rw [Option.toList_none, List.append_nil]
      exact ⟨_, _, h.take wait⟩
    | back hold => exact ⟨_, _, h.back hold⟩

/-- **A block without gap or repetition**: when all parties are back, every call has taken a ticket,
and the tickets returned are all that were issued. -/
theorem block (run : (office ι).Path .new tr s) (idle : ∀ p, s.stand p = .idle) :
    s.issued = calls tr ∧ (returned tr).Perm (List.range (calls tr)) := by
  obtain ⟨waiting, held, h⟩ := exists_ledger run
  have hwaiting : waiting = [] := by
    refine List.eq_nil_iff_forall_not_mem.mpr fun p hp => ?_
    rw [h.mem_waiting, idle] at hp
    cases hp
  have hheld : held = [] := by
    refine List.eq_nil_iff_forall_not_mem.mpr fun (p, i) hp => ?_
    rw [h.mem_held, idle] at hp
    cases hp
  subst hwaiting hheld
  have hcalls : calls tr = s.issued := h.calls_eq
  have htickets := h.tickets
  rw [List.map_nil, List.append_nil] at htickets
  rw [hcalls]
  exact ⟨rfl, htickets⟩

/-! ## Calls that do not overlap -/

/-- No fewer tickets than calls that took one. -/
theorem issued_le_calls (run : (office ι).Path .new tr s) : s.issued ≤ calls tr := by
  obtain ⟨waiting, held, h⟩ := exists_ledger run
  rw [h.calls_eq]
  exact Nat.le_add_right _ _

/-- A ticket that was returned was issued. -/
theorem returned_lt_issued {i : Nat} (run : (office ι).Path .new tr s) (mem : i ∈ returned tr) :
    i < s.issued := by
  obtain ⟨waiting, held, h⟩ := exists_ledger run
  exact List.mem_range.mp (h.tickets.mem_iff.mp (List.mem_append_left _ mem))

/-- No ticket is returned twice. -/
theorem returned_nodup (run : (office ι).Path .new tr s) : (returned tr).Nodup := by
  obtain ⟨waiting, held, h⟩ := exists_ledger run
  exact (List.nodup_append.mp (h.tickets.nodup_iff.mpr List.nodup_range)).1

theorem issued_mono (run : (office ι).Path s tr t) : s.issued ≤ t.issued := by
  refine run.preserved (I := fun u => s.issued ≤ u.issued) (Nat.le_refl _) ?_
  intro u a u' o le step
  cases next_cases step with
  | call _ => exact le
  | take _ => exact Nat.le_succ_of_le le
  | back _ => exact le

/-- The party's call is open, and its ticket is not among the first `k`. -/
def Since (k : Nat) (q : ι) (s : Office ι) : Prop :=
  k ≤ s.issued ∧ (s.stand q = .waiting ∨ ∃ j, k ≤ j ∧ s.stand q = .holding j)

/-- It stays so until the call returns. -/
theorem since_until {k : Nat} {q : ι} (run : (office ι).Path s tr t) (since : Since k q s)
    (out : ∀ j, Event.returned q j ∉ tr) : Since k q t := by
  induction run with
  | nil => exact since
  | @snoc tr u u' a o _ _ step ih =>
    obtain ⟨hle, hstand⟩ := ih fun j hj => out j (List.mem_append_left _ hj)
    cases next_cases step with
    | @call p idle =>
      refine ⟨hle, ?_⟩
      have hne : q ≠ p := by
        rintro rfl
        rw [idle] at hstand
        simp at hstand
      simpa only [Function.update_of_ne hne] using hstand
    | @take p wait =>
      refine ⟨Nat.le_succ_of_le hle, ?_⟩
      by_cases hq : q = p
      · subst hq
        exact .inr ⟨u.issued, hle, Function.update_self ..⟩
      · simpa only [Function.update_of_ne hq] using hstand
    | @back p i hold =>
      refine ⟨hle, ?_⟩
      have hne : q ≠ p := by
        rintro rfl
        exact out i (List.mem_append_right _ (List.mem_singleton_self _))
      simpa only [Function.update_of_ne hne] using hstand

/-- **Later calls have higher tickets**: where a call begins after another one has returned, the
ticket it returns with is the higher one. -/
theorem returned_lt {xs ys zs ws : List (Event ι)} {p q : ι} {i j : Nat}
    (run : (office ι).Path .new
      (xs ++ Event.returned p i :: (ys ++ Event.called q :: (zs ++ Event.returned q j :: ws))) s)
    (first : ∀ j', Event.returned q j' ∉ zs) : i < j ∧ j < s.issued := by
  obtain ⟨s₁, _, s₂, hxs, _, hback, hrest⟩ := run.at_event
  obtain ⟨s₃, _, s₄, hys, _, hcall, hrest⟩ := hrest.at_event
  obtain ⟨s₅, _, s₆, hzs, _, hback', hws⟩ := hrest.at_event
  have hi : i < s₂.issued := by
    refine returned_lt_issued (.snoc hxs trivial hback) (mem_returned (p := p) ?_)
    exact List.mem_append_right _ (List.mem_singleton_self _)
  have hsince : Since s₂.issued q s₄ := by
    cases next_cases hcall with
    | call _ =>
      have hle : s₂.issued ≤ s₃.issued := issued_mono hys
      exact ⟨hle, .inl (Function.update_self ..)⟩
  obtain ⟨_, hstand⟩ := since_until hzs hsince first
  have hj : j < s.issued := by
    refine returned_lt_issued run (mem_returned (p := q) ?_)
    simp
  cases next_cases hback' with
  | back hold =>
    rw [hold] at hstand
    rcases hstand with hstand | ⟨_, hle, hstand⟩
    · cases hstand
    · cases hstand
      exact ⟨Nat.lt_of_lt_of_le hi hle, hj⟩

end Run

end Lib.Tickets
