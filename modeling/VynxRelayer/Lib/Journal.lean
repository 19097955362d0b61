import Mathlib.Data.List.Basic
import Mathlib.Logic.Function.Basic

/-!
# Journals

A trace interleaves the events of many parties. `journal key k tr` is the part of it that party `k`
wrote, where `key` names the party of an event, if it has one. Journals keep the order of the trace.

What a party has written so far is often decided by where it stands. `Told` is that statement for
every party of a table at once, and it is kept step by step: a step that concerns no party leaves
every journal as it is (`Told.silent`), and one in which a party moves on adds at most to its own
(`Told.step`, `Told.move`, and over an updated table `Told.write` and `Told.turn`).
-/

namespace Lib

variable {ε κ β : Type} [DecidableEq κ] {key : ε → Option κ} {k : κ} {tr : List ε} {o : Option ε}

/-- The events of a trace that belong to `k`. -/
def journal (key : ε → Option κ) (k : κ) (tr : List ε) : List ε :=
  tr.filter fun e => key e == some k

theorem mem_journal {e : ε} : e ∈ journal key k tr ↔ e ∈ tr ∧ key e = some k := by
  simp only [journal, List.mem_filter, beq_iff_eq]

theorem journal_sublist (key : ε → Option κ) (k : κ) (tr : List ε) :
    (journal key k tr).Sublist tr :=
  List.filter_sublist

/-- What only `k` writes is counted in its journal. -/
theorem countP_journal {P : ε → Bool} (own : ∀ e, P e = true → key e = some k) :
    (journal key k tr).countP P = tr.countP P := by
  unfold journal
  rw [List.countP_filter]
  refine List.countP_congr ?_
  intro e _
  simp only [Bool.and_eq_true, beq_iff_eq, and_iff_left_iff_imp]
  exact own e

/-- Another party's event, or no event, leaves a journal as it is. -/
theorem journal_append_of_ne (h : ∀ e, o = some e → key e ≠ some k) :
    journal key k (tr ++ o.toList) = journal key k tr := by
  cases o with
  | none => rw [Option.toList_none, List.append_nil]
  | some e =>
    have hne : (key e == some k) = false := beq_eq_false_iff_ne.mpr (h e rfl)
    simp only [journal, Option.toList_some, List.filter_append, List.filter_cons, hne,
      Bool.false_eq_true, if_false, List.filter_nil, List.append_nil]

/-- A party's own event is written at the end of its journal. -/
theorem journal_append_self (h : ∀ e, o = some e → key e = some k) :
    journal key k (tr ++ o.toList) = journal key k tr ++ o.toList := by
  cases o with
  | none => rw [Option.toList_none, List.append_nil, List.append_nil]
  | some e =>
    have heq : (key e == some k) = true := beq_iff_eq.mpr (h e rfl)
    simp only [journal, Option.toList_some, List.filter_append, List.filter_cons, heq, if_true,
      List.filter_nil]

/-- Where each party of the table stands decides, by `D`, what it has written. -/
def Told (key : ε → Option κ) (D : κ → β → List ε → Prop) (table : κ → β) (tr : List ε) : Prop :=
  ∀ k, D k (table k) (journal key k tr)

namespace Told

variable {D : κ → β → List ε → Prop} {table table' : κ → β}

/-- A step that moves no party and shows none's event. -/
theorem silent (h : Told key D table tr) (same : table' = table)
    (none : ∀ e, o = some e → key e = none) : Told key D table' (tr ++ o.toList) := by
  subst same
  intro k
  rw [journal_append_of_ne]
  · exact h k
  · intro e he heq
    rw [none e he] at heq
    cases heq

/-- A step in which at most `k` moves, and which shows no other party's event. -/
theorem step (h : Told key D table tr) (k : κ) (frame : ∀ k', k' ≠ k → table' k' = table k')
    (own : ∀ e, o = some e → ∀ k', key e = some k' → k' = k)
    (tell : D k (table k) (journal key k tr) → D k (table' k) (journal key k (tr ++ o.toList))) :
    Told key D table' (tr ++ o.toList) := by
  intro k'
  by_cases hk : k' = k
  · subst hk
    exact tell (h k')
  · rw [frame k' hk, journal_append_of_ne]
    · exact h k'
    · intro e he heq
      exact hk (own e he k' heq)

/-- A step in which `k` moves, and which shows at most an event of `k`. -/
theorem move (h : Told key D table tr) (k : κ) (frame : ∀ k', k' ≠ k → table' k' = table k')
    (own : ∀ e, o = some e → key e = some k)
    (tell : ∀ l, D k (table k) l → D k (table' k) (l ++ o.toList)) :
    Told key D table' (tr ++ o.toList) := by
  refine h.step k frame ?_ ?_
  · intro e he k' heq
    rw [own e he] at heq
    exact (Option.some.inj heq).symm
  · intro hk
    rw [journal_append_self own]
    exact tell _ hk

/-- `k` moves from `old` to `new`, and writes what the step shows. -/
theorem write {old new : β} (h : Told key D table tr) (stood : table k = old)
    (moved : table' = Function.update table k new) (own : ∀ e, o = some e → key e = some k)
    (tell : ∀ l, D k old l → D k new (l ++ o.toList)) : Told key D table' (tr ++ o.toList) := by
  subst moved
  refine h.move k (fun k' hk => Function.update_of_ne hk _ _) own ?_
  intro l hl
  rw [Function.update_self]
  rw [stood] at hl
  exact tell l hl

/-- `k` moves from `old` to `new`, and the step shows no party's event. -/
theorem turn {old new : β} (h : Told key D table tr) (stood : table k = old)
    (moved : table' = Function.update table k new) (none : ∀ e, o = some e → key e = none)
    (tell : ∀ l, D k old l → D k new l) : Told key D table' (tr ++ o.toList) := by
  subst moved
  have hnone : ∀ k' e, o = some e → key e ≠ some k' := by
    intro k' e he heq
    rw [none e he] at heq
    cases heq
  refine h.step k (fun k' hk => Function.update_of_ne hk _ _) ?_ ?_
  · intro e he k' heq
    exact absurd heq (hnone k' e he)
  · intro hl
    rw [stood] at hl
    rw [Function.update_self, journal_append_of_ne (hnone k)]
    exact tell _ hl

end Told

end Lib
