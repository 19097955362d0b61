import Mathlib.Data.List.Basic
import Mathlib.Logic.Function.Basic
import VynxRelayer.Lib.System

/-!
# Atomic objects

A **specification** says what the operations of an object do to its value, and what they answer,
when they are executed one at a time; where an operation asks the outside world, the answer it gets
there is a choice. An **object** lets any number of parties call operations at once: a call, the
moment the operation takes place, and its return are three steps, and the parties take theirs in any
order.

The operations of a run, listed in the order in which they took place, are a **linearization** of it
(`Linearizes`): executed one after the other they give the answers that were returned, every party
finds its own operations there in the order of its calls, and an operation that had returned before
another one was called stands before it. Every run of an object has one (`linearizes`).

So a system that shows what an object shows is linearizable: to prove it, name the step at which
each of its operations takes place, and simulate.
-/

namespace Lib.Atomic

open Lib

/-- What the operations `ο` do to a value and answer, one at a time, with the outside world's choice
`χ` for an argument. -/
structure Spec (σ ο χ ρ : Type) where
  apply : σ → ο → χ → σ × ρ

/-- Where a party stands. -/
inductive Stand (ο ρ : Type) where
  | idle
  /-- called, and not yet taken place -/
  | pending (op : ο)
  /-- taken place, and about to return -/
  | done (answer : ρ)

structure Object (σ ι ο ρ : Type) where
  value : σ
  stand : ι → Stand ο ρ

inductive Action (ι ο χ : Type) where
  | call (i : ι) (op : ο)
  | act (i : ι) (choice : χ)
  | back (i : ι)

inductive Event (ι ο ρ : Type) where
  | called (i : ι) (op : ο)
  | returned (i : ι) (answer : ρ)

variable {σ ι ο χ ρ : Type} [DecidableEq ι] (spec : Spec σ ο χ ρ)

/-- An object that nobody has called. -/
def Object.new (value : σ) : Object σ ι ο ρ := ⟨value, fun _ => .idle⟩

/-- One step of one party. -/
def next (s : Object σ ι ο ρ) :
    Action ι ο χ → Option (Object σ ι ο ρ × Option (Event ι ο ρ))
  | .call i op =>
    match s.stand i with
    | .idle => some (⟨s.value, Function.update s.stand i (.pending op)⟩, some (.called i op))
    | _ => none
  | .act i choice =>
    match s.stand i with
    | .pending op =>
      let out := spec.apply s.value op choice
      some (⟨out.1, Function.update s.stand i (.done out.2)⟩, none)
    | _ => none
  | .back i =>
    match s.stand i with
    | .done answer =>
      some (⟨s.value, Function.update s.stand i .idle⟩, some (.returned i answer))
    | _ => none

/-- The object under every interleaving of its parties. -/
def object : System (Object σ ι ο ρ) (Action ι ο χ) (Event ι ο ρ) := ⟨next spec⟩

/-- **What one step can do.** -/
inductive Step (s : Object σ ι ο ρ) : Object σ ι ο ρ → Option (Event ι ο ρ) → Prop
  | called {i op} (idle : s.stand i = .idle) :
      Step s ⟨s.value, Function.update s.stand i (.pending op)⟩ (some (.called i op))
  | acted {i op choice} (pending : s.stand i = .pending op) :
      Step s ⟨(spec.apply s.value op choice).1,
        Function.update s.stand i (.done (spec.apply s.value op choice).2)⟩ none
  | returned {i answer} (done : s.stand i = .done answer) :
      Step s ⟨s.value, Function.update s.stand i .idle⟩ (some (.returned i answer))

variable {spec}

theorem next_cases {s s' : Object σ ι ο ρ} {a : Action ι ο χ} {o : Option (Event ι ο ρ)}
    (h : (object spec).next s a = some (s', o)) : Step spec s s' o := by
  cases a with
  | call i op =>
    simp only [object, next] at h
    split at h <;> cases h
    exact .called ‹_›
  | act i choice =>
    simp only [object, next] at h
    split at h <;> cases h
    exact .acted ‹_›
  | back i =>
    simp only [object, next] at h
    split at h <;> cases h
    exact .returned ‹_›

/-- A party calls. -/
theorem path_call {s : Object σ ι ο ρ} {i : ι} (op : ο) (idle : s.stand i = .idle) :
    (object spec).Path s [.called i op] ⟨s.value, Function.update s.stand i (.pending op)⟩ := by
  have hstep : (object spec).next s (.call i op) =
      some (⟨s.value, Function.update s.stand i (.pending op)⟩, some (.called i op)) := by
    simp only [object, next, idle]
  exact System.Path.single hstep

/-- A party's operation takes place. -/
theorem path_act {s : Object σ ι ο ρ} {i : ι} {op : ο} (choice : χ)
    (pending : s.stand i = .pending op) :
    (object spec).Path s [] ⟨(spec.apply s.value op choice).1,
      Function.update s.stand i (.done (spec.apply s.value op choice).2)⟩ := by
  have hstep : (object spec).next s (.act i choice) = some (⟨(spec.apply s.value op choice).1,
      Function.update s.stand i (.done (spec.apply s.value op choice).2)⟩, none) := by
    simp only [object, next, pending]
  exact System.Path.single hstep

/-- A party's call returns. -/
theorem path_back {s : Object σ ι ο ρ} {i : ι} {answer : ρ} (done : s.stand i = .done answer) :
    (object spec).Path s [.returned i answer] ⟨s.value, Function.update s.stand i .idle⟩ := by
  have hstep : (object spec).next s (.back i) =
      some (⟨s.value, Function.update s.stand i .idle⟩, some (.returned i answer)) := by
    simp only [object, next, done]
  exact System.Path.single hstep

/-! ## Linearizations -/

/-- An operation that took place. -/
structure Entry (ι ο χ ρ : Type) where
  who : ι
  op : ο
  choice : χ
  answer : ρ

/-- Executed one after the other from `v`, the operations give their answers and leave `w`. -/
def Legal (spec : Spec σ ο χ ρ) (v : σ) : List (Entry ι ο χ ρ) → σ → Prop
  | [], w => v = w
  | e :: h, w =>
    (spec.apply v e.op e.choice).2 = e.answer ∧ Legal spec (spec.apply v e.op e.choice).1 h w

/-- The operations of a party. -/
def own (i : ι) (h : List (Entry ι ο χ ρ)) : List (Entry ι ο χ ρ) := h.filter fun e => e.who = i

def Event.call? (i : ι) : Event ι ο ρ → Option ο
  | .called j op => if j = i then some op else none
  | .returned _ _ => none

def Event.answer? (i : ι) : Event ι ο ρ → Option ρ
  | .called _ _ => none
  | .returned j answer => if j = i then some answer else none

/-- The operations a party called in a trace. -/
def calls (i : ι) (tr : List (Event ι ο ρ)) : List ο := tr.filterMap (Event.call? i)

/-- The answers returned to a party in a trace. -/
def answers (i : ι) (tr : List (Event ι ο ρ)) : List ρ := tr.filterMap (Event.answer? i)

/-- **`h` linearizes a run** that showed `tr`, from value `v` to value `w`. -/
structure Linearizes (spec : Spec σ ο χ ρ) (v : σ) (tr : List (Event ι ο ρ))
    (h : List (Entry ι ο χ ρ)) (w : σ) : Prop where
  /-- One after the other, the operations do what they did. -/
  legal : Legal spec v h w
  /-- A party's operations are those it called, in that order. -/
  called : ∀ i, (own i h).map Entry.op <+: calls i tr
  /-- What a party was answered are the answers to its operations, in that order. -/
  answered : ∀ i, answers i tr <+: (own i h).map Entry.answer
  /-- At every moment of the run, what had returned stands before what was not yet called. -/
  ordered : ∀ xs ys, tr = xs ++ ys → ∃ h₁ h₂, h = h₁ ++ h₂ ∧
    ∀ i, (answers i xs).length ≤ (own i h₁).length ∧ (own i h₁).length ≤ (calls i xs).length

omit [DecidableEq ι] in
/-- Operations executed one after the other, and then others. -/
theorem legal_append {v w : σ} {h₁ h₂ : List (Entry ι ο χ ρ)} :
    Legal spec v (h₁ ++ h₂) w ↔ ∃ u, Legal spec v h₁ u ∧ Legal spec u h₂ w := by
  induction h₁ generalizing v with
  | nil => simp [Legal]
  | cons e h₁ ih => simp only [List.cons_append, Legal, ih, and_assoc, exists_and_left]

omit [DecidableEq ι] in
theorem Legal.snoc {v w : σ} {h : List (Entry ι ο χ ρ)} (legal : Legal spec v h w) (i : ι) (op : ο)
    (choice : χ) :
    Legal spec v (h ++ [⟨i, op, choice, (spec.apply w op choice).2⟩])
      (spec.apply w op choice).1 :=
  legal_append.mpr ⟨w, legal, rfl, rfl⟩

section Own

variable {i j : ι} {tr : List (Event ι ο ρ)} {h : List (Entry ι ο χ ρ)}

theorem own_snoc_self (e : Entry ι ο χ ρ) : own e.who (h ++ [e]) = own e.who h ++ [e] := by
  simp [own]

theorem own_snoc_of_ne {e : Entry ι ο χ ρ} (hne : e.who ≠ i) : own i (h ++ [e]) = own i h := by
  simp [own, hne]

theorem calls_snoc (e : Event ι ο ρ) : calls i (tr ++ [e]) = calls i tr ++ (e.call? i).toList := by
  simp only [calls, List.filterMap_append, List.append_cancel_left_eq]
  cases h : e.call? i <;> simp [h]

theorem answers_snoc (e : Event ι ο ρ) :
    answers i (tr ++ [e]) = answers i tr ++ (e.answer? i).toList := by
  simp only [answers, List.filterMap_append, List.append_cancel_left_eq]
  cases h : e.answer? i <;> simp [h]

end Own

/-- What a party has called and been answered, against its operations in the list. -/
def Stands (i : ι) (tr : List (Event ι ο ρ)) (h : List (Entry ι ο χ ρ)) : Stand ο ρ → Prop
  | .idle => calls i tr = (own i h).map Entry.op ∧ (own i h).map Entry.answer = answers i tr
  | .pending op =>
    calls i tr = (own i h).map Entry.op ++ [op] ∧ (own i h).map Entry.answer = answers i tr
  | .done answer =>
    calls i tr = (own i h).map Entry.op ∧ (own i h).map Entry.answer = answers i tr ++ [answer]

theorem Stands.bounds {i : ι} {tr : List (Event ι ο ρ)} {h : List (Entry ι ο χ ρ)}
    {stand : Stand ο ρ} (stands : Stands i tr h stand) :
    (own i h).map Entry.op <+: calls i tr ∧ answers i tr <+: (own i h).map Entry.answer := by
  cases stand with
  | idle =>
    obtain ⟨hcalls, hanswers⟩ := stands
    exact ⟨hcalls ▸ List.prefix_rfl, hanswers ▸ List.prefix_rfl⟩
  | pending op =>
    obtain ⟨hcalls, hanswers⟩ := stands
    exact ⟨hcalls ▸ List.prefix_append .., hanswers ▸ List.prefix_rfl⟩
  | done answer =>
    obtain ⟨hcalls, hanswers⟩ := stands
    exact ⟨hcalls ▸ List.prefix_rfl, hanswers ▸ List.prefix_append ..⟩

/-- The operations that took place so far, listed: what a run keeps. -/
structure Listed (spec : Spec σ ο χ ρ) (v : σ) (tr : List (Event ι ο ρ))
    (h : List (Entry ι ο χ ρ)) (s : Object σ ι ο ρ) : Prop where
  legal : Legal spec v h s.value
  stands : ∀ i, Stands i tr h (s.stand i)
  ordered : ∀ xs ys, tr = xs ++ ys → ∃ h₁ h₂, h = h₁ ++ h₂ ∧
    ∀ i, (answers i xs).length ≤ (own i h₁).length ∧ (own i h₁).length ≤ (calls i xs).length

namespace Listed

variable {v : σ} {tr : List (Event ι ο ρ)} {h : List (Entry ι ο χ ρ)} {s s' : Object σ ι ο ρ}

/-- The list linearizes the run. -/
theorem linearizes (l : Listed spec v tr h s) : Linearizes spec v tr h s.value where
  legal := l.legal
  called i := (l.stands i).bounds.1
  answered i := (l.stands i).bounds.2
  ordered := l.ordered

/-- An event is shown, and no operation takes place. -/
theorem tell {e : Event ι ο ρ} (l : Listed spec v tr h s) (value : s'.value = s.value)
    (stands : ∀ i, Stands i (tr ++ [e]) h (s'.stand i)) : Listed spec v (tr ++ [e]) h s' where
  legal := value ▸ l.legal
  stands := stands
  ordered xs ys hsplit := by
    -- the moment is the last one, or one of the run before
    rcases List.eq_nil_or_concat' ys with rfl | ⟨zs, z, rfl⟩
    · rw [List.append_nil] at hsplit
      subst hsplit
      refine ⟨h, [], (List.append_nil h).symm, fun i => ?_⟩
      obtain ⟨hcalled, hanswered⟩ := (stands i).bounds
      have hlength := hcalled.length_le
      have hlength' := hanswered.length_le
      rw [List.length_map] at hlength hlength'
      exact ⟨hlength', hlength⟩
    · rw [← List.append_assoc] at hsplit
      exact l.ordered xs zs (List.append_inj' hsplit rfl).1

/-- An operation takes place. -/
theorem take {i : ι} {op : ο} {choice : χ} (l : Listed spec v tr h s)
    (pending : s.stand i = .pending op) :
    Listed spec v tr (h ++ [⟨i, op, choice, (spec.apply s.value op choice).2⟩])
      ⟨(spec.apply s.value op choice).1,
        Function.update s.stand i (.done (spec.apply s.value op choice).2)⟩ where
  legal := l.legal.snoc i op choice
  stands j := by
    have hj := l.stands j
    by_cases hne : j = i
    · subst hne
      rw [pending] at hj
      obtain ⟨hcalls, hanswers⟩ := hj
      show Stands j tr _ (Function.update s.stand j _ j)
      rw [Function.update_self]
      have hown := own_snoc_self (h := h) ⟨j, op, choice, (spec.apply s.value op choice).2⟩
      exact ⟨by rw [hcalls, hown, List.map_append]; rfl,
        by rw [hown, List.map_append, hanswers]; rfl⟩
    · show Stands j tr _ (Function.update s.stand i _ j)
      rw [Function.update_of_ne hne]
      have hown : own j (h ++ [⟨i, op, choice, (spec.apply s.value op choice).2⟩]) = own j h :=
        own_snoc_of_ne (Ne.symm hne)
      cases hstand : s.stand j with
      | idle | pending _ | done _ =>
        rw [hstand] at hj
        simp only [Stands, hown]
        exact hj
  ordered xs ys hsplit := by
    obtain ⟨h₁, h₂, rfl, hcounts⟩ := l.ordered xs ys hsplit
    exact ⟨h₁, h₂ ++ [_], by rw [List.append_assoc], hcounts⟩

/-- **A step keeps the operations listed.** -/
theorem step {o : Option (Event ι ο ρ)} (l : Listed spec v tr h s) (step : Step spec s s' o) :
    ∃ h', Listed spec v (tr ++ o.toList) h' s' := by
  cases step with
  | @called i op idle =>
    refine ⟨h, l.tell rfl fun j => ?_⟩
    have hj := l.stands j
    by_cases hne : j = i
    · subst hne
      rw [idle] at hj
      obtain ⟨hcalls, hanswers⟩ := hj
      show Stands j _ h (Function.update s.stand j _ j)
      rw [Function.update_self]
      exact ⟨by simp [calls_snoc, hcalls, Event.call?], by simp [answers_snoc, hanswers, Event.answer?]⟩
    · show Stands j _ h (Function.update s.stand i _ j)
      rw [Function.update_of_ne hne]
      have hcalls : calls j (tr ++ [.called i op]) = calls j tr := by
        simp [calls_snoc, Event.call?, Ne.symm hne]
      have hanswers : answers j (tr ++ [.called i op]) = answers j tr := by
        simp [answers_snoc, Event.answer?]
      cases hstand : s.stand j with
      | idle | pending _ | done _ =>
        rw [hstand] at hj
        simp only [Stands, hcalls, hanswers]
        exact hj
  | acted pending =>
    rw [Option.toList_none, List.append_nil]
    exact ⟨_, l.take pending⟩
  | @returned i answer done =>
    refine ⟨h, l.tell rfl fun j => ?_⟩
    have hj := l.stands j
    by_cases hne : j = i
    · subst hne
      rw [done] at hj
      obtain ⟨hcalls, hanswers⟩ := hj
      show Stands j _ h (Function.update s.stand j _ j)
      rw [Function.update_self]
      exact ⟨by simp [calls_snoc, hcalls, Event.call?], by simp [answers_snoc, hanswers, Event.answer?]⟩
    · show Stands j _ h (Function.update s.stand i _ j)
      rw [Function.update_of_ne hne]
      have hcalls : calls j (tr ++ [.returned i answer]) = calls j tr := by
        simp [calls_snoc, Event.call?]
      have hanswers : answers j (tr ++ [.returned i answer]) = answers j tr := by
        simp [answers_snoc, Event.answer?, Ne.symm hne]
      cases hstand : s.stand j with
      | idle | pending _ | done _ =>
        rw [hstand] at hj
        simp only [Stands, hcalls, hanswers]
        exact hj

end Listed

/-- **Every run of an object has a linearization.** -/
theorem linearizes {v : σ} {tr : List (Event ι ο ρ)} {s : Object σ ι ο ρ}
    (run : (object spec).Path (.new v) tr s) : ∃ h, Linearizes spec v tr h s.value := by
  suffices ∃ h, Listed spec v tr h s by
    obtain ⟨h, hlisted⟩ := this
    exact ⟨h, hlisted.linearizes⟩
  induction run with
  | nil =>
    refine ⟨[], rfl, fun i => ⟨rfl, rfl⟩, fun xs ys hsplit => ?_⟩
    obtain ⟨rfl, rfl⟩ := List.append_eq_nil_iff.mp hsplit.symm
    exact ⟨[], [], rfl, fun i => ⟨Nat.le_refl _, Nat.le_refl _⟩⟩
  | snoc _ _ hnext ih =>
    obtain ⟨h, hlisted⟩ := ih
    exact hlisted.step (next_cases hnext)

end Lib.Atomic
