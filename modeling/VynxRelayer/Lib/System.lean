import Mathlib.Data.List.Basic
import Mathlib.Data.List.Induction

/-!
# Traced systems

A **system** takes one action at a time: from a state an action is either refused, or leads to a
next state and shows at most one event. A schedule of actions is one interleaving of the threads
the system is made of, so a statement about every run is a statement about every interleaving.

`run` plays a schedule and can be evaluated. `PathOn P` is the relation the proofs read: the trace
shown so far and the state it leads to, along steps that all meet the guard `P`; `Path` is the run
with no guard. Paths grow at their end, so an invariant is proved by what one step does to it.

Four rules carry the developments above this module:

* `Path.preserved`: what every step preserves holds at the end of every run;
* `run_induction`: the same for a statement that also speaks of the schedule that was played;
* `PathOn.at_event`: an event of a trace has a moment: the state the run was in, the action that
  showed it, and the rest of the run after it;
* `PathOn.simulated`: a forward simulation carries every run of one system to a run of another one
  that shows the same visible events.
-/

namespace Lib

/-- A system of actions over a state: an action is refused (`none`), or it leads to a next state
and shows at most one event. -/
structure System (σ α ε : Type) where
  next : σ → α → Option (σ × Option ε)

namespace System

variable {σ α ε τ β δ ω : Type} (M : System σ α ε)

/-- Play a schedule: the state it ends in and the events it shows, or nothing when an action of it
is refused. -/
def run (s : σ) : List α → Option (σ × List ε)
  | [] => some (s, [])
  | a :: as =>
    match M.next s a with
    | none => none
    | some (s', o) => (run s' as).map fun (t, tr) => (t, o.toList ++ tr)

/-- Every action of a schedule meets the guard `p` in the state it is taken from. -/
def meets (p : σ → α → Bool) (s : σ) : List α → Bool
  | [] => true
  | a :: as =>
    p s a &&
      match M.next s a with
      | none => true
      | some (s', _) => meets p s' as

/-- The runs from `s₀` all of whose steps meet the guard `P`, by the trace they show and the state
they reach. -/
inductive PathOn (P : σ → α → Prop) (s₀ : σ) : List ε → σ → Prop
  | nil : PathOn P s₀ [] s₀
  | snoc {tr : List ε} {s s' : σ} {a : α} {o : Option ε} :
      PathOn P s₀ tr s → P s a → M.next s a = some (s', o) → PathOn P s₀ (tr ++ o.toList) s'

/-- Every run: no step is excluded. -/
abbrev Path (s₀ : σ) (tr : List ε) (s : σ) : Prop := M.PathOn (fun _ _ => True) s₀ tr s

variable {M} {P Q : σ → α → Prop} {s₀ s s' : σ} {tr : List ε}

/-- A weaker guard admits the run. -/
theorem PathOn.weaken (h : M.PathOn P s₀ tr s) (weaker : ∀ s a, P s a → Q s a) :
    M.PathOn Q s₀ tr s := by
  induction h with
  | nil => exact .nil
  | snoc _ guard step ih => exact .snoc ih (weaker _ _ guard) step

/-- A guarded run is a run. -/
theorem PathOn.path (h : M.PathOn P s₀ tr s) : M.Path s₀ tr s :=
  h.weaken fun _ _ _ => trivial

theorem PathOn.trans {t : σ} {tr' : List ε} (first : M.PathOn P s₀ tr s)
    (second : M.PathOn P s tr' t) : M.PathOn P s₀ (tr ++ tr') t := by
  induction second with
  | nil => rw [List.append_nil]; exact first
  | snoc _ guard step ih => rw [← List.append_assoc]; exact .snoc ih guard step

/-- One step, as a run. -/
theorem Path.single {a : α} {o : Option ε} (step : M.next s a = some (s', o)) :
    M.Path s o.toList s' := by
  have h : M.Path s ([] ++ o.toList) s' := .snoc .nil trivial step
  rwa [List.nil_append] at h

/-- What `run` computes from a schedule that meets a guard is a run under the guard. -/
theorem pathOn_of_run {p : σ → α → Bool} {t : σ} {as : List α} (h : M.run s as = some (t, tr))
    (guard : M.meets p s as = true) : M.PathOn (fun s a => p s a = true) s tr t := by
  induction as generalizing s tr with
  | nil =>
    simp only [run, Option.some.injEq, Prod.mk.injEq] at h
    obtain ⟨rfl, rfl⟩ := h
    exact .nil
  | cons a as ih =>
    cases hn : M.next s a with
    | none => simp [run, hn] at h
    | some q =>
      obtain ⟨s', o⟩ := q
      simp only [run, hn, Option.map_eq_some_iff, Prod.mk.injEq] at h
      obtain ⟨⟨t', tr'⟩, hrest, rfl, rfl⟩ := h
      simp only [meets, hn, Bool.and_eq_true] at guard
      have hfirst : M.PathOn (fun s a => p s a = true) s ([] ++ o.toList) s' :=
        .snoc .nil guard.1 hn
      rw [List.nil_append] at hfirst
      exact hfirst.trans (ih hrest guard.2)

theorem meets_true (s : σ) (as : List α) : M.meets (fun _ _ => true) s as = true := by
  induction as generalizing s with
  | nil => rfl
  | cons a as ih =>
    simp only [meets, Bool.true_and]
    split
    · rfl
    · exact ih _

/-- What `run` computes is a run. -/
theorem path_of_run {t : σ} {as : List α} (h : M.run s as = some (t, tr)) : M.Path s tr t :=
  (pathOn_of_run h (meets_true s as)).path

/-- The trace alone of a played schedule is enough for a run that shows it. -/
theorem exists_pathOn_of_run {p : σ → α → Bool} {as : List α}
    (h : (M.run s as).map Prod.snd = some tr) (guard : M.meets p s as = true) :
    ∃ t, M.PathOn (fun s a => p s a = true) s tr t := by
  obtain ⟨⟨t, tr'⟩, hrun, rfl⟩ := Option.map_eq_some_iff.mp h
  exact ⟨t, pathOn_of_run hrun guard⟩

theorem exists_path_of_run {as : List α} (h : (M.run s as).map Prod.snd = some tr) :
    ∃ t, M.Path s tr t := by
  obtain ⟨t, hpath⟩ := exists_pathOn_of_run h (meets_true s as)
  exact ⟨t, hpath.path⟩

/-! ### Schedules -/

/-- The first action of a schedule. -/
theorem run_cons_eq_some {a : α} {as : List α} {t : σ} :
    M.run s (a :: as) = some (t, tr) ↔
      ∃ s' o tr', M.next s a = some (s', o) ∧ M.run s' as = some (t, tr') ∧
        tr = o.toList ++ tr' := by
  rw [run]
  cases hn : M.next s a with
  | none => simp
  | some q =>
    obtain ⟨s', o⟩ := q
    simp only [Option.map_eq_some_iff, Prod.mk.injEq, Option.some.injEq]
    constructor
    · rintro ⟨⟨u, tr'⟩, hrun, rfl, rfl⟩
      exact ⟨s', o, tr', ⟨rfl, rfl⟩, hrun, rfl⟩
    · rintro ⟨s', o, tr', ⟨rfl, rfl⟩, hrun, rfl⟩
      exact ⟨(t, tr'), hrun, rfl, rfl⟩

/-- Two schedules played one after the other. -/
theorem run_append_eq_some {as bs : List α} {u : σ} :
    M.run s (as ++ bs) = some (u, tr) ↔
      ∃ t tr₁ tr₂, M.run s as = some (t, tr₁) ∧ M.run t bs = some (u, tr₂) ∧ tr = tr₁ ++ tr₂ := by
  induction as generalizing s tr with
  | nil => simp [run]
  | cons a as ih =>
    simp only [List.cons_append, run_cons_eq_some, ih]
    constructor
    · rintro ⟨s', o, _, hn, ⟨t, tr₁, tr₂, hfirst, hsecond, rfl⟩, rfl⟩
      exact ⟨t, o.toList ++ tr₁, tr₂, ⟨s', o, tr₁, hn, hfirst, rfl⟩, hsecond, by
        rw [List.append_assoc]⟩
    · rintro ⟨t, _, tr₂, ⟨s', o, tr₁, hn, hfirst, rfl⟩, hsecond, rfl⟩
      exact ⟨s', o, tr₁ ++ tr₂, hn, ⟨t, tr₁, tr₂, hfirst, hsecond, rfl⟩, by
        rw [List.append_assoc]⟩

/-- The last action of a schedule. -/
theorem run_concat_eq_some {as : List α} {a : α} {t : σ} :
    M.run s (as ++ [a]) = some (t, tr) ↔
      ∃ s' tr' o, M.run s as = some (s', tr') ∧ M.next s' a = some (t, o) ∧ tr = tr' ++ o.toList := by
  rw [run_append_eq_some]
  constructor
  · rintro ⟨s', tr', _, hrun, hlast, rfl⟩
    obtain ⟨t', o, _, hn, hend, rfl⟩ := run_cons_eq_some.mp hlast
    cases hend
    exact ⟨s', tr', o, hrun, hn, by rw [List.append_nil]⟩
  · rintro ⟨s', tr', o, hrun, hn, rfl⟩
    refine ⟨s', tr', o.toList, hrun, run_cons_eq_some.mpr ⟨t, o, [], hn, rfl, ?_⟩, rfl⟩
    rw [List.append_nil]

/-- **Induction over what was played**: what holds of no action, and goes on to hold with every
action that is taken, holds of every schedule that is played. -/
theorem run_induction {I : List α → σ → List ε → Prop} {as : List α} {t : σ}
    (played : M.run s as = some (t, tr)) (base : I [] s [])
    (step : ∀ as t tr a t' o, M.run s as = some (t, tr) → I as t tr → M.next t a = some (t', o) →
      I (as ++ [a]) t' (tr ++ o.toList)) : I as t tr := by
  induction as using List.reverseRecOn generalizing t tr with
  | nil =>
    simp only [run, Option.some.injEq, Prod.mk.injEq] at played
    obtain ⟨rfl, rfl⟩ := played
    exact base
  | append_singleton as a ih =>
    obtain ⟨s', tr', o, hrun, hn, rfl⟩ := run_concat_eq_some.mp played
    exact step as s' tr' a t o hrun (ih hrun) hn

/-- Every step of what was played is an action of the schedule. -/
theorem pathOn_mem_of_run {as : List α} {t : σ} (played : M.run s as = some (t, tr)) :
    M.PathOn (fun _ a => a ∈ as) s tr t := by
  refine run_induction (I := fun as t tr => M.PathOn (fun _ a => a ∈ as) s tr t) played .nil ?_
  intro as t tr a t' o _ path step
  refine .snoc (path.weaken fun _ _ mem => List.mem_append_left _ mem) ?_ step
  exact List.mem_append_right _ List.mem_cons_self

/-- **The invariant rule**: what holds at the start and is preserved by every step holds at the
end of every run. -/
theorem Path.preserved {I : σ → Prop} (h : M.Path s₀ tr s) (base : I s₀)
    (next : ∀ s a s' o, I s → M.next s a = some (s', o) → I s') : I s := by
  induction h with
  | nil => exact base
  | snoc _ _ step ih => exact next _ _ _ _ ih step

/-- **The moment of an event**: where a trace shows an event, the run was in some state, took the
action that shows it, and went on from there. -/
theorem PathOn.at_event {xs ys : List ε} {e : ε} (h : M.PathOn P s₀ (xs ++ e :: ys) s) :
    ∃ s₁ a s₂, M.PathOn P s₀ xs s₁ ∧ P s₁ a ∧ M.next s₁ a = some (s₂, some e) ∧
      M.PathOn P s₂ ys s := by
  generalize hw : xs ++ e :: ys = w at h
  induction h generalizing ys with
  | nil => simp at hw
  | @snoc tr s s' a o hpath guard step ih =>
    cases o with
    | none =>
      rw [Option.toList_none, List.append_nil] at hw
      obtain ⟨s₁, b, s₂, hpre, hg, hstep, hpost⟩ := ih hw
      refine ⟨s₁, b, s₂, hpre, hg, hstep, ?_⟩
      have hlast := PathOn.snoc hpost guard step
      rwa [Option.toList_none, List.append_nil] at hlast
    | some f =>
      rw [Option.toList_some] at hw
      -- the event is the last one shown, or it lies in the run before the last step
      rcases List.eq_nil_or_concat' ys with rfl | ⟨zs, z, rfl⟩
      · obtain ⟨rfl, hlast⟩ := List.append_inj' hw rfl
        cases hlast
        exact ⟨s, a, s', hpath, guard, step, .nil⟩
      · rw [← List.cons_append, ← List.append_assoc] at hw
        obtain ⟨hw', hlast⟩ := List.append_inj' hw rfl
        cases hlast
        obtain ⟨s₁, b, s₂, hpre, hg, hstep, hpost⟩ := ih hw'
        exact ⟨s₁, b, s₂, hpre, hg, hstep, .snoc hpost guard step⟩

/-- The moment of an event that a trace is only known to contain. -/
theorem PathOn.at_mem {e : ε} (h : M.PathOn P s₀ tr s) (shown : e ∈ tr) :
    ∃ xs ys s₁ a s₂, tr = xs ++ e :: ys ∧ M.PathOn P s₀ xs s₁ ∧ P s₁ a ∧
      M.next s₁ a = some (s₂, some e) ∧ M.PathOn P s₂ ys s := by
  obtain ⟨xs, ys, rfl⟩ := List.append_of_mem shown
  obtain ⟨s₁, a, s₂, hpre, hg, hstep, hpost⟩ := h.at_event
  exact ⟨xs, ys, s₁, a, s₂, rfl, hpre, hg, hstep, hpost⟩

/-- **Forward simulation**: when every step from related states is answered by a run of the other
system that shows the same visible events and ends in related states, every run is. -/
theorem PathOn.simulated {N : System τ β δ} {t₀ : τ} (see : ε → Option ω) (see' : δ → Option ω)
    {R : σ → τ → Prop} (h : M.PathOn P s₀ tr s) (base : R s₀ t₀)
    (answer : ∀ s t a s' o, R s t → P s a → M.next s a = some (s', o) →
      ∃ tr' t', N.Path t tr' t' ∧ R s' t' ∧ tr'.filterMap see' = o.toList.filterMap see) :
    ∃ tr' t, N.Path t₀ tr' t ∧ R s t ∧ tr'.filterMap see' = tr.filterMap see := by
  induction h with
  | nil => exact ⟨[], t₀, .nil, base, rfl⟩
  | snoc _ guard step ih =>
    obtain ⟨tr₁, t₁, hpath, hR, hsee⟩ := ih
    obtain ⟨tr₂, t₂, hpath', hR', hsee'⟩ := answer _ _ _ _ _ hR guard step
    refine ⟨tr₁ ++ tr₂, t₂, hpath.trans hpath', hR', ?_⟩
    rw [List.filterMap_append, List.filterMap_append, hsee, hsee']

/-- Forward simulation of every run. -/
theorem Path.simulated {N : System τ β δ} {t₀ : τ} (see : ε → Option ω) (see' : δ → Option ω)
    {R : σ → τ → Prop} (h : M.Path s₀ tr s) (base : R s₀ t₀)
    (answer : ∀ s t a s' o, R s t → M.next s a = some (s', o) →
      ∃ tr' t', N.Path t tr' t' ∧ R s' t' ∧ tr'.filterMap see' = o.toList.filterMap see) :
    ∃ tr' t, N.Path t₀ tr' t ∧ R s t ∧ tr'.filterMap see' = tr.filterMap see :=
  PathOn.simulated see see' h base fun s t a s' o hR _ => answer s t a s' o hR

end System

end Lib
