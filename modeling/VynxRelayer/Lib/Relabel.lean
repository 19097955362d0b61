import VynxRelayer.Lib.Chan
import VynxRelayer.Lib.System
import Mathlib.Logic.Function.Basic

/-!
# Relabelling what a system carries

A channel and a table move values and never look at them: their operations commute with a
relabelling of the values (`Chan.trySend_map`, `Chan.take_map`, `Chan.park_map`, `map_update`).

For a whole system, let `f` be a view of its states and `g` one of its events. Where two states have
the same view, and related actions from them do the same in the views, the views of a run are
determined by the actions up to the relation (`System.run_alike`). So what neither view shows has no
influence on what they show.
-/

namespace Lib

/-- What the receiving thread has, relabelled. -/
def Receiver.map {α β : Type} (f : α → β) : Receiver α → Receiver β
  | .running => .running
  | .parked => .parked
  | .woken a => .woken (f a)

namespace Receiver

variable {α β : Type} (f : α → β) (r : Receiver α)

@[simp] theorem isParked_map : (r.map f).isParked = r.isParked := by
  cases r <;> rfl

theorem handed_map : (r.map f).handed = r.handed.map f := by
  cases r <;> rfl

end Receiver

namespace Chan

variable {α β : Type} (f : α → β) (c : Chan α)

/-- A channel with all its values relabelled. -/
def map : Chan β where
  cap := c.cap
  buf := c.buf.map f
  receiver := c.receiver.map f
  within := by rw [List.length_map]; exact c.within
  drained := by
    intro h
    rw [Receiver.isParked_map] at h
    rw [c.drained h]
    rfl

theorem trySend_map (a : α) : (c.map f).trySend (f a) = (c.trySend a).map (map f) := by
  have hwaits : (c.map f).receiver.isParked = c.receiver.isParked := c.receiver.isParked_map f
  have hlength : (c.map f).buf.length = c.buf.length := List.length_map _
  unfold trySend
  by_cases waits : c.receiver.isParked = true
  · rw [dif_pos waits, dif_pos (hwaits.trans waits)]
    rfl
  · rw [dif_neg waits, dif_neg (by rw [hwaits]; exact waits)]
    by_cases room : c.buf.length < c.cap
    · rw [dif_pos room, dif_pos (by rw [hlength]; exact room)]
      simp only [map, Option.map_some, List.map_append, List.map_cons, List.map_nil]
    · rw [dif_neg room, dif_neg (by rw [hlength]; exact room)]
      rfl

theorem take_map : (c.map f).take = c.take.map (Prod.map f (map f)) := by
  obtain ⟨cap, buf, receiver, within, drained⟩ := c
  cases receiver with
  | woken a => rfl
  | parked => rfl
  | running => cases buf <;> rfl

theorem park_map : (c.map f).park = c.park.map (map f) := by
  obtain ⟨cap, buf, receiver, within, drained⟩ := c
  cases receiver with
  | woken a => rfl
  | parked => rfl
  | running => cases buf <;> rfl

end Chan

/-- A record is relabelled in its own cell. -/
theorem map_update {κ ν ω : Type} [DecidableEq κ] (f : ν → ω) (table : κ → Option ν) (key : κ)
    (cell : Option ν) :
    (fun k => (Function.update table key cell k).map f) =
      Function.update (fun k => (table k).map f) key (cell.map f) :=
  Function.comp_update (Option.map f) table key cell

namespace System

variable {σ α ε τ ω : Type} (M : System σ α ε) (f : σ → τ) (g : ε → ω)

/-- What a step does, in the views. -/
def viewed (s : σ) (a : α) : Option (τ × Option ω) := (M.next s a).map (Prod.map f (Option.map g))

variable {M f g}

/-- **The views of a run depend on the views of its actions alone.** -/
theorem run_alike {R : α → α → Prop}
    (step : ∀ s t a b, f s = f t → R a b → M.viewed f g s a = M.viewed f g t b)
    {s t s' : σ} {as bs : List α} {tr : List ε} (same : f s = f t) (alike : List.Forall₂ R as bs)
    (h : M.run s as = some (s', tr)) :
    ∃ t' tr', M.run t bs = some (t', tr') ∧ f t' = f s' ∧ tr'.map g = tr.map g := by
  induction alike generalizing s t tr with
  | nil =>
    cases h
    exact ⟨t, [], rfl, same.symm, rfl⟩
  | @cons a b as bs hab _ ih =>
    obtain ⟨s₁, o, rest, hstep, hrun, rfl⟩ := run_cons_eq_some.mp h
    have hview := step s t a b same hab
    simp only [viewed, hstep, Option.map_some] at hview
    obtain ⟨⟨t₁, o'⟩, hstep', heq⟩ := Option.map_eq_some_iff.mp hview.symm
    obtain ⟨hsame, ho⟩ := Prod.mk.inj heq
    obtain ⟨t', tr', hrun', hend, htr⟩ := ih hsame.symm hrun
    refine ⟨t', o'.toList ++ tr', run_cons_eq_some.mpr ⟨t₁, o', tr', hstep', hrun', rfl⟩, hend, ?_⟩
    have ho' : o'.toList.map g = o.toList.map g := by
      rw [← Option.toList_map, ← Option.toList_map]
      exact congrArg Option.toList ho
    rw [List.map_append, List.map_append, ho', htr]

end System

end Lib
