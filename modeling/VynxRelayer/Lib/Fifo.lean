import Mathlib.Data.List.Basic

/-!
# First in, first out

Values move through a stage of a system: some events put a value in, some take the oldest one out,
and in between it is pending. `Fifo` is the law of such a stage over a whole trace: what was put in
is what was taken out followed by what is pending, in order. So nothing is lost, doubled or
overtaken, and the counts add up (`Fifo.countP`).

The law is kept step by step: by an event that puts a value in (`Fifo.send`), by one that takes one
out (`Fifo.take`), and by every other step (`Fifo.silent`).
-/

namespace Lib

variable {ε α : Type} {sent taken : ε → Option α} {pend pend' : List α} {tr : List ε}
  {o : Option ε} {e : ε} {x : α}

/-- A step that shows nothing of a kind adds nothing to it. -/
theorem filterMap_silent {f : ε → Option α} (quiet : ∀ e, o = some e → f e = none) :
    (tr ++ o.toList).filterMap f = tr.filterMap f := by
  cases o with
  | none => rw [Option.toList_none, List.append_nil]
  | some e => simp [quiet e rfl]

/-- A step that shows one of a kind adds it at the end. -/
theorem filterMap_shows {f : ε → Option α} (shows : f e = some x) :
    (tr ++ (some e).toList).filterMap f = tr.filterMap f ++ [x] := by
  simp [shows]

/-- What is shown of one kind is among what is shown of a wider one, in the same order. -/
theorem filterMap_sublist {f g : ε → Option α} (wider : ∀ e ∈ tr, ∀ x, f e = some x → g e = some x) :
    (tr.filterMap f).Sublist (tr.filterMap g) := by
  induction tr with
  | nil => exact .slnil
  | cons e tr ih =>
    have hrest := ih fun e he => wider e (List.mem_cons_of_mem _ he)
    cases hf : f e with
    | none =>
      rw [List.filterMap_cons_none hf]
      cases hg : g e with
      | none => rw [List.filterMap_cons_none hg]; exact hrest
      | some y => rw [List.filterMap_cons_some hg]; exact hrest.cons y
    | some x =>
      rw [List.filterMap_cons_some hf,
        List.filterMap_cons_some (wider e List.mem_cons_self x hf)]
      exact hrest.cons_cons x

/-- What a trace put into a stage is what it took out, followed by what is pending. -/
def Fifo (sent taken : ε → Option α) (pend : List α) (tr : List ε) : Prop :=
  tr.filterMap sent = tr.filterMap taken ++ pend

namespace Fifo

theorem nil : Fifo sent taken [] [] := rfl

theorem silent (h : Fifo sent taken pend tr) (same : pend' = pend)
    (quiet : ∀ e, o = some e → sent e = none ∧ taken e = none) :
    Fifo sent taken pend' (tr ++ o.toList) := by
  subst same
  unfold Fifo at h ⊢
  rw [filterMap_silent fun e he => (quiet e he).1, filterMap_silent fun e he => (quiet e he).2]
  exact h

theorem send (h : Fifo sent taken pend tr) (puts : sent e = some x) (keeps : taken e = none)
    (grown : pend' = pend ++ [x]) : Fifo sent taken pend' (tr ++ (some e).toList) := by
  unfold Fifo at h ⊢
  rw [filterMap_shows puts, filterMap_silent (by rintro _ ⟨⟩; exact keeps), h, grown,
    List.append_assoc]

theorem take (h : Fifo sent taken pend tr) (puts : sent e = none) (takes : taken e = some x)
    (shrunk : pend = x :: pend') : Fifo sent taken pend' (tr ++ (some e).toList) := by
  unfold Fifo at h ⊢
  rw [filterMap_shows takes, filterMap_silent (by rintro _ ⟨⟩; exact puts), h, shrunk,
    List.append_assoc]
  rfl

/-- The counts add up. -/
theorem countP (h : Fifo sent taken pend tr) (P : α → Bool) :
    (tr.filterMap sent).countP P = (tr.filterMap taken).countP P + pend.countP P := by
  rw [h, List.countP_append]

/-- What was taken out was put in. -/
theorem mem_sent (h : Fifo sent taken pend tr) (mem : e ∈ tr) (out : taken e = some x) :
    ∃ e' ∈ tr, sent e' = some x := by
  have hx : x ∈ tr.filterMap sent := by
    rw [h]
    exact List.mem_append_left _ (List.mem_filterMap.mpr ⟨e, mem, out⟩)
  exact List.mem_filterMap.mp hx

end Fifo

end Lib
