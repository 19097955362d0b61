import Mathlib.Data.List.DropRight

/-!
# Padding to a fixed width

A list copied into a field of a fixed width is cut at the width, and filled up behind a shorter one.
`pad` is that copy and `strip` removes the filler from the end of a list. A copy keeps as much of a
list as is left of its first `n` elements when the filler behind them is stripped, and no more
(`pad_eq_pad_iff`).
-/

namespace Lib

variable {α : Type}

/-- The first `n` elements of a list, with `z` behind a shorter one. -/
def pad (n : Nat) (z : α) (l : List α) : List α := (l ++ List.replicate n z).take n

theorem pad_eq_take_append (n : Nat) (z : α) (l : List α) :
    pad n z l = l.take n ++ List.replicate (n - l.length) z := by
  unfold pad
  rw [List.take_append, List.take_replicate, Nat.min_eq_left (Nat.sub_le n l.length)]

/-- Filler at the end of a list does not show in its copy. -/
theorem pad_append_replicate (n : Nat) (z : α) (l : List α) (k : Nat) :
    pad n z (l ++ List.replicate k z) = pad n z l := by
  unfold pad
  rw [List.append_assoc, List.replicate_append_replicate, List.take_append, List.take_append,
    List.take_replicate, List.take_replicate]
  congr 2
  omega

theorem pad_take (n : Nat) (z : α) (l : List α) : pad n z (l.take n) = pad n z l := by
  rw [pad_eq_take_append, pad_eq_take_append, List.take_take, Nat.min_self, List.length_take]
  congr 2
  omega

variable [DecidableEq α]

/-- A list without the `z`s at its end. -/
def strip (z : α) (l : List α) : List α := l.rdropWhile fun x => x == z

theorem strip_append_replicate (z : α) (l : List α) (k : Nat) :
    strip z (l ++ List.replicate k z) = strip z l := by
  induction k with
  | zero => rw [List.replicate_zero, List.append_nil]
  | succ k ih =>
    rw [List.replicate_succ', ← List.append_assoc]
    unfold strip at ih ⊢
    rw [List.rdropWhile_concat, if_pos (beq_self_eq_true z), ih]

/-- A list is what is left of it when stripped, and filler. -/
theorem exists_strip_append (z : α) (l : List α) :
    ∃ k, l = strip z l ++ List.replicate k z := by
  let filler := l.rtakeWhile fun x => x == z
  have hfill : filler = List.replicate filler.length z := by
    refine List.eq_replicate_of_mem ?_
    intro x hx
    have hbeq : (x == z) = true := List.mem_rtakeWhile_imp (p := fun x => x == z) hx
    exact beq_iff_eq.mp hbeq
  refine ⟨filler.length, ?_⟩
  rw [← hfill]
  exact List.rdropWhile_append_rtakeWhile.symm

/-- **What a copy keeps**: two lists have the same copy exactly when their first `n` elements are
the same up to filler at the end. -/
theorem pad_eq_pad_iff (n : Nat) (z : α) (l l' : List α) :
    pad n z l = pad n z l' ↔ strip z (l.take n) = strip z (l'.take n) := by
  constructor
  · intro h
    have hstrip := congrArg (strip z) h
    rw [pad_eq_take_append, pad_eq_take_append, strip_append_replicate,
      strip_append_replicate] at hstrip
    exact hstrip
  · intro h
    have hcopy : ∀ l : List α, pad n z l = pad n z (strip z (l.take n)) := by
      intro l
      obtain ⟨k, hk⟩ := exists_strip_append z (l.take n)
      rw [← pad_take, ← pad_append_replicate n z (strip z (l.take n)) k, ← hk]
    rw [hcopy l, hcopy l', h]

end Lib
