import Mathlib.Algebra.BigOperators.Group.Finset.Basic
import VynxRelayer.Lib.Counting
import VynxRelayer.Lib.Parking
import VynxRelayer.Lib.System

/-!
# Work left to do

A system comes to rest when every move it makes by itself uses up some of a finite amount of
**work**. The rule is `System.length_le_of_work`: if each move of a kind lowers a measure, no
schedule of such moves is longer than the measure was at the start; and `System.exists_rest`: some
schedule of them leads to a state that admits no more.

To measure a state, tables are weighed entry by entry (`weight`, over the keys below a bound) and
channels value by value (`Chan.load`). A channel's receiver counts for one while it is not parked,
so that parking is a move like any other.
-/

namespace Lib

/-! ## The rule -/

namespace System

variable {σ α ε : Type} {M : System σ α ε} {I : σ → Prop} {p : σ → α → Bool} {work : σ → Nat}
  {s t : σ} {tr : List ε}

/-- **Moves that use up work are finitely many.** -/
theorem length_le_of_work
    (uses : ∀ s a s' o, I s → p s a = true → M.next s a = some (s', o) → I s' ∧ work s' < work s)
    {as : List α} (start : I s) (played : M.run s as = some (t, tr))
    (guard : M.meets p s as = true) : I t ∧ as.length + work t ≤ work s := by
  induction as generalizing s tr with
  | nil =>
    cases played
    exact ⟨start, by simp⟩
  | cons a as ih =>
    obtain ⟨s', o, tr', hnext, hrest, rfl⟩ := run_cons_eq_some.mp played
    simp only [meets, hnext, Bool.and_eq_true] at guard
    obtain ⟨hI, hlt⟩ := uses s a s' o start guard.1 hnext
    obtain ⟨hIt, hle⟩ := ih hI hrest guard.2
    refine ⟨hIt, ?_⟩
    rw [List.length_cons]
    omega

/-- **A system that uses up work comes to rest.** -/
theorem exists_rest
    (uses : ∀ s a s' o, I s → p s a = true → M.next s a = some (s', o) → I s' ∧ work s' < work s)
    (start : I s) :
    ∃ as t tr, M.run s as = some (t, tr) ∧ M.meets p s as = true ∧
      ∀ a, p t a = true → M.next t a = none := by
  induction hw : work s using Nat.strongRecOn generalizing s with
  | ind n ih =>
    by_cases hrest : ∀ a, p s a = true → M.next s a = none
    · exact ⟨[], s, [], rfl, rfl, hrest⟩
    · push Not at hrest
      obtain ⟨a, hp, hmoves⟩ := hrest
      obtain ⟨⟨s', o⟩, hnext⟩ := Option.ne_none_iff_exists'.mp hmoves
      obtain ⟨hI, hlt⟩ := uses s a s' o start hp hnext
      obtain ⟨as, t, tr, hrun, hmeets, hstuck⟩ := ih (work s') (by omega) hI rfl
      refine ⟨a :: as, t, o.toList ++ tr, ?_, ?_, hstuck⟩
      · exact run_cons_eq_some.mpr ⟨s', o, tr, hnext, hrun, rfl⟩
      · simp only [meets, hp, hnext, hmeets, Bool.and_self]

end System

/-! ## Tables -/

section Tables

variable {ν : Type} {N : Nat} {w : ν → Nat} {table : Nat → Option ν} {k : Nat} {u v : ν}

/-- The weight of a table's entries with keys below `N`. -/
def weight (N : Nat) (w : ν → Nat) (table : Nat → Option ν) : Nat :=
  ∑ k ∈ Finset.range N, (table k).elim 0 w

/-- The keys of a table lie below `N`. -/
def Keys (N : Nat) (table : Nat → Option ν) : Prop := ∀ k v, table k = some v → k < N

theorem Keys.nil : Keys 0 (fun _ => (none : Option ν)) := by
  intro k v h
  cases h

/-- One entry is written. -/
theorem weight_update (below : k < N) :
    weight N w (Function.update table k (some v)) + (table k).elim 0 w =
      weight N w table + w v := by
  have hmem : k ∈ Finset.range N := Finset.mem_range.mpr below
  have hrest : ∑ j ∈ (Finset.range N).erase k, (Function.update table k (some v) j).elim 0 w =
      ∑ j ∈ (Finset.range N).erase k, (table j).elim 0 w := by
    refine Finset.sum_congr rfl fun j hj => ?_
    rw [Function.update_of_ne (Finset.ne_of_mem_erase hj)]
  have hself : (Function.update table k (some v) k).elim 0 w = w v := by
    rw [Function.update_self, Option.elim_some]
  rw [weight, weight, ← Finset.add_sum_erase _ _ hmem, ← Finset.add_sum_erase _ _ hmem, hrest, hself]
  omega

/-- An entry is overwritten. -/
theorem Keys.weight_move (keys : Keys N table) (stood : table k = some u) :
    weight N w (Function.update table k (some v)) + w u = weight N w table + w v := by
  have h : weight N w (Function.update table k (some v)) + (table k).elim 0 w =
      weight N w table + w v := weight_update (keys k u stood)
  rwa [stood, Option.elim_some] at h

/-- A new entry is made. -/
theorem weight_new (below : k < N) (free : table k = none) :
    weight N w (Function.update table k (some v)) = weight N w table + w v := by
  have h : weight N w (Function.update table k (some v)) + (table k).elim 0 w =
      weight N w table + w v := weight_update below
  rwa [free, Option.elim_none, Nat.add_zero] at h

theorem Keys.update (keys : Keys N table) (below : k < N) :
    Keys N (Function.update table k (some v)) := by
  intro j u hj
  by_cases hjk : j = k
  · exact hjk ▸ below
  · rw [Function.update_of_ne hjk] at hj
    exact keys j u hj

/-- An overwritten entry makes no new key. -/
theorem Keys.move (keys : Keys N table) (stood : table k = some u) :
    Keys N (Function.update table k (some v)) :=
  keys.update (keys k u stood)

theorem Keys.mono {M : Nat} (keys : Keys N table) (le : N ≤ M) : Keys M table :=
  fun k v h => Nat.lt_of_lt_of_le (keys k v h) le

/-! ### Entries under way -/

/-- The entry under `k` has begun, and has not come to its end. -/
def Busy (last : ν) (table : Nat → Option ν) (k : Nat) : Prop := ∃ v, table k = some v ∧ v ≠ last

variable {last : ν} {j : Nat}

/-- An entry begins. -/
theorem busy_begin (free : table k = none) (under : v ≠ last) :
    Busy last (Function.update table k (some v)) j ↔ j = k ∨ Busy last table j := by
  by_cases hj : j = k
  · subst hj
    exact ⟨fun _ => .inl rfl, fun _ => ⟨v, Function.update_self .., under⟩⟩
  · simp only [Busy, Function.update_of_ne hj, hj, false_or]

/-- An entry moves on. -/
theorem busy_move (stood : table k = some u) (before : u ≠ last) (after : v ≠ last) :
    Busy last (Function.update table k (some v)) j ↔ Busy last table j := by
  by_cases hj : j = k
  · subst hj
    exact ⟨fun _ => ⟨u, stood, before⟩, fun _ => ⟨v, Function.update_self .., after⟩⟩
  · simp only [Busy, Function.update_of_ne hj]

/-- An entry comes to its end. -/
theorem busy_end : Busy last (Function.update table k (some last)) j ↔ j ≠ k ∧ Busy last table j := by
  by_cases hj : j = k
  · subst hj
    simp only [Busy, Function.update_self, Option.some.injEq, ne_eq, not_true_eq_false, false_and,
      iff_false, not_exists, not_and, not_not]
    exact fun x hx => hx.symm
  · simp only [Busy, Function.update_of_ne hj, ne_eq, hj, not_false_eq_true, true_and]

end Tables

/-! ## Channels -/

theorem sumOver_concat {α : Type} (w : α → Nat) (as : List α) (a : α) :
    sumOver w (as ++ [a]) = sumOver w as + w a := by
  induction as with
  | nil => simp [sumOver]
  | cons b as ih =>
    rw [List.cons_append, sumOver, sumOver, ih]
    omega

namespace Chan

variable {α : Type} {c c' : Chan α} {w : α → Nat} {a : α}

/-- The weight of what is pending on a channel, and one for a receiver that is not parked. -/
def load (w : α → Nat) (c : Chan α) : Nat :=
  sumOver w c.pending + if c.receiver.isParked then 0 else 1

theorem load_trySend (sent : c.trySend a = some c') : c'.load w ≤ c.load w + w a + 1 := by
  have hpending := (pending_trySend sent).1
  have hreceiver : (if c'.receiver.isParked = true then 0 else 1) ≤ 1 := by split <;> simp
  simp only [load, hpending, sumOver_concat]
  omega

theorem load_take (taken : c.take = some (a, c')) : c'.load w + w a = c.load w := by
  obtain ⟨hbefore, hafter⟩ := running_of_take taken
  simp only [load, (pending_take taken).1, hbefore, hafter, sumOver]
  omega

theorem load_park (parked : c.park = some c') : c'.load w + 1 = c.load w := by
  have hpending := (pending_park parked).1
  unfold park at parked
  split at parked
  · rename_i hr
    split at parked <;> cases parked
    have hbefore : c.receiver.isParked = false := by rw [hr]; rfl
    simp only [load, hpending, hbefore]
    rfl
  · cases parked

theorem load_abandon (idle : c.receiver.handed = []) : c.abandon.load w ≤ c.load w + 1 := by
  have hreceiver : (if c.abandon.receiver.isParked = true then 0 else 1) ≤ 1 := by split <;> simp
  simp only [load, (pending_abandon idle).1]
  omega

/-- A receiver with nothing to receive was handed nothing. -/
theorem handed_of_take_eq_none (nothing : c.take = none) : c.receiver.handed = [] := by
  cases hr : c.receiver with
  | parked => rfl
  | running => rfl
  | woken b => simp [take, hr] at nothing

/-- A receiver that can neither receive nor park is parked. -/
theorem parked_of_stuck (nothing : c.take = none) (stuck : c.park = none) :
    c.receiver.isParked = true := by
  cases hr : c.receiver with
  | parked => rfl
  | woken b => simp [take, hr] at nothing
  | running =>
    unfold take at nothing
    unfold park at stuck
    simp only [hr] at nothing stuck
    split at nothing
    · rename_i hbuf
      simp [hbuf] at stuck
    · cases nothing

end Chan

end Lib
