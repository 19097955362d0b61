import VynxRelayer.Lib.Chan

/-!
# When a receiver parks

Parking moves no value, so it cannot be seen when it happens. `awake` is a channel with its receiver
not yet parked: a receive is the same from there, and a send is the same once the receiver has
parked after all (`awake_cases`). So a receiver may be thought of as parking only in time for the
send that wakes it, and a receiver that parks and then leaves for good as one that never parked
(`awake_leave`).
-/

namespace Lib

namespace Chan

variable {α : Type} {c c' : Chan α} {a : α}

/-- The receiver leaves for good. A value it was handed it takes with it, so it does not leave
before it has used it. -/
def leave (c : Chan α) : Option (Chan α) :=
  match c.receiver with
  | .woken _ => none
  | _ => some c.abandon

/-- The channel with its receiver not yet parked. -/
def awake (c : Chan α) : Chan α := if c.receiver.isParked then c.abandon else c

theorem eq_of_fields {d : Chan α} (cap : c.cap = d.cap) (buf : c.buf = d.buf)
    (receiver : c.receiver = d.receiver) : c = d := by
  cases c
  cases d
  cases cap
  cases buf
  cases receiver
  rfl

theorem awake_of_not_parked (running : c.receiver.isParked = false) : c.awake = c := by
  simp [awake, running]

/-- Nobody receives where a send does not happen. -/
theorem awake_of_full (full : c.trySend a = none) : c.awake = c :=
  awake_of_not_parked (trySend_eq_none.mp full).1

theorem awake_of_parked (parked : c.receiver.isParked = true) : c.awake = c.abandon := by
  simp [awake, parked]

/-- Whether a receiver has parked does not show in what is pending. -/
@[simp]
theorem pending_awake : c.awake.pending = c.pending := by
  cases hp : c.receiver.isParked with
  | false => rw [awake_of_not_parked hp]
  | true => rw [awake_of_parked hp, (pending_abandon (handed_of_parked hp)).1]

/-- A receiver can still park. -/
theorem awake_cases (c : Chan α) :
    (c.receiver.isParked = false ∧ c.awake = c) ∨
      (c.receiver.isParked = true ∧ c.awake.park = some c) := by
  cases hp : c.receiver.isParked with
  | false => exact .inl ⟨rfl, awake_of_not_parked hp⟩
  | true =>
    refine .inr ⟨rfl, ?_⟩
    have hparked : c.receiver = .parked := by
      cases hr : c.receiver with
      | parked => rfl
      | running | woken _ => rw [hr] at hp; cases hp
    rw [awake_of_parked hp]
    simp only [park, abandon, c.drained hp, dif_pos]
    rw [Option.some.injEq]
    exact eq_of_fields rfl (c.drained hp).symm hparked.symm

theorem running_of_trySend (sent : c.trySend a = some c') : c'.receiver.isParked = false := by
  unfold trySend at sent
  split at sent
  · cases sent
    rfl
  · rename_i hp
    split at sent <;> cases sent
    exact Bool.eq_false_iff.mpr hp

/-- A receiver that receives was not parked, and is not. -/
theorem running_of_take (taken : c.take = some (a, c')) :
    c.receiver.isParked = false ∧ c'.receiver.isParked = false := by
  unfold take at taken
  split at taken
  · rename_i hr
    cases taken
    exact ⟨by rw [hr]; rfl, rfl⟩
  · cases taken
  · rename_i hr
    split at taken <;> cases taken
    exact ⟨by rw [hr]; rfl, rfl⟩

theorem awake_park (parked : c.park = some c') : c'.awake = c.awake := by
  unfold park at parked
  split at parked
  · rename_i hr
    split at parked <;> cases parked
    rename_i hbuf
    have hrunning : c.receiver.isParked = false := by rw [hr]; rfl
    rw [awake_of_not_parked hrunning, awake_of_parked rfl]
    exact eq_of_fields rfl rfl hr.symm
  · cases parked

theorem awake_leave (left : c.leave = some c') : c'.awake = c.awake := by
  unfold leave at left
  split at left
  · cases left
  · rename_i hnot
    cases left
    rw [awake_of_not_parked (c := c.abandon) rfl]
    cases hp : c.receiver.isParked with
    | true => rw [awake_of_parked hp]
    | false =>
      rw [awake_of_not_parked hp]
      cases hr : c.receiver with
      | running => exact eq_of_fields rfl rfl hr.symm
      | parked => rw [hr] at hp; cases hp
      | woken b => exact absurd hr (hnot b)

theorem pending_leave (left : c.leave = some c') : c'.pending = c.pending := by
  have hsame := awake_leave left
  rw [← pending_awake (c := c'), hsame, pending_awake]

end Chan

end Lib
