import Mathlib.Data.List.Basic

/-!
# A buffered channel with one receiver

The channel of Go's concurrency, as its runtime moves values: a buffer of a fixed capacity, and one
receiving thread that is running, parked in a receive, or woken with a value it was handed.

A receive on a channel with buffered values takes the oldest one; on an empty buffer it parks the
receiver. A non-blocking send (`select` with a `default` branch) hands its value to a parked
receiver, else buffers it while there is room, and else does not happen. The hand-over is what makes
an unbuffered channel (`cap = 0`) carry anything at all under non-blocking sends.

`pending` lists the values that were sent and not yet received, oldest first. Every operation is
specified by what it does to that list: a send puts its value at the end, a receive takes the head,
parking changes nothing. First in, first out, without loss or duplication, follows for whole runs.
-/

namespace Lib

/-- What the receiving thread of a channel is doing. -/
inductive Receiver (α : Type) where
  | running
  | parked
  | woken (a : α)

/-- The receiver is blocked in a receive. -/
def Receiver.isParked {α : Type} : Receiver α → Bool
  | .parked => true
  | _ => false

/-- The value handed to the receiver, while it has not yet run again. -/
def Receiver.handed {α : Type} : Receiver α → List α
  | .woken a => [a]
  | _ => []

/-- A channel: its buffer never exceeds its capacity, and a receiver parks only on an empty
buffer. -/
structure Chan (α : Type) where
  cap : Nat
  buf : List α
  receiver : Receiver α
  within : buf.length ≤ cap
  drained : receiver.isParked = true → buf = []

namespace Chan

variable {α : Type}

/-- `make(chan α, cap)`. -/
def make (cap : Nat) : Chan α where
  cap := cap
  buf := []
  receiver := .running
  within := Nat.zero_le _
  drained := fun _ => rfl

/-- The values sent and not yet received, oldest first. -/
def pending (c : Chan α) : List α := c.receiver.handed ++ c.buf

/-- The non-blocking send: to a parked receiver, else into the buffer; `none` is the `default`
branch. -/
def trySend (c : Chan α) (a : α) : Option (Chan α) :=
  if waits : c.receiver.isParked = true then
    some { c with receiver := .woken a, drained := fun h => nomatch h }
  else if room : c.buf.length < c.cap then
    some { c with
      buf := c.buf ++ [a]
      within := by rw [List.length_append]; exact room
      drained := fun h => absurd h waits }
  else none

/-- What the receiver gets when it runs: the value it was handed, or the oldest one buffered. -/
def take (c : Chan α) : Option (α × Chan α) :=
  match c.receiver with
  | .woken a => some (a, { c with receiver := .running, drained := fun h => nomatch h })
  | .parked => none
  | .running =>
    match hb : c.buf with
    | [] => none
    | a :: rest => some (a, { c with
        buf := rest
        receiver := .running
        within := by have h := c.within; rw [hb] at h; exact Nat.le_of_succ_le h
        drained := fun h => nomatch h })

/-- A receive that finds the buffer empty parks the receiver. -/
def park (c : Chan α) : Option (Chan α) :=
  match c.receiver with
  | .running =>
    if empty : c.buf = [] then some { c with receiver := .parked, drained := fun _ => empty }
    else none
  | _ => none

/-- The receiver leaves its receive for another case of its `select`, or stops for good; a value it
was handed and has not used is lost. -/
def abandon (c : Chan α) : Chan α :=
  { c with receiver := .running, drained := fun h => nomatch h }

/-- A parked receiver has nothing to receive. -/
theorem pending_of_parked {c : Chan α} (h : c.receiver.isParked = true) : c.pending = [] := by
  have hbuf := c.drained h
  cases hr : c.receiver with
  | parked => simp only [pending, hr, Receiver.handed, hbuf, List.append_nil]
  | running => simp [hr, Receiver.isParked] at h
  | woken a => simp [hr, Receiver.isParked] at h

/-- A send puts its value behind everything pending, and keeps the capacity. -/
theorem pending_trySend {c c' : Chan α} {a : α} (h : c.trySend a = some c') :
    c'.pending = c.pending ++ [a] ∧ c'.cap = c.cap := by
  unfold trySend at h
  split at h
  · rename_i parked
    have hempty := pending_of_parked parked
    have hbuf := c.drained parked
    cases h
    refine ⟨?_, rfl⟩
    rw [hempty]
    simp only [pending, Receiver.handed, hbuf, List.append_nil, List.nil_append]
  · split at h
    · cases h
      exact ⟨by simp only [pending, List.append_assoc], rfl⟩
    · cases h

/-- The `default` branch is taken exactly when the buffer holds its capacity and no receiver
waits. -/
theorem trySend_eq_none {c : Chan α} {a : α} :
    c.trySend a = none ↔ c.receiver.isParked = false ∧ c.buf.length = c.cap := by
  have hle := c.within
  unfold trySend
  by_cases hp : c.receiver.isParked = true
  · simp [hp]
  · rw [dif_neg hp]
    by_cases room : c.buf.length < c.cap
    · rw [dif_pos room]
      constructor
      · intro h; cases h
      · rintro ⟨-, heq⟩
        exact absurd heq (Nat.ne_of_lt room)
    · rw [dif_neg room]
      exact ⟨fun _ => ⟨Bool.eq_false_iff.mpr hp, by omega⟩, fun _ => rfl⟩

/-- A receive takes the oldest pending value, and keeps the capacity. -/
theorem pending_take {c c' : Chan α} {a : α} (h : c.take = some (a, c')) :
    c.pending = a :: c'.pending ∧ c'.cap = c.cap := by
  unfold take at h
  split at h
  · rename_i b hr
    cases h
    exact ⟨by simp only [pending, hr, Receiver.handed, List.singleton_append, List.nil_append], rfl⟩
  · cases h
  · rename_i hr
    split at h
    · cases h
    · rename_i b rest hb
      cases h
      exact ⟨by simp only [pending, hr, hb, Receiver.handed, List.nil_append], rfl⟩

/-- Parking moves no value. -/
theorem pending_park {c c' : Chan α} (h : c.park = some c') :
    c'.pending = c.pending ∧ c'.cap = c.cap := by
  unfold park at h
  split at h
  · rename_i hr
    split at h
    · cases h
      exact ⟨by simp only [pending, hr, Receiver.handed], rfl⟩
    · cases h
  · cases h

/-- A receiver that was handed nothing loses nothing when it turns away. -/
theorem pending_abandon {c : Chan α} (idle : c.receiver.handed = []) :
    c.abandon.pending = c.pending ∧ c.abandon.cap = c.cap := by
  refine ⟨?_, rfl⟩
  show [] ++ c.buf = c.receiver.handed ++ c.buf
  rw [idle]

theorem handed_of_parked {c : Chan α} (parked : c.receiver.isParked = true) :
    c.receiver.handed = [] := by
  cases hr : c.receiver with
  | parked => rfl
  | running => rfl
  | woken a => rw [hr] at parked; cases parked

end Chan

end Lib
