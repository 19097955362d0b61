import Mathlib.Data.List.Basic
import Mathlib.Data.List.Nodup
import Mathlib.Logic.Function.Basic

/-!
# Locks and the threads that use them

One reader-writer lock, and one mutex for every key. A writer of the reader-writer lock first
announces itself, which keeps new readers and other writers out, and has the lock once the readers
that were there have left. This is the lock of Go's `sync.RWMutex`.

A thread here uses at most one of the locks at a time. `LockOp.Moves` is the discipline: which use
an operation ends, and which one it begins. It speaks of one thread only, so a program is checked
against it step by step. Whatever the threads do besides, while all of them keep to the discipline
the locks say exactly who uses what (`Locks.Used`, kept by `Used.apply`), and exclusion follows: a
writer is alone (`Used.alone`), and so is the holder of a mutex (`Used.sole`).

A thread inside a lock is never made to wait (`apply_of_inside`), and one that waits does so for a
thread that is inside, or for a writer that waits for readers itself (`Used.blocked`). So among
threads that all have a next step while they use a lock, whoever waits waits for one that can move
(`Used.enabled_or_waits`).
-/

namespace Lib

/-- The use a thread makes of the locks. -/
inductive LockUse (κ : Type) where
  | free
  /-- a writer that waits for the readers to leave -/
  | announced
  | writing
  | reading
  /-- inside the mutex of `k` -/
  | holding (k : κ)
  deriving DecidableEq

/-- What a thread does to the locks in one step. -/
inductive LockOp (κ : Type) where
  | none
  | announce
  | lock
  | unlock
  | rlock
  | runlock
  | hold (k : κ)
  | release (k : κ)
  deriving DecidableEq

/-- **The discipline**: the use an operation ends, and the one it begins. -/
inductive LockOp.Moves {κ : Type} : LockOp κ → LockUse κ → LockUse κ → Prop
  | none {u : LockUse κ} : Moves .none u u
  | announce : Moves .announce .free .announced
  | lock : Moves .lock .announced .writing
  | unlock : Moves .unlock .writing .free
  | rlock : Moves .rlock .free .reading
  | runlock : Moves .runlock .reading .free
  | hold {k : κ} : Moves (.hold k) .free (.holding k)
  | release {k : κ} : Moves (.release k) (.holding k) .free

/-- A reader comes or goes. -/
def LockOp.byReader {κ : Type} : LockOp κ → Bool
  | .rlock => true
  | .runlock => true
  | _ => false

/-- The thread has what it asked for. -/
def LockUse.inside {κ : Type} : LockUse κ → Bool
  | .writing => true
  | .reading => true
  | .holding _ => true
  | _ => false

/-- The uses that keep an operation waiting. -/
def LockOp.BlockedBy {κ : Type} : LockOp κ → LockUse κ → Prop
  | .announce, u => u = .writing ∨ u = .announced
  | .rlock, u => u = .writing ∨ u = .announced
  | .lock, u => u = .reading
  | .hold k, u => u = .holding k
  | _, _ => False

/-- The locks. -/
structure Locks (τ κ : Type) where
  /-- the writer inside the reader-writer lock -/
  writer : Option τ
  /-- the writer that has announced itself -/
  pending : Option τ
  readers : List τ
  /-- who is inside the mutex of a key -/
  holder : κ → Option τ

namespace Locks

variable {τ κ : Type}

/-- Nobody is inside. -/
def new : Locks τ κ := ⟨none, none, [], fun _ => none⟩

/-- An operation of thread `t`; `none` when it has to wait. -/
def apply [DecidableEq τ] [DecidableEq κ] (l : Locks τ κ) (t : τ) : LockOp κ → Option (Locks τ κ)
  | .none => some l
  | .announce =>
    if l.writer = none ∧ l.pending = none then some { l with pending := some t } else none
  | .lock => if l.readers = [] then some { l with pending := none, writer := some t } else none
  | .unlock => some { l with writer := none }
  | .rlock =>
    if l.writer = none ∧ l.pending = none then some { l with readers := t :: l.readers } else none
  | .runlock => some { l with readers := l.readers.erase t }
  | .hold k =>
    if l.holder k = none then some { l with holder := Function.update l.holder k (some t) } else none
  | .release k => some { l with holder := Function.update l.holder k none }

/-- **The locks say who uses what.** -/
structure Used (l : Locks τ κ) (use : τ → LockUse κ) : Prop where
  writing_iff : ∀ t, l.writer = some t ↔ use t = .writing
  announced_iff : ∀ t, l.pending = some t ↔ use t = .announced
  reading_iff : ∀ t, t ∈ l.readers ↔ use t = .reading
  holding_iff : ∀ k t, l.holder k = some t ↔ use t = .holding k
  distinct : l.readers.Nodup
  /-- A writer inside keeps readers and other writers out. -/
  excludes : l.writer ≠ none → l.readers = [] ∧ l.pending = none

theorem used_new : (new : Locks τ κ).Used fun _ => .free where
  writing_iff t := by simp [new]
  announced_iff t := by simp [new]
  reading_iff t := by simp [new]
  holding_iff k t := by simp [new]
  distinct := List.nodup_nil
  excludes h := absurd rfl h

namespace Used

variable {l l' : Locks τ κ} {use : τ → LockUse κ} {t u : τ} {k : κ}

/-- A writer is alone with the lock. -/
theorem alone (h : l.Used use) (writes : use t = .writing)
    (uses : use u = .writing ∨ use u = .reading) : t = u := by
  have hwriter := (h.writing_iff t).mpr writes
  rcases uses with hu | hu
  · rw [(h.writing_iff u).mpr hu] at hwriter
    cases hwriter
    rfl
  · have hmem := (h.reading_iff u).mpr hu
    rw [(h.excludes (by rw [hwriter]; simp)).1] at hmem
    cases hmem

/-- Two threads inside the reader-writer lock are both reading. -/
theorem both_reading (h : l.Used use) (apart : t ≠ u) (ht : use t = .writing ∨ use t = .reading)
    (hu : use u = .writing ∨ use u = .reading) : use t = .reading ∧ use u = .reading := by
  constructor
  · exact ht.resolve_left fun hw => apart (h.alone hw hu)
  · exact hu.resolve_left fun hw => apart (h.alone hw ht).symm

/-- While a writer waits, none is inside. -/
theorem no_writer (h : l.Used use) (announced : use t = .announced) : use u ≠ .writing := by
  intro hw
  have hwriter := (h.writing_iff u).mpr hw
  have hpending := (h.announced_iff t).mpr announced
  rw [(h.excludes (by rw [hwriter]; simp)).2] at hpending
  cases hpending

/-- While a writer is inside, there are no readers. -/
theorem no_readers (h : l.Used use) (writes : use t = .writing) : l.readers = [] := by
  have hwriter := (h.writing_iff t).mpr writes
  exact (h.excludes (by rw [hwriter]; simp)).1

/-- The mutex of a key has one holder. -/
theorem sole (h : l.Used use) (ht : use t = .holding k) (hu : use u = .holding k) : t = u := by
  have hholder := (h.holding_iff k t).mpr ht
  rw [(h.holding_iff k u).mpr hu] at hholder
  cases hholder
  rfl

/-- What a use is after one thread has changed its own. -/
theorem update_iff [DecidableEq τ] {a b : LockUse κ} {P Q : τ → Prop} (was : ∀ v, P v ↔ use v = b)
    (self : Q t ↔ a = b) (others : ∀ v, v ≠ t → (Q v ↔ P v)) (v : τ) :
    Q v ↔ Function.update use t a v = b := by
  by_cases hv : v = t
  · subst hv
    rw [Function.update_self]
    exact self
  · rw [Function.update_of_ne hv, others v hv]
    exact was v

variable [DecidableEq τ] [DecidableEq κ]

/-- **An operation within the discipline keeps the books.** -/
theorem apply {op : LockOp κ} {a : LockUse κ} (h : l.Used use) (moves : op.Moves (use t) a)
    (applied : l.apply t op = some l') : l'.Used (Function.update use t a) := by
  generalize hb : use t = b at moves
  cases moves with
  | none =>
    cases applied
    rw [← hb, Function.update_eq_self]
    exact h
  | announce =>
    simp only [Locks.apply, Option.ite_none_right_eq_some, Option.some.injEq] at applied
    obtain ⟨⟨hwriter, hpending⟩, rfl⟩ := applied
    refine ⟨update_iff h.writing_iff ?_ fun _ _ => .rfl, update_iff h.announced_iff ?_ ?_,
      update_iff h.reading_iff ?_ fun _ _ => .rfl,
      fun k => update_iff (h.holding_iff k) ?_ fun _ _ => .rfl, h.distinct, ?_⟩
    · simp [hwriter]
    · simp
    · intro v hv
      simp [hpending, hv.symm]
    · simp [h.reading_iff, hb]
    · simp [h.holding_iff, hb]
    · exact fun hw => absurd hwriter hw
  | lock =>
    simp only [Locks.apply, Option.ite_none_right_eq_some, Option.some.injEq] at applied
    obtain ⟨hreaders, rfl⟩ := applied
    have hpending : l.pending = some t := (h.announced_iff t).mpr hb
    have hwriter : l.writer = none := by
      by_contra hw
      rw [(h.excludes hw).2] at hpending
      cases hpending
    refine ⟨update_iff h.writing_iff ?_ ?_, update_iff h.announced_iff ?_ ?_,
      update_iff h.reading_iff ?_ fun _ _ => .rfl,
      fun k => update_iff (h.holding_iff k) ?_ fun _ _ => .rfl, h.distinct, ?_⟩
    · simp
    · intro v hv
      simp [hwriter, hv.symm]
    · simp
    · intro v hv
      simp [hpending, hv.symm]
    · simp [h.reading_iff, hb]
    · simp [h.holding_iff, hb]
    · exact fun _ => ⟨hreaders, rfl⟩
  | unlock =>
    cases applied
    have hwriter : l.writer = some t := (h.writing_iff t).mpr hb
    refine ⟨update_iff h.writing_iff ?_ ?_, update_iff h.announced_iff ?_ fun _ _ => .rfl,
      update_iff h.reading_iff ?_ fun _ _ => .rfl,
      fun k => update_iff (h.holding_iff k) ?_ fun _ _ => .rfl, h.distinct, ?_⟩
    · simp
    · intro v hv
      simp [hwriter, hv.symm]
    · simp [h.announced_iff, hb]
    · simp [h.reading_iff, hb]
    · simp [h.holding_iff, hb]
    · exact fun hw => absurd rfl hw
  | rlock =>
    simp only [Locks.apply, Option.ite_none_right_eq_some, Option.some.injEq] at applied
    obtain ⟨⟨hwriter, hpending⟩, rfl⟩ := applied
    have hout : t ∉ l.readers := by simp [h.reading_iff, hb]
    refine ⟨update_iff h.writing_iff ?_ fun _ _ => .rfl,
      update_iff h.announced_iff ?_ fun _ _ => .rfl, update_iff h.reading_iff ?_ ?_,
      fun k => update_iff (h.holding_iff k) ?_ fun _ _ => .rfl,
      List.nodup_cons.mpr ⟨hout, h.distinct⟩, ?_⟩
    · simp [hwriter]
    · simp [hpending]
    · simp
    · intro v hv
      simp [hv]
    · simp [h.holding_iff, hb]
    · exact fun hw => absurd hwriter hw
  | runlock =>
    cases applied
    refine ⟨update_iff h.writing_iff ?_ fun _ _ => .rfl,
      update_iff h.announced_iff ?_ fun _ _ => .rfl, update_iff h.reading_iff ?_ ?_,
      fun k => update_iff (h.holding_iff k) ?_ fun _ _ => .rfl, h.distinct.erase t, ?_⟩
    · simp [h.writing_iff, hb]
    · simp [h.announced_iff, hb]
    · simp [h.distinct.mem_erase_iff]
    · intro v hv
      simp [h.distinct.mem_erase_iff, hv]
    · simp [h.holding_iff, hb]
    · intro hw
      obtain ⟨hreaders, hpending⟩ := h.excludes hw
      exact ⟨by simp [hreaders], hpending⟩
  | @hold k =>
    simp only [Locks.apply, Option.ite_none_right_eq_some, Option.some.injEq] at applied
    obtain ⟨hholder, rfl⟩ := applied
    refine ⟨update_iff h.writing_iff ?_ fun _ _ => .rfl,
      update_iff h.announced_iff ?_ fun _ _ => .rfl,
      update_iff h.reading_iff ?_ fun _ _ => .rfl,
      fun k' => update_iff (h.holding_iff k') ?_ ?_, h.distinct, h.excludes⟩
    · simp [h.writing_iff, hb]
    · simp [h.announced_iff, hb]
    · simp [h.reading_iff, hb]
    · by_cases hk : k' = k
      · subst hk
        simp
      · simp [Function.update_of_ne hk, h.holding_iff, hb, Ne.symm hk]
    · intro v hv
      by_cases hk : k' = k
      · subst hk
        simp [hholder, hv.symm]
      · simp [Function.update_of_ne hk]
  | @release k =>
    cases applied
    have hholder : l.holder k = some t := (h.holding_iff k t).mpr hb
    refine ⟨update_iff h.writing_iff ?_ fun _ _ => .rfl,
      update_iff h.announced_iff ?_ fun _ _ => .rfl,
      update_iff h.reading_iff ?_ fun _ _ => .rfl,
      fun k' => update_iff (h.holding_iff k') ?_ ?_, h.distinct, h.excludes⟩
    · simp [h.writing_iff, hb]
    · simp [h.announced_iff, hb]
    · simp [h.reading_iff, hb]
    · by_cases hk : k' = k
      · subst hk
        simp
      · simp [Function.update_of_ne hk, h.holding_iff, hb, Ne.symm hk]
    · intro v hv
      by_cases hk : k' = k
      · subst hk
        simp [hholder, hv.symm]
      · simp [Function.update_of_ne hk]

/-- An operation is refused only while another thread makes a use that keeps it out. -/
theorem blocked {op : LockOp κ} (h : l.Used use) (refused : l.apply t op = none) :
    ∃ u, op.BlockedBy (use u) := by
  have hmu : ¬(l.writer = none ∧ l.pending = none) →
      ∃ u, use u = .writing ∨ use u = .announced := by
    intro htaken
    cases hw : l.writer with
    | some u => exact ⟨u, .inl ((h.writing_iff u).mp hw)⟩
    | none =>
      cases hp : l.pending with
      | some u => exact ⟨u, .inr ((h.announced_iff u).mp hp)⟩
      | none => exact absurd ⟨hw, hp⟩ htaken
  cases op with
  | none | unlock | runlock | release k => cases refused
  | announce =>
    simp only [Locks.apply, ite_eq_right_iff, reduceCtorEq, imp_false] at refused
    exact hmu refused
  | rlock =>
    simp only [Locks.apply, ite_eq_right_iff, reduceCtorEq, imp_false] at refused
    exact hmu refused
  | lock =>
    simp only [Locks.apply, ite_eq_right_iff, reduceCtorEq, imp_false] at refused
    obtain ⟨u, hu⟩ := List.exists_mem_of_ne_nil _ refused
    exact ⟨u, (h.reading_iff u).mp hu⟩
  | hold k =>
    simp only [Locks.apply, ite_eq_right_iff, reduceCtorEq, imp_false] at refused
    obtain ⟨u, hu⟩ := Option.ne_none_iff_exists'.mp refused
    exact ⟨u, (h.holding_iff k u).mp hu⟩

end Used

/-- Only a reader that comes or goes changes the readers. -/
theorem readers_apply [DecidableEq τ] [DecidableEq κ] {l l' : Locks τ κ} {t : τ} {op : LockOp κ}
    (applied : l.apply t op = some l') (other : op.byReader = false) :
    l'.readers = l.readers := by
  cases op with
  | rlock | runlock => cases other
  | none | unlock | release k => cases applied; rfl
  | announce | lock | hold k =>
    simp only [apply, Option.ite_none_right_eq_some, Option.some.injEq] at applied
    obtain ⟨_, rfl⟩ := applied
    rfl

/-- Inside a lock, an operation within the discipline is never refused. -/
theorem apply_of_inside [DecidableEq τ] [DecidableEq κ] (l : Locks τ κ) (t : τ) {op : LockOp κ}
    {a b : LockUse κ} (moves : op.Moves a b) (inside : a.inside = true) :
    ∃ l', l.apply t op = some l' := by
  cases moves with
  | none | unlock | runlock | release => exact ⟨_, rfl⟩
  | announce | lock | rlock | hold => cases inside

/-! ### Threads that wait -/

section Waiting

variable [DecidableEq τ] [DecidableEq κ] {l : Locks τ κ} {use : τ → LockUse κ}
  {asks : τ → LockOp κ → Prop} {enabled : τ → Prop} {t : τ}

/-- A thread inside a lock can move, where every thread that uses a lock has a next step, every step
is within the discipline, and a thread moves when it is granted what it asks for. -/
theorem enabled_of_inside (busy : ∀ t, use t ≠ .free → ∃ op, asks t op)
    (moves : ∀ t op, asks t op → ∃ b, op.Moves (use t) b)
    (granted : ∀ t op l', asks t op → l.apply t op = some l' → enabled t)
    (inside : (use t).inside = true) : enabled t := by
  have huses : use t ≠ .free := by
    intro hfree
    rw [hfree] at inside
    cases inside
  obtain ⟨op, hasks⟩ := busy t huses
  obtain ⟨b, hmoves⟩ := moves t op hasks
  obtain ⟨l', hgranted⟩ := l.apply_of_inside t hmoves inside
  exact granted t op l' hasks hgranted

/-- A writer that has announced itself can move, or a reader it waits for can. -/
theorem Used.enabled_of_announced (h : l.Used use) (busy : ∀ t, use t ≠ .free → ∃ op, asks t op)
    (moves : ∀ t op, asks t op → ∃ b, op.Moves (use t) b)
    (granted : ∀ t op l', asks t op → l.apply t op = some l' → enabled t)
    (announced : use t = .announced) :
    enabled t ∨ ∃ u, use u = .reading ∧ enabled u := by
  obtain ⟨op, hasks⟩ := busy t (by rw [announced]; simp)
  obtain ⟨b, hmoves⟩ := moves t op hasks
  cases hgranted : l.apply t op with
  | some l' => exact .inl (granted t op l' hasks hgranted)
  | none =>
    obtain ⟨u, hu⟩ := h.blocked hgranted
    rw [announced] at hmoves
    cases hmoves with
    | none => cases hgranted
    | lock =>
      have hreads : use u = .reading := hu
      exact .inr ⟨u, hreads, enabled_of_inside busy moves granted (by rw [hreads]; rfl)⟩

/-- **Nobody waits for nothing**: a thread that has a next step can take it, or another thread can
move that is in its way, inside a lock or announced as a writer. -/
theorem Used.enabled_or_waits (h : l.Used use) (busy : ∀ t, use t ≠ .free → ∃ op, asks t op)
    (moves : ∀ t op, asks t op → ∃ b, op.Moves (use t) b)
    (granted : ∀ t op l', asks t op → l.apply t op = some l' → enabled t) {op : LockOp κ}
    (hasks : asks t op) :
    enabled t ∨ ∃ u, u ≠ t ∧ enabled u ∧ ((use u).inside = true ∨ use u = .announced) := by
  obtain ⟨b, hmoves⟩ := moves t op hasks
  cases hgranted : l.apply t op with
  | some l' => exact .inl (granted t op l' hasks hgranted)
  | none =>
    right
    obtain ⟨u, hu⟩ := h.blocked hgranted
    -- whoever is in the way of `t` makes a use that `t` does not make
    have hinside : ∀ v, use v ≠ use t → (use v).inside = true →
        ∃ u, u ≠ t ∧ enabled u ∧ ((use u).inside = true ∨ use u = .announced) := by
      intro v hne hin
      exact ⟨v, fun heq => hne (by rw [heq]), enabled_of_inside busy moves granted hin, .inl hin⟩
    have hmu : use t = .free → use u = .writing ∨ use u = .announced →
        ∃ u, u ≠ t ∧ enabled u ∧ ((use u).inside = true ∨ use u = .announced) := by
      rintro hfree (hw | ha)
      · exact hinside u (by rw [hw, hfree]; simp) (by rw [hw]; rfl)
      · rcases h.enabled_of_announced busy moves granted ha with hon | ⟨v, hv, _⟩
        · refine ⟨u, ?_, hon, .inr ha⟩
          rintro rfl
          rw [ha] at hfree
          cases hfree
        · exact hinside v (by rw [hv, hfree]; simp) (by rw [hv]; rfl)
    generalize huse : use t = a at hmoves
    cases hmoves with
    | none | unlock | runlock | release => cases hgranted
    | announce | rlock => exact hmu huse hu
    | lock =>
      have hreads : use u = .reading := hu
      exact hinside u (by rw [hreads, huse]; simp) (by rw [hreads]; rfl)
    | hold =>
      have hholds : use u = .holding _ := hu
      exact hinside u (by rw [hholds, huse]; simp) (by rw [hholds]; rfl)

end Waiting

/-! ### A thread that is alone -/

/-- The locks while `t` alone uses them. -/
def solo [DecidableEq κ] (t : τ) : LockUse κ → Locks τ κ
  | .free => new
  | .announced => ⟨none, some t, [], fun _ => none⟩
  | .writing => ⟨some t, none, [], fun _ => none⟩
  | .reading => ⟨none, none, [t], fun _ => none⟩
  | .holding k => ⟨none, none, [], Function.update (fun _ => none) k (some t)⟩

/-- A thread that is alone never waits. -/
theorem apply_solo [DecidableEq τ] [DecidableEq κ] (t : τ) {op : LockOp κ} {a b : LockUse κ}
    (moves : op.Moves a b) : (solo t a).apply t op = some (solo t b) := by
  cases moves with
  | runlock | release => simp [Locks.apply, solo, new]
  | _ => rfl

end Locks

end Lib
