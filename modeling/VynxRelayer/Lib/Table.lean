import Mathlib.Logic.Function.Basic

/-!
# Tables

A table of keyed records is a function to `Option`, written with `Function.update`. The lemmas read
one cell of an updated table back: it is the cell that was written, or it is as it was.

Where a table holds the records of several owners, `AgreeOn` compares one owner's part of two
tables.

Two functions with one domain, such as the threads of a system and those of another one that
simulates it, stay related where both are written with related values (`update_related`), or one of
them alone with a value that is related to what the other has (`update_related_left`).
-/

namespace Lib

variable {κ ν : Type} {table other : κ → Option ν} {own : ν → Bool} {key k : κ} {v w : ν}

/-- Two tables agree on one owner's records: those of the first table stand in the second one under
the same keys, and where the first table is empty, so is the second. -/
structure AgreeOn (own : ν → Bool) (table other : κ → Option ν) : Prop where
  same : ∀ k v, table k = some v → own v = true → other k = some v
  empty : ∀ k, table k = none → other k = none

/-- Empty tables agree. -/
theorem AgreeOn.nothing : AgreeOn own (fun _ : κ => none) fun _ => none := by
  constructor
  · intro k v h
    cases h
  · intro k _
    rfl

/-- What is the owner's in the first table is so in the second. -/
theorem AgreeOn.any (h : AgreeOn own table other) (owned : (table k).any own = true) :
    (other k).any own = true := by
  obtain ⟨v, hv, hown⟩ := Option.any_eq_true _ _ |>.mp owned
  exact Option.any_eq_true _ _ |>.mpr ⟨v, h.same k v hv hown, hown⟩

variable [DecidableEq κ]

/-- A record found after one was stored is that record, or it was there before. -/
theorem update_some_eq_some :
    Function.update table key (some v) k = some w ↔
      k = key ∧ v = w ∨ k ≠ key ∧ table k = some w := by
  by_cases h : k = key
  · subst h
    simp
  · simp [h]

/-- A record found after a deletion was there before, under another key. -/
theorem update_none_eq_some :
    Function.update table key none k = some w ↔ k ≠ key ∧ table k = some w := by
  by_cases h : k = key
  · subst h
    simp
  · simp [h]

/-- A cell that is free after a record was stored was free before, under another key. -/
theorem update_some_eq_none :
    Function.update table key (some v) k = none ↔ k ≠ key ∧ table k = none := by
  by_cases h : k = key
  · subst h
    simp
  · simp [h]

/-- A free cell stays free when a record that is there is overwritten. -/
theorem update_some_of_some (stored : table key = some w) (free : table k = none) :
    Function.update table key (some v) k = none := by
  refine update_some_eq_none.mpr ⟨?_, free⟩
  rintro rfl
  rw [free] at stored
  cases stored

namespace AgreeOn

/-- One record is stored in both tables. -/
theorem both (h : AgreeOn own table other) (key : κ) (v : ν) :
    AgreeOn own (Function.update table key (some v)) (Function.update other key (some v)) := by
  constructor
  · intro k w hk hown
    rcases update_some_eq_some.mp hk with ⟨rfl, rfl⟩ | ⟨hne, hk⟩
    · exact update_some_eq_some.mpr (.inl ⟨rfl, rfl⟩)
    · exact update_some_eq_some.mpr (.inr ⟨hne, h.same k w hk hown⟩)
  · intro k hk
    obtain ⟨hne, hk⟩ := update_some_eq_none.mp hk
    exact update_some_eq_none.mpr ⟨hne, h.empty k hk⟩

/-- Somebody else's record is stored in the first table. -/
theorem store (h : AgreeOn own table other) {key : κ} {v : ν} (foreign : own v = false) :
    AgreeOn own (Function.update table key (some v)) other := by
  constructor
  · intro k w hk hown
    rcases update_some_eq_some.mp hk with ⟨rfl, rfl⟩ | ⟨_, hk⟩
    · rw [foreign] at hown
      cases hown
    · exact h.same k w hk hown
  · intro k hk
    exact h.empty k (update_some_eq_none.mp hk).2

end AgreeOn

section Related

variable {ω : Type} {R : ν → ω → Prop} {f : κ → ν} {g : κ → ω} {x : ω}

theorem update_related_left (related : ∀ k, R (f k) (g k)) (written : R v (g key)) (k : κ) :
    R (Function.update f key v k) (g k) :=
  (Function.forall_update_iff f fun k v => R v (g k)).mpr ⟨written, fun k _ => related k⟩ k

theorem update_related (related : ∀ k, R (f k) (g k)) (written : R v x) (k : κ) :
    R (Function.update f key v k) (Function.update g key x k) := by
  by_cases h : k = key
  · subst h
    rw [Function.update_self, Function.update_self]
    exact written
  · rw [Function.update_of_ne h, Function.update_of_ne h]
    exact related k

omit [DecidableEq κ] in
/-- What is related to a known value. -/
theorem exists_related (related : ∀ k, R (f k) (g k)) (known : f k = v) :
    ∃ x, g k = x ∧ R v x :=
  ⟨_, rfl, known ▸ related k⟩

end Related

end Lib
