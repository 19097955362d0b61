import Mathlib.Data.List.Basic

/-!
# Counting

Two rules for accounts that are kept by counting: a count over events of two kinds is the sum of the
counts of each kind, and counts that sum to one are all zero but for a single one.
-/

namespace Lib

variable {ε α κ : Type}

/-- Where every value that `f` sees is seen by one of `g` and `h`, and by no two of them, the counts
add up. -/
theorem countP_filterMap_add {f g h : ε → Option α}
    (split : ∀ e, f e = g e ∧ h e = none ∨ f e = h e ∧ g e = none) (P : α → Bool) (tr : List ε) :
    (tr.filterMap f).countP P = (tr.filterMap g).countP P + (tr.filterMap h).countP P := by
  induction tr with
  | nil => rfl
  | cons e tr ih =>
    rcases split e with ⟨hf, hnone⟩ | ⟨hf, hnone⟩ <;>
      simp only [List.filterMap_cons, hf, hnone]
    · cases g e with
      | none => exact ih
      | some x => simp only [List.countP_cons]; omega
    · cases h e with
      | none => exact ih
      | some x => simp only [List.countP_cons]; omega

/-- The counts of all keys together. -/
def sumOver (f : κ → Nat) : List κ → Nat
  | [] => 0
  | k :: keys => f k + sumOver f keys

theorem eq_zero_of_sumOver_eq_zero {f : κ → Nat} {keys : List κ} (none : sumOver f keys = 0) :
    ∀ k ∈ keys, f k = 0 := by
  induction keys with
  | nil => intro k hk; cases hk
  | cons k keys ih =>
    rw [sumOver] at none
    intro k' hk'
    rcases List.mem_cons.mp hk' with rfl | hk'
    · omega
    · exact ih (by omega) k' hk'

/-- **Counted once**: counts over different keys that sum to one are one for a single key, and zero
for all others. -/
theorem exists_of_sumOver_eq_one [DecidableEq κ] {f : κ → Nat} {keys : List κ}
    (distinct : keys.Nodup) (once : sumOver f keys = 1) :
    ∃ k ∈ keys, ∀ k' ∈ keys, f k' = if k' = k then 1 else 0 := by
  induction keys with
  | nil => cases once
  | cons k keys ih =>
    rw [sumOver] at once
    obtain ⟨hnew, hdistinct⟩ := List.nodup_cons.mp distinct
    by_cases hk : f k = 0
    · -- the head counts nothing, so the one is further on
      obtain ⟨k₁, hk₁, hcounts⟩ := ih hdistinct (by omega)
      refine ⟨k₁, List.mem_cons_of_mem _ hk₁, ?_⟩
      intro k' hk'
      rcases List.mem_cons.mp hk' with rfl | hk'
      · have hne : k' ≠ k₁ := by
          rintro rfl
          exact hnew hk₁
        rw [hk, if_neg hne]
      · exact hcounts k' hk'
    · -- the head is the one, and the rest counts nothing
      have hrest : ∀ k ∈ keys, f k = 0 := eq_zero_of_sumOver_eq_zero (by omega)
      refine ⟨k, List.mem_cons_self, ?_⟩
      intro k' hk'
      rcases List.mem_cons.mp hk' with rfl | hlate
      · rw [if_pos rfl]
        omega
      · have hne : k' ≠ k := by
          rintro rfl
          exact hnew hlate
        rw [hrest k' hlate, if_neg hne]

end Lib
