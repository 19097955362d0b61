import Mathlib.Data.Nat.Size
import Mathlib.Tactic.Ring

/-!
# Floating point with a fixed number of significant bits

Rounding a natural number to `p` significant bits, to the nearest and with ties to even (`roundTo`).
The multiples of the unit in the last place (`ulp`) are kept on their side of it
(`le_roundTo`, `roundTo_le`), the error is at most half a unit (`roundTo_near`), and rounding keeps
the order (`roundTo_mono`).

A nonnegative number of a binary format is a `Scaled`, a natural number over a power of two;
rounding does not depend on the power, as long as no exponent leaves its range.
-/

namespace Lib

/-- The unit in the last of `p` significant bits of `n`. -/
def ulp (p n : Nat) : Nat := 2 ^ (n.size - p)

/-- `n` to `p` significant bits: the nearest, and of two the even one. -/
def roundTo (p n : Nat) : Nat :=
  let q := n / ulp p n
  let r := n % ulp p n
  if 2 * r < ulp p n ∨ 2 * r = ulp p n ∧ q % 2 = 0 then q * ulp p n else (q + 1) * ulp p n

variable {p n m k : Nat}

theorem ulp_pos (p n : Nat) : 0 < ulp p n := Nat.two_pow_pos _

theorem ulp_of_lt (small : n < 2 ^ p) : ulp p n = 1 := by
  have hsize : n.size ≤ p := Nat.size_le.mpr small
  rw [ulp, Nat.sub_eq_zero_of_le hsize, Nat.pow_zero]

/-- A number is at least as large as its unit says. -/
theorem ulp_mul_le (large : 2 ^ p ≤ n) : ulp (p + 1) n * 2 ^ p ≤ n := by
  have hsize : p < n.size := Nat.lt_size.mpr large
  rw [ulp, ← Nat.pow_add, show n.size - (p + 1) + p = n.size - 1 by omega]
  exact Nat.lt_size.mp (by omega)

theorem ulp_dvd_of_lt {e : Nat} (small : n < 2 ^ (p + e)) : ulp p n ∣ 2 ^ e := by
  have hsize : n.size ≤ p + e := Nat.size_le.mpr small
  exact Nat.pow_dvd_pow 2 (by omega)

theorem ulp_le_of_lt {e : Nat} (small : n < 2 ^ (p + e)) : ulp p n ≤ 2 ^ e :=
  Nat.le_of_dvd (Nat.two_pow_pos e) (ulp_dvd_of_lt small)

/-- The rounded number is one of the two multiples of the unit around it. -/
theorem roundTo_cases (p n : Nat) :
    roundTo p n = n / ulp p n * ulp p n ∧ 2 * (n % ulp p n) ≤ ulp p n ∨
      roundTo p n = (n / ulp p n + 1) * ulp p n ∧ ulp p n ≤ 2 * (n % ulp p n) := by
  unfold roundTo
  dsimp only
  split
  · rename_i h
    exact .inl ⟨rfl, by omega⟩
  · rename_i h
    exact .inr ⟨rfl, by omega⟩

/-- **The error is at most half a unit.** -/
theorem roundTo_near (p n : Nat) :
    2 * roundTo p n ≤ 2 * n + ulp p n ∧ 2 * n ≤ 2 * roundTo p n + ulp p n := by
  have hn := Nat.div_add_mod' n (ulp p n)
  rcases roundTo_cases p n with ⟨h, hr⟩ | ⟨h, hr⟩
  · rw [h]
    omega
  · have hnext : (n / ulp p n + 1) * ulp p n = n / ulp p n * ulp p n + ulp p n := Nat.succ_mul _ _
    have hlt := Nat.mod_lt n (ulp_pos p n)
    rw [h, hnext]
    omega

/-- What `p` bits hold is not rounded. -/
theorem roundTo_of_lt (small : n < 2 ^ p) : roundTo p n = n := by
  have hnear := roundTo_near p n
  rw [ulp_of_lt small] at hnear
  omega

/-- Rounding does not go below a multiple of the unit. -/
theorem le_roundTo (multiple : ulp p n ∣ k) (below : k ≤ n) : k ≤ roundTo p n := by
  obtain ⟨c, rfl⟩ := multiple
  have hc : c ≤ n / ulp p n := (Nat.le_div_iff_mul_le (ulp_pos p n)).mpr (by rwa [Nat.mul_comm])
  rw [Nat.mul_comm]
  rcases roundTo_cases p n with ⟨h, -⟩ | ⟨h, -⟩ <;> rw [h]
  · exact Nat.mul_le_mul_right _ hc
  · exact Nat.mul_le_mul_right _ (by omega)

/-- Rounding does not go above a multiple of the unit. -/
theorem roundTo_le (multiple : ulp p n ∣ k) (above : n ≤ k) : roundTo p n ≤ k := by
  obtain ⟨c, rfl⟩ := multiple
  have hpos := ulp_pos p n
  have hn := Nat.div_add_mod' n (ulp p n)
  rw [Nat.mul_comm] at above ⊢
  rcases roundTo_cases p n with ⟨h, -⟩ | ⟨h, hr⟩ <;> rw [h]
  · exact le_trans (by omega) above
  · refine Nat.mul_le_mul_right _ ?_
    by_contra hlt
    have hc : c ≤ n / ulp p n := by omega
    have hle := Nat.mul_le_mul_right (ulp p n) hc
    omega

/-- With one unit for both, the quotients and then the remainders decide. -/
theorem roundTo_le_of_ulp_eq (le : n ≤ m) (same : ulp p n = ulp p m) :
    roundTo p n ≤ roundTo p m := by
  unfold roundTo
  rw [same]
  generalize hu : ulp p m = u
  have hpos : 0 < u := hu ▸ ulp_pos p m
  dsimp only
  rcases Nat.lt_or_ge (n / u) (m / u) with hq | hq
  · have hnext : (n / u + 1) * u ≤ m / u * u := Nat.mul_le_mul_right u hq
    have hown : n / u * u ≤ (n / u + 1) * u := Nat.mul_le_mul_right u (by omega)
    have hown' : m / u * u ≤ (m / u + 1) * u := Nat.mul_le_mul_right u (by omega)
    split <;> split <;> omega
  · have heq : n / u = m / u := Nat.le_antisymm (Nat.div_le_div_right le) hq
    have hn := Nat.div_add_mod' n u
    have hm := Nat.div_add_mod' m u
    rw [heq] at hn ⊢
    have hown : m / u * u ≤ (m / u + 1) * u := Nat.mul_le_mul_right u (by omega)
    split <;> split <;> omega

/-- **Rounding keeps the order.** -/
theorem roundTo_mono (positive : 0 < p) (le : n ≤ m) : roundTo p n ≤ roundTo p m := by
  by_cases hsize : n.size < m.size
  · -- a power of two lies between the numbers, and is a multiple of both units
    have hn : n ≤ 2 ^ (m.size - 1) :=
      (Nat.size_le.mp (show n.size ≤ m.size - 1 by omega)).le
    have hm : 2 ^ (m.size - 1) ≤ m := Nat.lt_size.mp (by omega)
    have hup : ulp p n ∣ 2 ^ (m.size - 1) := Nat.pow_dvd_pow 2 (by omega)
    have hdown : ulp p m ∣ 2 ^ (m.size - 1) := Nat.pow_dvd_pow 2 (by omega)
    exact (roundTo_le hup hn).trans (le_roundTo hdown hm)
  · have hsame : n.size = m.size := Nat.le_antisymm (Nat.size_le_size le) (by omega)
    exact roundTo_le_of_ulp_eq le (by rw [ulp, ulp, hsame])

/-! ## Numbers of a binary format -/

/-- `num / 2 ^ scale`. -/
structure Scaled where
  num : Nat
  scale : Nat
  deriving DecidableEq

namespace Scaled

/-- Rounded to `p` significant bits. -/
def round (p : Nat) (a : Scaled) : Scaled := ⟨roundTo p a.num, a.scale⟩

/-- The product, rounded to `p` significant bits. -/
def mul (p : Nat) (a b : Scaled) : Scaled := round p ⟨a.num * b.num, a.scale + b.scale⟩

/-- Truncated to a natural number. -/
def floor (a : Scaled) : Nat := a.num / 2 ^ a.scale

end Scaled

end Lib
