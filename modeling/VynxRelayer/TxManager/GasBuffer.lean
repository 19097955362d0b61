import VynxRelayer.Core
import VynxRelayer.Lib.Rounding

/-!
# The gas buffer

`EstimateGasWithBuffer` (`internal/txmanager/opstack_client.go`) multiplies the node's estimate by
1.10 in `float64` and truncates the product. There are two roundings in it, one when a `uint64`
becomes a `float64` and one in the product, and the factor itself is not 11/10 but the nearest
number of the format, a little above it.

None of that shows for any gas limit a chain has: up to 2⁴⁸ the result is ⌊11·raw/10⌋
(`gas_buffer_exact`). Beyond, it is off by parts in 2⁴⁸ at most, never below the estimate, and keeps
the order of the estimates, up to 2⁶³ (`gas_buffer_bounds`). A product of 2⁶⁴ or more does not fit a
`uint64`, and what Go makes of it depends on the machine.
-/

namespace VynxRelayer.TxManager

open Lib

/-- The significant bits of a `float64`. -/
def float64Bits : Nat := 53

/-- `float64(n)`. -/
def float64 (n : UInt64) : Scaled := .round float64Bits ⟨n.toNat, 0⟩

/-- `gasOverheadFactor`, the constant 1.10 as a `float64`. -/
def gasOverheadFactor : Scaled := ⟨4953959590107546, 52⟩

/-- No number of the format is closer to 11/10. -/
example : 2 ^ 52 ≤ gasOverheadFactor.num ∧ gasOverheadFactor.num < 2 ^ float64Bits ∧
    gasOverheadFactor.num * 10 = 11 * 2 ^ gasOverheadFactor.scale + 4 := by decide

/-- `uint64(f)`, where the truncated number fits. -/
def uint64OfFloat (f : Scaled) : Option UInt64 :=
  if f.floor < 2 ^ 64 then some (UInt64.ofNat f.floor) else none

/-- What `EstimateGasWithBuffer` makes of an estimate. -/
def withBuffer (raw : UInt64) : Option UInt64 :=
  uint64OfFloat ((float64 raw).mul float64Bits gasOverheadFactor)

/-- `EstimateGasWithBuffer`, with the node's answer. -/
def estimateGasWithBuffer (estimate : Except Bytes UInt64) : Except Bytes (Option UInt64) :=
  match estimate with
  | .error cause => .error (ascii "failed to estimate gas: " ++ cause)
  | .ok raw => .ok (withBuffer raw)

/-- The product of an estimate and the factor, in units of 2⁻⁵² and before it is rounded. -/
def rawProduct (raw : Nat) : Nat := roundTo 53 raw * 4953959590107546

/-- The result before it is put into 64 bits. -/
def buffered (raw : Nat) : Nat := roundTo 53 (rawProduct raw) / 2 ^ 52

theorem estimateGasWithBuffer_ok_iff {raw gas : UInt64} :
    estimateGasWithBuffer (.ok raw) = .ok (some gas) ↔ buffered raw.toNat = gas.toNat := by
  have hfloor : ((float64 raw).mul float64Bits gasOverheadFactor).floor = buffered raw.toNat := by
    simp only [Scaled.floor, Scaled.mul, Scaled.round, float64, float64Bits, gasOverheadFactor,
      Nat.zero_add, buffered, rawProduct]
  rw [estimateGasWithBuffer, Except.ok.injEq, withBuffer, uint64OfFloat, hfloor]
  constructor
  · intro h
    split at h
    · rename_i hlt
      cases h
      exact (UInt64.toNat_ofNat_of_lt' hlt).symm
    · cases h
  · intro h
    rw [h, if_pos gas.toNat_lt, UInt64.ofNat_toNat]

/-- A `float64` is off by a part in 2⁵³ at most. -/
theorem roundTo_53_near (n : Nat) :
    2 ^ 53 * roundTo 53 n ≤ 2 ^ 53 * n + n ∧ 2 ^ 53 * n ≤ 2 ^ 53 * roundTo 53 n + n := by
  rcases Nat.lt_or_ge n (2 ^ 53) with hsmall | hlarge
  · rw [roundTo_of_lt hsmall]
    omega
  · obtain ⟨hup, hdown⟩ := roundTo_near 53 n
    have hulp : ulp 53 n * 2 ^ 52 ≤ n := ulp_mul_le (by omega)
    omega

/-- Up to 2⁴⁸ the product is rounded to less than what the truncation forgets. -/
theorem buffered_eq {raw : Nat} (small : raw ≤ 2 ^ 48) : buffered raw = 11 * raw / 10 := by
  have hraw : roundTo 53 raw = raw := roundTo_of_lt (by omega)
  have hproduct : rawProduct raw < 2 ^ (53 + 48) := by
    rw [rawProduct, hraw]
    omega
  have hulp : ulp 53 (rawProduct raw) ≤ 2 ^ 48 := ulp_le_of_lt hproduct
  have hdvd : ulp 53 (rawProduct raw) ∣ 11 * raw / 10 * 2 ^ 52 :=
    (ulp_dvd_of_lt hproduct).trans ((Nat.pow_dvd_pow 2 (by decide)).trans (Nat.dvd_mul_left _ _))
  have hlow : 11 * raw / 10 * 2 ^ 52 ≤ roundTo 53 (rawProduct raw) := by
    refine le_roundTo hdvd ?_
    rw [rawProduct, hraw]
    omega
  have hhigh : roundTo 53 (rawProduct raw) < (11 * raw / 10 + 1) * 2 ^ 52 := by
    have hnear := (roundTo_near 53 (rawProduct raw)).1
    have hvalue : rawProduct raw = raw * 4953959590107546 := by rw [rawProduct, hraw]
    omega
  exact Nat.div_eq_of_lt_le hlow hhigh

/-- **The buffer is a tenth**, for every estimate up to 2⁴⁸. -/
theorem gas_buffer_exact {raw : UInt64} (small : raw.toNat ≤ 2 ^ 48) :
    ∃ gas, estimateGasWithBuffer (.ok raw) = .ok (some gas) ∧ gas.toNat = 11 * raw.toNat / 10 := by
  have hlt : 11 * raw.toNat / 10 < 2 ^ 64 := by omega
  refine ⟨UInt64.ofNat (11 * raw.toNat / 10), ?_, UInt64.toNat_ofNat_of_lt' hlt⟩
  rw [estimateGasWithBuffer_ok_iff, buffered_eq small, UInt64.toNat_ofNat_of_lt' hlt]

theorem gas_buffer_exact_transfer :
    ∃ gas, estimateGasWithBuffer (.ok 21000) = .ok (some gas) ∧ gas.toNat = 23100 := by
  have hsmall : (21000 : UInt64).toNat ≤ 2 ^ 48 := by decide
  obtain ⟨gas, hgas, hvalue⟩ := gas_buffer_exact hsmall
  exact ⟨gas, hgas, hvalue.trans (by decide)⟩

/-- Two roundings and the factor are off by less than a part in 2⁴⁸, and the truncation by less
than 1. -/
theorem buffered_near (raw : Nat) :
    2 ^ 48 * (10 * buffered raw) ≤ 2 ^ 48 * (11 * raw) + raw ∧
      2 ^ 48 * (11 * raw) ≤ 2 ^ 48 * (10 * buffered raw + 10) + raw := by
  obtain ⟨hraw, hraw'⟩ := roundTo_53_near raw
  obtain ⟨hproduct, hproduct'⟩ := roundTo_53_near (rawProduct raw)
  have hvalue : rawProduct raw = roundTo 53 raw * 4953959590107546 := rfl
  have hfloor := Nat.div_add_mod (roundTo 53 (rawProduct raw)) (2 ^ 52)
  have hrest := Nat.mod_lt (roundTo 53 (rawProduct raw)) (Nat.two_pow_pos 52)
  unfold buffered
  omega

theorem le_buffered (raw : Nat) : raw ≤ buffered raw := by
  rcases Nat.lt_or_ge (2 ^ 48) raw with hlarge | hsmall
  · have hnear := (buffered_near raw).2
    omega
  · rw [buffered_eq hsmall]
    omega

theorem buffered_mono {raw raw' : Nat} (le : raw ≤ raw') : buffered raw ≤ buffered raw' := by
  refine Nat.div_le_div_right (roundTo_mono (by decide) ?_)
  exact Nat.mul_le_mul_right _ (roundTo_mono (by decide) le)

/-- **The buffer for any estimate up to 2⁶³**: a result that fits, not below the estimate, a tenth
above it up to parts in 2⁴⁸, and in the order of the estimates. -/
theorem gas_buffer_bounds {raw : UInt64} (fits : raw.toNat ≤ 2 ^ 63) :
    ∃ gas, estimateGasWithBuffer (.ok raw) = .ok (some gas) ∧ raw.toNat ≤ gas.toNat ∧
      2 ^ 48 * (10 * gas.toNat) ≤ 2 ^ 48 * (11 * raw.toNat) + raw.toNat ∧
      2 ^ 48 * (11 * raw.toNat) ≤ 2 ^ 48 * (10 * gas.toNat + 10) + raw.toNat ∧
      ∀ raw' gas', raw ≤ raw' → estimateGasWithBuffer (.ok raw') = .ok (some gas') →
        gas ≤ gas' := by
  obtain ⟨hup, hdown⟩ := buffered_near raw.toNat
  have hlt : buffered raw.toNat < 2 ^ 64 := by omega
  have hvalue : (UInt64.ofNat (buffered raw.toNat)).toNat = buffered raw.toNat :=
    UInt64.toNat_ofNat_of_lt' hlt
  refine ⟨UInt64.ofNat (buffered raw.toNat), estimateGasWithBuffer_ok_iff.mpr hvalue.symm, ?_⟩
  rw [hvalue]
  refine ⟨le_buffered _, hup, hdown, ?_⟩
  intro raw' gas' hle hgas'
  rw [UInt64.le_iff_toNat_le, hvalue, ← estimateGasWithBuffer_ok_iff.mp hgas']
  exact buffered_mono (UInt64.le_iff_toNat_le.mp hle)

/-- The largest estimate of the statement. -/
theorem gas_buffer_bounds_largest :
    ∃ gas, estimateGasWithBuffer (.ok 9223372036854775808) = .ok (some gas) ∧
      9223372036854775808 ≤ gas.toNat := by
  have hfits : (9223372036854775808 : UInt64).toNat ≤ 2 ^ 63 := by decide
  obtain ⟨gas, hgas, hle, -⟩ := gas_buffer_bounds hfits
  exact ⟨gas, hgas, hle⟩

end VynxRelayer.TxManager
