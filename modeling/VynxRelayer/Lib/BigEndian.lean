import Mathlib.Algebra.Group.Nat.Defs
import Mathlib.Data.List.Induction

/-!
# Big-endian words

A number written in a fixed count of bytes, most significant first. The bytes of a number that fits
determine it (`bigEndian_inj`), and every list of bytes is that of the number it denotes
(`bigEndian_valueOf`).
-/

namespace Lib

/-- The last `w` bytes of a number, most significant first. -/
def bigEndian : Nat → Nat → List UInt8
  | 0, _ => []
  | w + 1, n => bigEndian w (n / 256) ++ [UInt8.ofNat n]

/-- The number that bytes denote. -/
def valueOf (l : List UInt8) : Nat := l.foldl (fun n b => n * 256 + b.toNat) 0

@[simp]
theorem length_bigEndian (w n : Nat) : (bigEndian w n).length = w := by
  induction w generalizing n with
  | zero => rfl
  | succ w ih => rw [bigEndian, List.length_append, ih, List.length_singleton]

theorem valueOf_append (l : List UInt8) (b : UInt8) : valueOf (l ++ [b]) = valueOf l * 256 + b.toNat := by
  unfold valueOf
  rw [List.foldl_append]
  rfl

/-- What fits is read back. -/
theorem valueOf_bigEndian {w n : Nat} (fits : n < 256 ^ w) : valueOf (bigEndian w n) = n := by
  induction w generalizing n with
  | zero =>
    rw [Nat.pow_zero] at fits
    rw [Nat.lt_one_iff.mp fits]
    rfl
  | succ w ih =>
    have hfits : n / 256 < 256 ^ w := by
      rw [Nat.pow_succ] at fits
      exact Nat.div_lt_of_lt_mul (by rwa [Nat.mul_comm])
    rw [bigEndian, valueOf_append, ih hfits, UInt8.toNat_ofNat']
    omega

theorem bigEndian_inj {w n m : Nat} (hn : n < 256 ^ w) (hm : m < 256 ^ w)
    (same : bigEndian w n = bigEndian w m) : n = m := by
  rw [← valueOf_bigEndian hn, same, valueOf_bigEndian hm]

theorem valueOf_lt (l : List UInt8) : valueOf l < 256 ^ l.length := by
  induction l using List.reverseRecOn with
  | nil => exact Nat.one_pos
  | append_singleton l b ih =>
    have hb := b.toNat_lt
    rw [valueOf_append, List.length_append, List.length_singleton, Nat.pow_succ]
    omega

/-- Bytes are the word of the number they denote. -/
theorem bigEndian_valueOf (l : List UInt8) : bigEndian l.length (valueOf l) = l := by
  induction l using List.reverseRecOn with
  | nil => rfl
  | append_singleton l b ih =>
    have hb := b.toNat_lt
    have hdiv : (valueOf l * 256 + b.toNat) / 256 = valueOf l := by omega
    have hlast : UInt8.ofNat (valueOf l * 256 + b.toNat) = b := by
      refine UInt8.toNat_inj.mp ?_
      rw [UInt8.toNat_ofNat']
      omega
    rw [List.length_append, List.length_singleton, bigEndian, valueOf_append, hdiv, hlast, ih]

end Lib
