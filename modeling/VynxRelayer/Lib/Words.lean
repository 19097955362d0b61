import Mathlib.Data.Nat.Digits.Lemmas
import VynxRelayer.Lib.BigEndian

/-!
# Numbers and words in a byte string

The shortest big-endian form of a number, zeros in front of it, and byte strings made of words of a
fixed width behind a header. A number that fits a word is that word's number when padded
(`leftPad_shortest`), and each word of such a string is found at its place (`wordAt_append`).
-/

namespace Lib

theorem valueOf_eq_ofDigits (l : List UInt8) :
    valueOf l = Nat.ofDigits 256 (l.reverse.map UInt8.toNat) := by
  induction l using List.reverseRecOn with
  | nil => rfl
  | append_singleton l b ih =>
    rw [valueOf_append, ih, List.reverse_append, List.reverse_singleton, List.singleton_append,
      List.map_cons, Nat.ofDigits_cons]
    omega

/-- A number in as few bytes as it takes, most significant first. -/
def shortest (n : Nat) : List UInt8 := (Nat.digits 256 n).reverse.map UInt8.ofNat

theorem valueOf_shortest (n : Nat) : valueOf (shortest n) = n := by
  rw [valueOf_eq_ofDigits, shortest, ← List.map_reverse, List.reverse_reverse, List.map_map]
  conv_rhs => rw [← Nat.ofDigits_digits 256 n]
  refine congrArg _ ((List.map_congr_left fun d hd => ?_).trans (List.map_id _))
  have hd : d < 256 := Nat.digits_lt_base (by decide) hd
  rw [Function.comp_apply, UInt8.toNat_ofNat', id_eq]
  exact Nat.mod_eq_of_lt hd

theorem length_shortest_le_iff {w n : Nat} : (shortest n).length ≤ w ↔ n < 256 ^ w := by
  rw [shortest, List.length_map, List.length_reverse]
  exact Nat.digits_length_le_iff (by decide) n

/-- Zeros in front, up to a width; what is longer is left as it is. -/
def leftPad (w : Nat) (l : List UInt8) : List UInt8 := List.replicate (w - l.length) 0 ++ l

theorem le_length_leftPad (w : Nat) (l : List UInt8) : w ≤ (leftPad w l).length := by
  rw [leftPad, List.length_append, List.length_replicate]
  omega

theorem length_leftPad {w : Nat} {l : List UInt8} (h : l.length ≤ w) : (leftPad w l).length = w := by
  rw [leftPad, List.length_append, List.length_replicate]
  omega

theorem valueOf_leftPad (w : Nat) (l : List UInt8) : valueOf (leftPad w l) = valueOf l := by
  have hzeros : ∀ k, valueOf (List.replicate k 0 ++ l) = valueOf l := by
    intro k
    induction k with
    | zero => rfl
    | succ k ih => exact ih
  exact hzeros _

/-- A number that fits, in its shortest form with zeros in front, is its word. -/
theorem leftPad_shortest {w n : Nat} (fits : n < 256 ^ w) :
    leftPad w (shortest n) = bigEndian w n := by
  have hword := bigEndian_valueOf (leftPad w (shortest n))
  rw [length_leftPad (length_shortest_le_iff.mpr fits), valueOf_leftPad, valueOf_shortest] at hword
  exact hword.symm

/-- Word `i` behind a header. -/
def wordAt (header width : Nat) (data : List UInt8) (i : Nat) : List UInt8 :=
  (data.drop (header + width * i)).take width

theorem length_flatten_words {width : Nat} {words : List (List UInt8)}
    (h : ∀ x ∈ words, x.length = width) : words.flatten.length = width * words.length := by
  induction words with
  | nil => rfl
  | cons x rest ih =>
    obtain ⟨hx, hrest⟩ := List.forall_mem_cons.mp h
    rw [List.flatten_cons, List.length_append, hx, ih hrest, List.length_cons, Nat.mul_succ,
      Nat.add_comm]

/-- The words of a string are found where they stand; of one that is too long, its front. -/
theorem wordAt_append {header width : Nat} {front w rest : List UInt8} {words : List (List UInt8)}
    (hfront : front.length = header) (hwords : ∀ x ∈ words, x.length = width)
    (hw : width ≤ w.length) :
    wordAt header width (front ++ (words.flatten ++ (w ++ rest))) words.length = w.take width := by
  have hbefore : (front ++ words.flatten).length = header + width * words.length := by
    rw [List.length_append, hfront, length_flatten_words hwords]
  rw [wordAt, ← List.append_assoc, List.drop_left' hbefore, List.take_append_of_le_length hw]

end Lib
