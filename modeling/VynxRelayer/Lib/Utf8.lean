import Mathlib.Data.List.Basic
import Mathlib.Tactic.SplitIfs

/-!
# UTF-8

A text is a list of bytes. `Rune` says which bytes encode one character, `runeWidth` is the length
of the rune at the front of a text, and `pieces` cuts a text into its runes and the single bytes
that start none.

`toValid` puts U+FFFD in the place of each of those bytes. What comes out is well formed, and a text
is left as it is exactly when it already was (`toValid_eq_self_iff`).
-/

namespace Lib.Json

/-- Bytes of a text. -/
abbrev Text := List UInt8

/-! ## Runes -/

/-- The least second byte behind a first one. -/
def secondLow (b : UInt8) : UInt8 := if b = 0xE0 then 0xA0 else if b = 0xF0 then 0x90 else 0x80

/-- The greatest second byte behind a first one. -/
def secondHigh (b : UInt8) : UInt8 := if b = 0xED then 0x9F else if b = 0xF4 then 0x8F else 0xBF

/-- A continuation byte. -/
def Continues (c : UInt8) : Prop := 0x80 ≤ c ∧ c ≤ 0xBF

instance (c : UInt8) : Decidable (Continues c) := inferInstanceAs (Decidable (_ ∧ _))

/-- The second byte fits the first. -/
def Second (b c : UInt8) : Prop := secondLow b ≤ c ∧ c ≤ secondHigh b

instance (b c : UInt8) : Decidable (Second b c) := inferInstanceAs (Decidable (_ ∧ _))

/-- The encoding of one character. -/
inductive Rune : Text → Prop
  | one {b} (ascii : b < 0x80) : Rune [b]
  | two {b c} (first : 0xC2 ≤ b ∧ b < 0xE0) (second : Continues c) : Rune [b, c]
  | three {b c d} (first : 0xE0 ≤ b ∧ b < 0xF0) (second : Second b c) (third : Continues d) :
      Rune [b, c, d]
  | four {b c d e} (first : 0xF0 ≤ b ∧ b < 0xF5) (second : Second b c) (third : Continues d)
      (fourth : Continues e) : Rune [b, c, d, e]

/-- A text of runes. -/
def Utf8 (s : Text) : Prop := ∃ runes : List Text, (∀ r ∈ runes, Rune r) ∧ s = runes.flatten

/-- The length of the rune at the front, and 0 where none stands there. -/
def runeWidth : Text → Nat
  | [] => 0
  | b :: rest =>
    if b < 0x80 then 1
    else if b < 0xC2 then 0
    else if b < 0xE0 then
      match rest with
      | c :: _ => if Continues c then 2 else 0
      | _ => 0
    else if b < 0xF0 then
      match rest with
      | c :: d :: _ => if Second b c ∧ Continues d then 3 else 0
      | _ => 0
    else if b < 0xF5 then
      match rest with
      | c :: d :: e :: _ => if Second b c ∧ Continues d ∧ Continues e then 4 else 0
      | _ => 0
    else 0

/-- A width is that of a rune at the front. -/
theorem exists_rune {s : Text} {w : Nat} (h : runeWidth s = w + 1) :
    ∃ r t, Rune r ∧ r.length = w + 1 ∧ s = r ++ t := by
  match s, h with
  | b :: rest, h =>
    rw [runeWidth.eq_def] at h
    dsimp only at h
    split_ifs at h with h₁ h₂ h₃ h₄ h₅
    · exact ⟨[b], rest, .one h₁, h, rfl⟩
    · split at h
      · rename_i c t
        split_ifs at h with hc
        exact ⟨[b, c], t, .two ⟨UInt8.not_lt.mp h₂, h₃⟩ hc, h, rfl⟩
      · cases h
    · split at h
      · rename_i c d t
        split_ifs at h with hc
        exact ⟨[b, c, d], t, .three ⟨UInt8.not_lt.mp h₃, h₄⟩ hc.1 hc.2, h, rfl⟩
      · cases h
    · split at h
      · rename_i c d e t
        split_ifs at h with hc
        exact ⟨[b, c, d, e], t, .four ⟨UInt8.not_lt.mp h₄, h₅⟩ hc.1 hc.2.1 hc.2.2, h, rfl⟩
      · cases h

theorem not_lt_of_le {b low bound : UInt8} (h : bound ≤ b) (le : low ≤ bound) : ¬ b < low :=
  UInt8.not_lt.mpr (UInt8.le_trans le h)

/-- A rune is found at the front, whatever follows it. -/
theorem Rune.width_append {r : Text} (h : Rune r) (t : Text) : runeWidth (r ++ t) = r.length := by
  cases h with
  | one ascii => exact if_pos ascii
  | two first second =>
    have h₁ := not_lt_of_le first.1 (show 0x80 ≤ 0xC2 by decide)
    have h₂ := UInt8.not_lt.mpr first.1
    simp only [List.cons_append, List.nil_append, runeWidth, h₁, h₂, first.2, second, if_true,
      if_false, List.length_cons, List.length_nil]
  | three first second third =>
    have h₁ := not_lt_of_le first.1 (show 0x80 ≤ 0xE0 by decide)
    have h₂ := not_lt_of_le first.1 (show 0xC2 ≤ 0xE0 by decide)
    have h₃ := UInt8.not_lt.mpr first.1
    simp only [List.cons_append, List.nil_append, runeWidth, h₁, h₂, h₃, first.2, second, third,
      and_self, if_true, if_false, List.length_cons, List.length_nil]
  | four first second third fourth =>
    have h₁ := not_lt_of_le first.1 (show 0x80 ≤ 0xF0 by decide)
    have h₂ := not_lt_of_le first.1 (show 0xC2 ≤ 0xF0 by decide)
    have h₃ := not_lt_of_le first.1 (show 0xE0 ≤ 0xF0 by decide)
    have h₄ := UInt8.not_lt.mpr first.1
    simp only [List.cons_append, List.nil_append, runeWidth, h₁, h₂, h₃, h₄, first.2, second,
      third, fourth, and_self, if_true, if_false, List.length_cons, List.length_nil]

theorem Rune.ne_nil {r : Text} (h : Rune r) : r ≠ [] := by
  cases h <;> exact List.cons_ne_nil _ _

/-- A single byte is of ASCII. -/
theorem Rune.low {b : UInt8} (h : Rune [b]) : b < 0x80 := by
  cases h with
  | one ascii => exact ascii

theorem Second.le {b c : UInt8} (h : Second b c) : 0x80 ≤ c := by
  refine UInt8.le_trans ?_ h.1
  unfold secondLow
  split_ifs <;> decide

/-- The bytes of a longer rune are none of ASCII. -/
theorem Rune.high {r : Text} (h : Rune r) (long : r.length ≠ 1) : ∀ b ∈ r, 0x80 ≤ b := by
  cases h with
  | one _ => exact absurd rfl long
  | two first second =>
    simp only [List.forall_mem_cons, List.not_mem_nil, false_implies, implies_true, and_true]
    exact ⟨UInt8.le_trans (by decide) first.1, second.1⟩
  | three first second third =>
    simp only [List.forall_mem_cons, List.not_mem_nil, false_implies, implies_true, and_true]
    exact ⟨UInt8.le_trans (by decide) first.1, second.le, third.1⟩
  | four first second third fourth =>
    simp only [List.forall_mem_cons, List.not_mem_nil, false_implies, implies_true, and_true]
    exact ⟨UInt8.le_trans (by decide) first.1, second.le, third.1, fourth.1⟩

/-! ## Cutting a text -/

/-- The runes of a text, and `none` for a byte that starts none. -/
def piecesFrom : Nat → Text → List (Option Text)
  | 0, _ => []
  | fuel + 1, s =>
    match runeWidth s with
    | 0 =>
      match s with
      | [] => []
      | _ :: rest => none :: piecesFrom fuel rest
    | w + 1 => some (s.take (w + 1)) :: piecesFrom fuel (s.drop (w + 1))

/-- The runes of a text, and `none` for a byte that starts none. -/
def pieces (s : Text) : List (Option Text) := piecesFrom s.length s

theorem piecesFrom_rune {s : Text} {w : Nat} (h : runeWidth s = w + 1) (fuel : Nat) :
    piecesFrom (fuel + 1) s = some (s.take (w + 1)) :: piecesFrom fuel (s.drop (w + 1)) := by
  rw [piecesFrom.eq_def]
  simp only [h]

theorem piecesFrom_bad {b : UInt8} {rest : Text} (h : runeWidth (b :: rest) = 0) (fuel : Nat) :
    piecesFrom (fuel + 1) (b :: rest) = none :: piecesFrom fuel rest := by
  rw [piecesFrom.eq_def]
  simp only [h]

theorem rune_of_mem_piecesFrom {fuel : Nat} {s r : Text} (h : some r ∈ piecesFrom fuel s) :
    Rune r := by
  induction fuel generalizing s with
  | zero => cases h
  | succ fuel ih =>
    cases hw : runeWidth s with
    | zero =>
      cases s with
      | nil => cases h
      | cons b rest =>
        rw [piecesFrom_bad hw] at h
        rcases List.mem_cons.mp h with hnone | hrest
        · cases hnone
        · exact ih hrest
    | succ w =>
      rw [piecesFrom_rune hw] at h
      rcases List.mem_cons.mp h with hfirst | hrest
      · obtain ⟨r', t, hr', hlength, rfl⟩ := exists_rune hw
        rw [List.take_left' hlength] at hfirst
        rwa [Option.some.inj hfirst]
      · exact ih hrest

/-- A text of runes is cut into them. -/
theorem pieces_flatten {runes : List Text} (h : ∀ r ∈ runes, Rune r) :
    pieces runes.flatten = runes.map some := by
  have hfrom : ∀ fuel, runes.flatten.length ≤ fuel →
      piecesFrom fuel runes.flatten = runes.map some := by
    induction runes with
    | nil =>
      intro fuel _
      cases fuel <;> rfl
    | cons r rest ih =>
      intro fuel hfuel
      obtain ⟨hr, hrest⟩ := List.forall_mem_cons.mp h
      have hpos : 0 < r.length := List.length_pos_iff.mpr hr.ne_nil
      obtain ⟨w, hw⟩ := Nat.exists_eq_succ_of_ne_zero (Nat.pos_iff_ne_zero.mp hpos)
      rw [List.flatten_cons, List.length_append] at hfuel
      obtain ⟨fuel, rfl⟩ := Nat.exists_eq_succ_of_ne_zero (show fuel ≠ 0 by omega)
      have hwidth : runeWidth (r ++ rest.flatten) = w + 1 := (hr.width_append _).trans hw
      rw [List.flatten_cons, piecesFrom_rune hwidth fuel, List.take_left' hw, List.drop_left' hw,
        ih hrest fuel (by omega), List.map_cons]
  exact hfrom _ (Nat.le_refl _)

/-! ## Making a text valid -/

/-- U+FFFD. -/
def replacement : Text := [0xEF, 0xBF, 0xBD]

theorem rune_replacement : Rune replacement := .three (by decide) (by decide) (by decide)

/-- A text with U+FFFD for each byte that starts no rune. -/
def toValid (s : Text) : Text := (pieces s).flatMap (·.getD replacement)

theorem utf8_toValid (s : Text) : Utf8 (toValid s) := by
  refine ⟨(pieces s).map (Option.getD · replacement), ?_, List.flatMap_def⟩
  intro r hr
  obtain ⟨piece, hpiece, rfl⟩ := List.mem_map.mp hr
  cases piece with
  | none => exact rune_replacement
  | some r => exact rune_of_mem_piecesFrom hpiece

theorem Utf8.toValid {s : Text} (h : Utf8 s) : toValid s = s := by
  obtain ⟨runes, hrunes, rfl⟩ := h
  rw [Json.toValid, pieces_flatten hrunes, List.flatMap_map]
  exact List.flatMap_id

/-- A text is left as it is exactly when it is valid. -/
theorem toValid_eq_self_iff {s : Text} : toValid s = s ↔ Utf8 s := by
  constructor
  · intro h
    rw [← h]
    exact utf8_toValid s
  · exact Utf8.toValid

theorem toValid_eq_nil_iff {s : Text} : toValid s = [] ↔ s = [] := by
  constructor
  · intro h
    cases s with
    | nil => rfl
    | cons b rest =>
      cases hw : runeWidth (b :: rest) with
      | zero =>
        rw [toValid, pieces, List.length_cons, piecesFrom_bad hw, List.flatMap_cons] at h
        exact absurd (List.append_eq_nil_iff.mp h).1 rune_replacement.ne_nil
      | succ w =>
        rw [toValid, pieces, List.length_cons, piecesFrom_rune hw, List.flatMap_cons] at h
        exact absurd (List.append_eq_nil_iff.mp h).1 (List.cons_ne_nil _ _)
  · rintro rfl
    rfl

theorem toValid_toValid (s : Text) : toValid (toValid s) = toValid s := (utf8_toValid s).toValid

theorem utf8_of_ascii {s : Text} (h : ∀ b ∈ s, b < 0x80) : Utf8 s := by
  refine ⟨s.map fun b => [b], ?_, ?_⟩
  · intro r hr
    obtain ⟨b, hb, rfl⟩ := List.mem_map.mp hr
    exact .one (h b hb)
  · rw [← List.flatMap_def]
    exact (List.flatMap_singleton' s).symm

/-- A byte that starts no rune is replaced. -/
example : toValid [0x61, 0xFF, 0x62] = [0x61, 0xEF, 0xBF, 0xBD, 0x62] := by decide

end Lib.Json
