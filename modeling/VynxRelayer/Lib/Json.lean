import Mathlib.Data.List.TakeWhile
import Mathlib.Data.Nat.Digits.Defs
import VynxRelayer.Lib.Utf8

/-!
# JSON

Strings, integers and records as Go's `encoding/json` writes them, and readers for what is written.
In a string, quotes, backslashes, control characters, the characters of HTML and two line separators
are escaped, and a byte that starts no rune is written as U+FFFD.

A `Codec` is a printer and a reader, with the law that the one reads what the other prints. A string
is read as `toValid` makes it (`unquote_escape`), an integer as it was (`readInt_decimalInt`); a
record of members is a codec when each member is.
-/

namespace Lib.Json

/-! ## Strings -/

/-- A hex digit, in lower case. -/
def hexLower (n : UInt8) : UInt8 := if n < 10 then 48 + n else 87 + n

/-- The letter behind the backslash, for the bytes that have one. -/
def shortEscape (b : UInt8) : Option UInt8 :=
  if b = 34 then some 34
  else if b = 92 then some 92
  else if b = 8 then some 98
  else if b = 12 then some 102
  else if b = 10 then some 110
  else if b = 13 then some 114
  else if b = 9 then some 116
  else none

/-- A byte of ASCII in a string: control characters, and <, > and &, are escaped by number. -/
def escapeByte (b : UInt8) : Text :=
  match shortEscape b with
  | some c => [92, c]
  | none =>
    if b < 32 ∨ b = 60 ∨ b = 62 ∨ b = 38 then
      [92, 117, 48, 48, hexLower (b / 16), hexLower (b % 16)]
    else [b]

/-- U+2028 and U+2029. -/
def lineSeparator (last : UInt8) : Text := [0xE2, 0x80, last]

/-- A rune in a string. -/
def escapeRune (r : Text) : Text :=
  match r with
  | [b] => escapeByte b
  | r =>
    if r = lineSeparator 0xA8 then [92, 117, 50, 48, 50, 56]
    else if r = lineSeparator 0xA9 then [92, 117, 50, 48, 50, 57]
    else r

/-- What stands in a string for a rune, and for a byte that starts none. -/
def escapePiece : Option Text → Text
  | some r => escapeRune r
  | none => [92, 117, 102, 102, 102, 100]

/-- A string between its quotes. -/
def escape (s : Text) : Text := (pieces s).flatMap escapePiece

/-! ## Reading strings -/

/-- The value of a hex digit. -/
def hexValue (b : UInt8) : Option Nat :=
  if 48 ≤ b ∧ b ≤ 57 then some (b.toNat - 48)
  else if 97 ≤ b ∧ b ≤ 102 then some (b.toNat - 87)
  else if 65 ≤ b ∧ b ≤ 70 then some (b.toNat - 55)
  else none

/-- The number of four hex digits. -/
def hex4 (x y z w : UInt8) : Option Nat :=
  match hexValue x, hexValue y, hexValue z, hexValue w with
  | some a, some b, some c, some d => some (((a * 16 + b) * 16 + c) * 16 + d)
  | _, _, _, _ => none

/-- The UTF-8 encoding of a number of at most 16 bits; half a surrogate pair is U+FFFD. -/
def encodeRune (n : Nat) : Text :=
  if n < 0x80 then [UInt8.ofNat n]
  else if n < 0x800 then [UInt8.ofNat (0xC0 + n / 64), UInt8.ofNat (0x80 + n % 64)]
  else if 0xD800 ≤ n ∧ n < 0xE000 then [0xEF, 0xBF, 0xBD]
  else [UInt8.ofNat (0xE0 + n / 4096), UInt8.ofNat (0x80 + n / 64 % 64),
    UInt8.ofNat (0x80 + n % 64)]

/-- The byte a letter behind a backslash stands for. -/
def unescapeLetter (c : UInt8) : Option UInt8 :=
  if c = 34 then some 34
  else if c = 92 then some 92
  else if c = 47 then some 47
  else if c = 98 then some 8
  else if c = 102 then some 12
  else if c = 110 then some 10
  else if c = 114 then some 13
  else if c = 116 then some 9
  else none

/-- A string up to its closing quote, and what follows it. -/
def unquote : Text → Option (Text × Text)
  | [] => none
  | b :: rest =>
    if b = 34 then some ([], rest)
    else if b = 92 then
      match rest with
      | [] => none
      | c :: rest =>
        if c = 117 then
          match rest with
          | x :: y :: z :: w :: rest =>
            match hex4 x y z w with
            | none => none
            | some n => (unquote rest).map fun (s, tail) => (encodeRune n ++ s, tail)
          | _ => none
        else
          match unescapeLetter c with
          | none => none
          | some e => (unquote rest).map fun (s, tail) => (e :: s, tail)
    else if b < 32 then none
    else (unquote rest).map fun (s, tail) => (b :: s, tail)

/-- Bytes read in front of the rest of a string. -/
def prepend (s : Text) (r : Option (Text × Text)) : Option (Text × Text) :=
  r.map fun (u, tail) => (s ++ u, tail)

theorem prepend_append (s t : Text) (r : Option (Text × Text)) :
    prepend (s ++ t) r = prepend s (prepend t r) := by
  cases r with
  | none => rfl
  | some p => simp [prepend]

theorem prepend_nil (r : Option (Text × Text)) : prepend [] r = r := by
  cases r <;> rfl

@[simp] theorem unquote_quote (t : Text) : unquote (34 :: t) = some ([], t) := by
  rw [unquote.eq_def]
  exact if_pos rfl

theorem unquote_plain {b : UInt8} (hquote : b ≠ 34) (hslash : b ≠ 92) (hcontrol : ¬ b < 32)
    (t : Text) : unquote (b :: t) = prepend [b] (unquote t) := by
  rw [unquote.eq_def]
  simp only [if_neg hquote, if_neg hslash, if_neg hcontrol]
  rfl

theorem unquote_letter {c e : UInt8} (hc : c ≠ 117) (he : unescapeLetter c = some e) (t : Text) :
    unquote (92 :: c :: t) = prepend [e] (unquote t) := by
  rw [unquote.eq_def]
  simp only [if_neg (show (92 : UInt8) ≠ 34 by decide), if_true, if_neg hc, he]
  rfl

theorem unquote_hex {x y z w : UInt8} {n : Nat} (h : hex4 x y z w = some n) (t : Text) :
    unquote (92 :: 117 :: x :: y :: z :: w :: t) = prepend (encodeRune n) (unquote t) := by
  rw [unquote.eq_def]
  simp only [if_neg (show (92 : UInt8) ≠ 34 by decide), if_true, h]
  rfl

theorem hexValue_hexLower {n : UInt8} (h : n < 16) : hexValue (hexLower n) = some n.toNat := by
  have hall : ∀ k < 16, hexValue (hexLower (UInt8.ofNat k)) = some (UInt8.ofNat k).toNat := by
    decide
  have := hall n.toNat (UInt8.lt_iff_toNat_lt.mp h)
  rwa [UInt8.ofNat_toNat] at this

theorem shortEscape_letter {b c : UInt8} (h : shortEscape b = some c) :
    c ≠ 117 ∧ unescapeLetter c = some b := by
  unfold shortEscape at h
  split_ifs at h with h₁ h₂ h₃ h₄ h₅ h₆ h₇ <;>
    obtain rfl := Option.some.inj h <;> subst b <;> decide

/-- A byte of ASCII is read back. -/
theorem unquote_escapeByte {b : UInt8} (h : b < 0x80) (t : Text) :
    unquote (escapeByte b ++ t) = prepend [b] (unquote t) := by
  unfold escapeByte
  cases hshort : shortEscape b with
  | some c =>
    obtain ⟨hc, he⟩ := shortEscape_letter hshort
    exact unquote_letter hc he t
  | none =>
    dsimp only
    split_ifs with hescape
    · have hnat : b.toNat < 128 := UInt8.lt_iff_toNat_lt.mp h
      have hquot : b / 16 < 16 := by
        rw [UInt8.lt_iff_toNat_lt, UInt8.toNat_div]
        exact Nat.div_lt_of_lt_mul (Nat.lt_of_lt_of_le hnat (by decide))
      have hrem : b % 16 < 16 := by
        rw [UInt8.lt_iff_toNat_lt, UInt8.toNat_mod]
        exact Nat.mod_lt _ (by decide)
      have hhex : hex4 48 48 (hexLower (b / 16)) (hexLower (b % 16)) = some b.toNat := by
        rw [hex4, hexValue_hexLower hquot, hexValue_hexLower hrem, UInt8.toNat_div,
          UInt8.toNat_mod]
        simp only [show hexValue 48 = some 0 from rfl, Option.some.injEq,
          show (16 : UInt8).toNat = 16 from rfl]
        omega
      have hrune : encodeRune b.toNat = [b] := by
        rw [encodeRune, if_pos hnat, UInt8.ofNat_toNat]
      rw [← hrune]
      exact unquote_hex hhex t
    · have hquote : b ≠ 34 := by
        rintro rfl
        cases hshort
      have hslash : b ≠ 92 := by
        rintro rfl
        cases hshort
      exact unquote_plain hquote hslash (fun hcontrol => hescape (Or.inl hcontrol)) t

/-- Bytes outside ASCII are read as they stand. -/
theorem unquote_high {r : Text} (h : ∀ b ∈ r, 0x80 ≤ b) (t : Text) :
    unquote (r ++ t) = prepend r (unquote t) := by
  induction r with
  | nil => exact (prepend_nil _).symm
  | cons b rest ih =>
    obtain ⟨hb, hrest⟩ := List.forall_mem_cons.mp h
    have hne : ∀ c : UInt8, c < 0x80 → b ≠ c := fun c hc heq =>
      absurd (heq ▸ hb) (UInt8.not_le.mpr hc)
    have hcontrol : ¬ b < 32 := UInt8.not_lt.mpr (UInt8.le_trans (by decide) hb)
    rw [List.cons_append, unquote_plain (hne 34 (by decide)) (hne 92 (by decide)) hcontrol,
      ih hrest, ← prepend_append]
    rfl

/-- A rune is read back. -/
theorem unquote_escapeRune {r : Text} (h : Rune r) (t : Text) :
    unquote (escapeRune r ++ t) = prepend r (unquote t) := by
  by_cases hone : r.length = 1
  · obtain ⟨b, rfl⟩ := List.length_eq_one_iff.mp hone
    exact unquote_escapeByte h.low t
  · have hrune : escapeRune r =
        if r = lineSeparator 0xA8 then [92, 117, 50, 48, 50, 56]
        else if r = lineSeparator 0xA9 then [92, 117, 50, 48, 50, 57]
        else r := by
      unfold escapeRune
      split
      · exact absurd rfl hone
      · rfl
    rw [hrune]
    split_ifs with h₁ h₂
    · subst h₁
      exact unquote_hex (show hex4 50 48 50 56 = some 0x2028 by decide) t
    · subst h₂
      exact unquote_hex (show hex4 50 48 50 57 = some 0x2029 by decide) t
    · exact unquote_high (h.high hone) t

theorem unquote_escapePiece {piece : Option Text} (h : ∀ r, piece = some r → Rune r) (t : Text) :
    unquote (escapePiece piece ++ t) = prepend (piece.getD replacement) (unquote t) := by
  cases piece with
  | none => exact unquote_hex (show hex4 102 102 102 100 = some 0xFFFD by decide) t
  | some r => exact unquote_escapeRune (h r rfl) t

/-- **Strings are read back** up to the closing quote, with U+FFFD for the bytes that start no
rune. -/
theorem unquote_escape (s t : Text) : unquote (escape s ++ 34 :: t) = some (toValid s, t) := by
  unfold escape toValid
  have hrunes : ∀ piece ∈ pieces s, ∀ r, piece = some r → Rune r := by
    rintro _ hpiece r rfl
    exact rune_of_mem_piecesFrom hpiece
  generalize pieces s = cut at hrunes
  induction cut with
  | nil => exact unquote_quote t
  | cons piece rest ih =>
    obtain ⟨hpiece, hrest⟩ := List.forall_mem_cons.mp hrunes
    rw [List.flatMap_cons, List.append_assoc, unquote_escapePiece hpiece, ih hrest]
    rfl

/-! ## Integers -/

/-- A decimal digit. -/
def IsDigit (b : UInt8) : Prop := 48 ≤ b ∧ b ≤ 57

instance (b : UInt8) : Decidable (IsDigit b) := inferInstanceAs (Decidable (_ ∧ _))

/-- A natural number in decimal. -/
def decimalNat (n : Nat) : Text :=
  if n = 0 then [48] else (Nat.digits 10 n).reverse.map fun d => UInt8.ofNat (48 + d)

/-- An integer in decimal. -/
def decimalInt (n : Int) : Text := if n < 0 then 45 :: decimalNat n.natAbs else decimalNat n.natAbs

/-- The number that digits denote. -/
def valueOfDigits (ds : Text) : Nat := Nat.ofDigits 10 (ds.reverse.map fun b => b.toNat - 48)

theorem toNat_ofNat_digit {d : Nat} (h : d < 10) : (UInt8.ofNat (48 + d)).toNat = 48 + d := by
  rw [UInt8.toNat_ofNat']
  omega

theorem isDigit_decimalNat {n : Nat} : ∀ b ∈ decimalNat n, IsDigit b := by
  intro b hb
  unfold decimalNat at hb
  split_ifs at hb
  · rw [List.mem_singleton.mp hb]
    decide
  · obtain ⟨d, hd, rfl⟩ := List.mem_map.mp hb
    have hlt : d < 10 := Nat.digits_lt_base (by decide) (List.mem_reverse.mp hd)
    unfold IsDigit
    rw [UInt8.le_iff_toNat_le, UInt8.le_iff_toNat_le, toNat_ofNat_digit hlt]
    exact ⟨Nat.le_add_right 48 d, by change 48 + d ≤ 57; omega⟩

theorem decimalNat_ne_nil (n : Nat) : decimalNat n ≠ [] := by
  unfold decimalNat
  split_ifs with h
  · exact List.cons_ne_nil _ _
  · simpa [Nat.digits_eq_nil_iff_eq_zero] using h

theorem valueOfDigits_decimalNat (n : Nat) : valueOfDigits (decimalNat n) = n := by
  unfold decimalNat valueOfDigits
  split_ifs with h
  · simp [h]
  · rw [← List.map_reverse, List.reverse_reverse, List.map_map]
    conv_rhs => rw [← Nat.ofDigits_digits 10 n]
    refine congrArg _ ((List.map_congr_left fun d hd => ?_).trans (List.map_id _))
    rw [Function.comp_apply, toNat_ofNat_digit (Nat.digits_lt_base (by decide) hd)]
    exact Nat.add_sub_cancel_left 48 d

/-- No digit stands next. -/
def Stops (rest : Text) : Prop := ∀ b ∈ rest.head?, ¬ IsDigit b

instance (rest : Text) : Decidable (Stops rest) := inferInstanceAs (Decidable (∀ b ∈ _, _))

/-- The digits at the front, as a number, and what follows them. -/
def readNat (s : Text) : Option (Nat × Text) :=
  match s.takeWhile fun b => decide (IsDigit b) with
  | [] => none
  | d :: ds => some (valueOfDigits (d :: ds), s.dropWhile fun b => decide (IsDigit b))

/-- The integer at the front, and what follows it. -/
def readInt : Text → Option (Int × Text)
  | 45 :: rest => (readNat rest).map fun (n, rest) => (-(n : Int), rest)
  | s => (readNat s).map fun (n, rest) => ((n : Int), rest)

theorem readNat_append {ds rest : Text} (hne : ds ≠ []) (hds : ∀ b ∈ ds, IsDigit b)
    (stops : Stops rest) : readNat (ds ++ rest) = some (valueOfDigits ds, rest) := by
  have hall : ∀ b ∈ ds, decide (IsDigit b) = true := fun b hb => decide_eq_true (hds b hb)
  have htake : rest.takeWhile (fun b => decide (IsDigit b)) = [] := by
    cases rest with
    | nil => rfl
    | cons b tail =>
      exact List.takeWhile_cons_of_neg (by simpa using stops b rfl)
  have hdrop : rest.dropWhile (fun b => decide (IsDigit b)) = rest := by
    cases rest with
    | nil => rfl
    | cons b tail =>
      exact List.dropWhile_cons_of_neg (by simpa using stops b rfl)
  obtain ⟨d, tail, rfl⟩ := List.exists_cons_of_ne_nil hne
  unfold readNat
  rw [List.takeWhile_append_of_pos hall, htake, List.append_nil, List.dropWhile_append_of_pos hall,
    hdrop]

theorem readNat_decimalNat (n : Nat) {rest : Text} (stops : Stops rest) :
    readNat (decimalNat n ++ rest) = some (n, rest) := by
  rw [readNat_append (decimalNat_ne_nil n) isDigit_decimalNat stops, valueOfDigits_decimalNat]

theorem readInt_of_digit {b : UInt8} {s : Text} (h : IsDigit b) :
    readInt (b :: s) = (readNat (b :: s)).map fun (n, rest) => ((n : Int), rest) := by
  unfold readInt
  split
  · rename_i heq
    cases heq
    exact absurd h (by decide)
  · rfl

/-- **Integers are read back**, as long as no digit follows. -/
theorem readInt_decimalInt (n : Int) {rest : Text} (stops : Stops rest) :
    readInt (decimalInt n ++ rest) = some (n, rest) := by
  unfold decimalInt
  split_ifs with hneg
  · have habs : -((n.natAbs : Nat) : Int) = n := by omega
    rw [List.cons_append, readInt, readNat_decimalNat _ stops]
    simp only [Option.map_some, habs]
  · obtain ⟨d, tail, hdigits⟩ := List.exists_cons_of_ne_nil (decimalNat_ne_nil n.natAbs)
    have hd : IsDigit d := isDigit_decimalNat (n := n.natAbs) d (hdigits ▸ List.mem_cons_self)
    have hread := readNat_decimalNat n.natAbs stops
    rw [hdigits, List.cons_append] at hread ⊢
    rw [readInt_of_digit hd, hread]
    simp only [Option.map_some, Int.natAbs_of_nonneg (Int.not_lt.mp hneg)]

/-! ## Codecs -/

/-- A fixed text at the front is taken off. -/
def expect (lit s : Text) : Option Text :=
  if lit <+: s then some (s.drop lit.length) else none

@[simp] theorem expect_append (lit rest : Text) : expect lit (lit ++ rest) = some rest := by
  rw [expect, if_pos (List.prefix_append lit rest), List.drop_left]

/-- A printer, a reader, and what the reader makes of the printed values. -/
structure Codec (α : Type) where
  print : α → Text
  read : Text → Option (α × Text)
  norm : α → α
  read_print : ∀ a {rest}, Stops rest → read (print a ++ rest) = some (norm a, rest)

/-- The members of a record, with the brace that closes it. -/
structure Members (α : Type) where
  print : α → Text
  read : Text → Option (α × Text)
  norm : α → α
  read_print : ∀ a rest, read (print a ++ rest) = some (norm a, rest)

variable {α β : Type}

namespace Codec

/-- A whole text as one value. -/
def decode (c : Codec α) (s : Text) : Option α :=
  match c.read s with
  | some (a, []) => some a
  | _ => none

/-- **What is printed is read**, as its normal form. -/
theorem decode_print (c : Codec α) (a : α) : c.decode (c.print a) = some (c.norm a) := by
  have hread := c.read_print a (show Stops [] by intro b hb; cases hb)
  rw [List.append_nil] at hread
  rw [decode, hread]

/-- A string. -/
def str : Codec Text where
  print s := 34 :: (escape s ++ [34])
  read
    | 34 :: rest => unquote rest
    | _ => none
  norm := toValid
  read_print s rest _ := by
    rw [List.cons_append, List.append_assoc]
    exact unquote_escape s rest

/-- An integer. -/
def int : Codec Int where
  print := decimalInt
  read := readInt
  norm := id
  read_print n _ stops := readInt_decimalInt n stops

@[simp] theorem int_norm (n : Int) : int.norm n = n := rfl

/-- A record. -/
def obj (m : Members α) : Codec α where
  print a := 123 :: m.print a
  read
    | 123 :: rest => m.read rest
    | _ => none
  norm := m.norm
  read_print a rest _ := m.read_print a rest

/-- Values of another type, by what they are written as. -/
def convert (c : Codec α) (f : α → Option β) (g : β → α) (norm : β → β)
    (law : ∀ b, f (c.norm (g b)) = some (norm b)) : Codec β where
  print b := c.print (g b)
  read s :=
    match c.read s with
    | none => none
    | some (a, rest) => (f a).map fun b => (b, rest)
  norm := norm
  read_print b rest stops := by
    simp only [c.read_print (g b) stops, law b, Option.map_some]

end Codec

namespace Members

/-- The name of a member and its colon. -/
def key (name : Text) : Text := 34 :: (name ++ [34, 58])

/-- The last member. -/
def last (name : Text) (c : Codec α) : Members α where
  print a := key name ++ (c.print a ++ [125])
  read s :=
    match expect (key name) s with
    | none => none
    | some s =>
      match c.read s with
      | some (a, 125 :: rest) => some (a, rest)
      | _ => none
  norm := c.norm
  read_print a rest := by
    have hread := c.read_print a (show Stops (125 :: rest) by rintro b ⟨⟩; decide)
    simp only [List.append_assoc, expect_append, List.singleton_append, hread]

/-- A member with others behind it. -/
def more (name : Text) (c : Codec α) (m : Members β) : Members (α × β) where
  print p := key name ++ (c.print p.1 ++ 44 :: m.print p.2)
  read s :=
    match expect (key name) s with
    | none => none
    | some s =>
      match c.read s with
      | some (a, 44 :: rest) => (m.read rest).map fun (b, rest) => ((a, b), rest)
      | _ => none
  norm p := (c.norm p.1, m.norm p.2)
  read_print p rest := by
    have stops : Stops (44 :: (m.print p.2 ++ rest)) := by rintro b ⟨⟩; decide
    have hread := c.read_print p.1 stops
    simp only [List.append_assoc, expect_append, List.cons_append, hread, m.read_print,
      Option.map_some]

end Members

end Lib.Json
