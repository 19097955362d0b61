import Mathlib.Data.List.Basic

/-!
# Struct types as text

A struct type is a name and a list of members, each with the name of its type and its own name. It
is written as one line of text, `Name(type₁ name₁,type₂ name₂)`, and such a line is read back by
`StructType.parse`. Names are not empty and hold none of the characters that separate them, which is
part of the type, so reading is the exact inverse of writing: a line denotes a struct type if and
only if it is that type's text (`parse_eq_some_iff`).

A struct type directs the encoding of its values. `encodeData` goes through the declared members in
their order, looks each one's value up under its name, and writes it as its declared type is written.
What types there are, and how a value is written at each, is a parameter (`Atoms`).
-/

namespace Lib

/-! ## Joining and splitting -/

section Split

variable {α : Type} {c b : α} {s : List α} {parts : List (List α)}

theorem mem_intercalate (mem : b ∈ [c].intercalate parts) : b = c ∨ ∃ part ∈ parts, b ∈ part := by
  induction parts with
  | nil => simp at mem
  | cons part parts ih =>
    cases parts with
    | nil =>
      rw [List.intercalate_singleton] at mem
      exact .inr ⟨part, List.mem_singleton_self _, mem⟩
    | cons part' parts =>
      rw [List.intercalate_cons_cons, List.append_assoc, List.mem_append, List.singleton_append,
        List.mem_cons] at mem
      rcases mem with mem | rfl | mem
      · exact .inr ⟨part, List.mem_cons_self, mem⟩
      · exact .inl rfl
      · rcases ih mem with rfl | ⟨part, hpart, mem⟩
        · exact .inl rfl
        · exact .inr ⟨part, List.mem_cons_of_mem _ hpart, mem⟩

variable [BEq α] [LawfulBEq α]

/-- No part of a split list holds the separator. -/
theorem not_mem_of_mem_splitOn {part : List α} (mem : part ∈ s.splitOn c) : c ∉ part := by
  induction s generalizing part with
  | nil =>
    rw [List.splitOn_nil, List.mem_singleton] at mem
    subst mem
    exact List.not_mem_nil
  | cons a s ih =>
    rw [List.splitOn_cons_eq_if_modifyHead] at mem
    split at mem
    · rcases List.mem_cons.mp mem with rfl | mem
      · exact List.not_mem_nil
      · exact ih mem
    · rename_i hne
      cases hs : s.splitOn c with
      | nil => exact absurd hs (List.splitOn_ne_nil c s)
      | cons head rest =>
        rw [hs, List.modifyHead_cons] at mem
        rcases List.mem_cons.mp mem with rfl | mem
        · intro hc
          rcases List.mem_cons.mp hc with rfl | hc
          · simp at hne
          · exact ih (hs ▸ List.mem_cons_self) hc
        · exact ih (hs ▸ List.mem_cons_of_mem _ mem)

/-- **Splitting is the inverse of joining.** -/
theorem splitOn_eq_iff : s.splitOn c = parts ↔
    parts ≠ [] ∧ (∀ part ∈ parts, c ∉ part) ∧ [c].intercalate parts = s := by
  constructor
  · rintro rfl
    exact ⟨List.splitOn_ne_nil c s, fun part => not_mem_of_mem_splitOn, List.intercalate_splitOn c⟩
  · rintro ⟨hne, hfree, rfl⟩
    exact List.splitOn_intercalate c hfree hne

end Split

/-! ## Names -/

def lparen : UInt8 := 40
def rparen : UInt8 := 41
def comma : UInt8 := 44
def space : UInt8 := 32

/-- The characters between names. -/
def separators : List UInt8 := [lparen, rparen, comma, space]

/-- A name: not empty, and without separators. -/
def isWord (s : List UInt8) : Bool := !s.isEmpty && s.all fun b => !separators.contains b

theorem not_mem_of_isWord {s : List UInt8} {c : UInt8} (h : isWord s = true)
    (sep : c ∈ separators) : c ∉ s := by
  intro mem
  have hc := List.all_eq_true.mp (Bool.and_eq_true_iff.mp h).2 c mem
  rw [List.contains_iff_mem.mpr sep] at hc
  cases hc

/-- A member: the name of its type, and its own. -/
structure Member where
  type : List UInt8
  name : List UInt8
  deriving DecidableEq

namespace Member

def isPlain (m : Member) : Bool := isWord m.type && isWord m.name

/-- `type name`. -/
def text (m : Member) : List UInt8 := [space].intercalate [m.type, m.name]

def read (s : List UInt8) : Option Member :=
  match s.splitOn space with
  | [type, name] => some ⟨type, name⟩
  | _ => none

theorem text_of_read {s : List UInt8} {m : Member} (h : read s = some m) : m.text = s := by
  unfold read at h
  split at h
  · rename_i hsplit
    cases h
    exact (splitOn_eq_iff.mp hsplit).2.2
  · cases h

theorem read_text {m : Member} (plain : m.isPlain = true) : read m.text = some m := by
  obtain ⟨htype, hname⟩ := Bool.and_eq_true_iff.mp plain
  have hsplit : m.text.splitOn space = [m.type, m.name] := by
    refine splitOn_eq_iff.mpr ⟨List.cons_ne_nil _ _, ?_, rfl⟩
    intro part hpart
    rcases List.mem_pair.mp hpart with rfl | rfl
    · exact not_mem_of_isWord htype (by decide)
    · exact not_mem_of_isWord hname (by decide)
  simp only [read, hsplit]

/-- The only separator in the text of a member is the one in its middle. -/
theorem free {m : Member} {c : UInt8} (plain : m.isPlain = true) (sep : c ∈ separators)
    (hne : c ≠ space) : c ∉ m.text := by
  obtain ⟨htype, hname⟩ := Bool.and_eq_true_iff.mp plain
  intro mem
  rcases mem_intercalate mem with rfl | ⟨part, hpart, mem⟩
  · exact hne rfl
  · rcases List.mem_pair.mp hpart with rfl | rfl
    · exact not_mem_of_isWord htype sep mem
    · exact not_mem_of_isWord hname sep mem

theorem text_ne_nil {m : Member} : m.text ≠ [] := by
  simp [text, List.intercalate]

end Member

/-! ## Member lists -/

/-- `type₁ name₁,type₂ name₂`. -/
def membersText (members : List Member) : List UInt8 := [comma].intercalate (members.map Member.text)

/-- An empty text has no members. -/
def readMembers (s : List UInt8) : Option (List Member) :=
  if s = [] then some [] else (s.splitOn comma).mapM Member.read

theorem map_text_of_mapM_read {parts : List (List UInt8)} {members : List Member}
    (h : parts.mapM Member.read = some members) : members.map Member.text = parts := by
  induction parts generalizing members with
  | nil =>
    cases h
    rfl
  | cons part parts ih =>
    simp only [List.mapM_cons, Option.bind_eq_bind, Option.bind_eq_some_iff] at h
    obtain ⟨m, hm, ms, hms, h⟩ := h
    cases h
    rw [List.map_cons, Member.text_of_read hm, ih hms]

theorem mapM_read_map_text {members : List Member} (plain : members.all Member.isPlain = true) :
    (members.map Member.text).mapM Member.read = some members := by
  induction members with
  | nil => rfl
  | cons m members ih =>
    rw [List.all_cons, Bool.and_eq_true_iff] at plain
    simp [Member.read_text plain.1, ih plain.2]

theorem membersText_of_readMembers {s : List UInt8} {members : List Member}
    (h : readMembers s = some members) : membersText members = s := by
  unfold readMembers at h
  split at h
  · rename_i hs
    cases h
    exact hs.symm
  · rw [membersText, map_text_of_mapM_read h]
    exact List.intercalate_splitOn comma

theorem membersText_ne_nil {m : Member} {members : List Member} : membersText (m :: members) ≠ [] := by
  intro h
  cases members with
  | nil =>
    rw [membersText, List.map_singleton, List.intercalate_singleton] at h
    exact Member.text_ne_nil h
  | cons m' members =>
    rw [membersText, List.map_cons, List.map_cons, List.intercalate_cons_cons] at h
    simp at h

theorem readMembers_membersText {members : List Member} (plain : members.all Member.isPlain = true) :
    readMembers (membersText members) = some members := by
  cases members with
  | nil => rfl
  | cons m members =>
    have hsplit : (membersText (m :: members)).splitOn comma = (m :: members).map Member.text := by
      refine splitOn_eq_iff.mpr ⟨List.cons_ne_nil _ _, ?_, rfl⟩
      intro part hpart
      obtain ⟨m', hm', rfl⟩ := List.mem_map.mp hpart
      exact Member.free (List.all_eq_true.mp plain m' hm') (by decide) (by decide)
    rw [readMembers, if_neg membersText_ne_nil, hsplit, mapM_read_map_text plain]

/-- A member list has commas and spaces in it, and no parenthesis. -/
theorem membersText_free {members : List Member} {c : UInt8}
    (plain : members.all Member.isPlain = true) (sep : c ∈ separators) (comma_ne : c ≠ comma)
    (space_ne : c ≠ space) : c ∉ membersText members := by
  intro mem
  rcases mem_intercalate mem with rfl | ⟨part, hpart, mem⟩
  · exact comma_ne rfl
  · obtain ⟨m, hm, rfl⟩ := List.mem_map.mp hpart
    exact Member.free (List.all_eq_true.mp plain m hm) sep space_ne mem

/-! ## Struct types -/

/-- A struct type: its name and its members, in order. -/
structure StructType where
  name : List UInt8
  members : List Member
  plain : isWord name = true ∧ members.all Member.isPlain = true
  deriving DecidableEq

namespace StructType

/-- `Name(type₁ name₁,type₂ name₂)`. -/
def text (t : StructType) : List UInt8 :=
  [lparen].intercalate [t.name, [rparen].intercalate [membersText t.members, []]]

/-- Read a struct type. -/
def parse (s : List UInt8) : Option StructType :=
  match s.splitOn lparen with
  | [name, rest] =>
    match rest.splitOn rparen with
    | [body, []] => do
      let members ← readMembers body
      if plain : isWord name = true ∧ members.all Member.isPlain = true then
        some ⟨name, members, plain⟩
      else none
    | _ => none
  | _ => none

theorem text_of_parse {s : List UInt8} {t : StructType} (h : parse s = some t) : t.text = s := by
  unfold parse at h
  split at h
  · rename_i hs
    split at h
    · rename_i hrest
      obtain ⟨members, hmembers, h⟩ := Option.bind_eq_some_iff.mp h
      split at h
      · cases h
        rw [text, membersText_of_readMembers hmembers, (splitOn_eq_iff.mp hrest).2.2]
        exact (splitOn_eq_iff.mp hs).2.2
      · cases h
    · cases h
  · cases h

theorem parse_text (t : StructType) : parse t.text = some t := by
  obtain ⟨name, members, hname, hmembers⟩ := t
  have hbody : ∀ c ∈ [lparen, rparen], c ∉ membersText members := by
    intro c hc
    refine membersText_free hmembers ?_ ?_ ?_ <;> rcases List.mem_pair.mp hc with rfl | rfl <;> decide
  have hrest : ([rparen].intercalate [membersText members, []]).splitOn rparen =
      [membersText members, []] := by
    refine splitOn_eq_iff.mpr ⟨List.cons_ne_nil _ _, ?_, rfl⟩
    intro part hpart
    rcases List.mem_pair.mp hpart with rfl | rfl
    · exact hbody rparen (by decide)
    · exact List.not_mem_nil
  have hs : (text ⟨name, members, hname, hmembers⟩).splitOn lparen =
      [name, [rparen].intercalate [membersText members, []]] := by
    refine splitOn_eq_iff.mpr ⟨List.cons_ne_nil _ _, ?_, rfl⟩
    intro part hpart
    rcases List.mem_pair.mp hpart with rfl | rfl
    · exact not_mem_of_isWord hname (by decide)
    · intro mem
      rcases mem_intercalate mem with h | ⟨part, hpart, mem⟩
      · exact absurd h (by decide)
      · rcases List.mem_pair.mp hpart with rfl | rfl
        · exact hbody lparen (by decide) mem
        · cases mem
  simp only [parse, hs, hrest, readMembers_membersText hmembers, Option.bind_eq_bind,
    Option.bind_some]
  exact dif_pos ⟨hname, hmembers⟩

/-- **Reading is the inverse of writing**: a line denotes the struct type whose text it is, and no
other. -/
theorem parse_eq_some_iff {s : List UInt8} {t : StructType} : parse s = some t ↔ t.text = s := by
  constructor
  · exact text_of_parse
  · rintro rfl
    exact parse_text t

end StructType

/-! ## Encoding -/

/-- How values are written: the types there are, by their names, and a value at a type. -/
structure Atoms (τ ν : Type) where
  named : List UInt8 → Option τ
  encode : τ → ν → Option (List UInt8)

section Encode

variable {τ ν : Type} (atoms : Atoms τ ν) (value : List UInt8 → Option ν)

/-- The value under the member's name, as the member's type is written. -/
def encodeMember (m : Member) : Option (List UInt8) := do
  let type ← atoms.named m.type
  let v ← value m.name
  atoms.encode type v

/-- The members one after the other. -/
def encodeData : List Member → Option (List UInt8)
  | [] => some []
  | m :: members => do
    let head ← encodeMember atoms value m
    let rest ← encodeData members
    return head ++ rest

variable {atoms value}

theorem encodeMember_eq {m : Member} {type : τ} {v : ν} (named : atoms.named m.type = some type)
    (found : value m.name = some v) : encodeMember atoms value m = atoms.encode type v := by
  simp only [encodeMember, named, found, Option.bind_eq_bind, Option.bind_some]

theorem encodeData_cons {m : Member} {members : List Member} {head rest : List UInt8}
    (hm : encodeMember atoms value m = some head) (hrest : encodeData atoms value members = some rest) :
    encodeData atoms value (m :: members) = some (head ++ rest) := by
  simp only [encodeData, hm, hrest, Option.bind_eq_bind, Option.bind_some]
  rfl

end Encode

end Lib
