import Mathlib.Logic.Function.Basic
import VynxRelayer.Core

/-!
# The .env file

`loadDotEnv` (`cmd/relayer/main.go`) reads `KEY=VALUE` lines and sets what the environment does not
have yet. The scanner, `strings.TrimSpace` and `strings.SplitN` work on bytes here as they do in Go:
a line ends at a newline and loses one carriage return, and spaces are the UTF-8 encodings of
Unicode's. A variable that is set to the empty string counts as not set.

What comes out is said without the loop. Of the process's own value for a variable and the values
the file assigns to it, line by line, the first one that is not empty is the one the relayer sees;
and what the file says counts up to the first line that cannot be set, which ends the loading with
an error that `main` only logs (`dotenv_precedence`). Loading a file twice is loading it once
(`loadDotEnv_idempotent`). What an operator writes as `KEY=VALUE` is read back as it was meant
(`dotenv_written`).
-/

namespace VynxRelayer.Startup

/-! ## The environment -/

/-- The environment of the process. -/
abbrev Env := Bytes → Option Bytes

/-- `os.Getenv`: what is not set is empty, and so is the variable without a name. -/
def getenv (env : Env) (key : Bytes) : Bytes := if key = [] then [] else (env key).getD []

/-- The names and values `os.Setenv` takes. -/
def settable (key value : Bytes) : Bool :=
  key ≠ [] && !key.contains 61 && !key.contains 0 && !value.contains 0

/-- `os.Setenv`; `none` is EINVAL. -/
def setenv (env : Env) (key value : Bytes) : Option Env :=
  if settable key value then some (Function.update env key (some value)) else none

/-! ## Lines -/

/-- The UTF-8 encodings of the runes of `unicode.IsSpace`. -/
def spaces : List Bytes :=
  [[9], [10], [11], [12], [13], [32], [0xC2, 0x85], [0xC2, 0xA0], [0xE1, 0x9A, 0x80],
    [0xE2, 0x80, 0x80], [0xE2, 0x80, 0x81], [0xE2, 0x80, 0x82], [0xE2, 0x80, 0x83],
    [0xE2, 0x80, 0x84], [0xE2, 0x80, 0x85], [0xE2, 0x80, 0x86], [0xE2, 0x80, 0x87],
    [0xE2, 0x80, 0x88], [0xE2, 0x80, 0x89], [0xE2, 0x80, 0x8A], [0xE2, 0x80, 0xA8],
    [0xE2, 0x80, 0xA9], [0xE2, 0x80, 0xAF], [0xE2, 0x81, 0x9F], [0xE3, 0x80, 0x80]]

/-- Cut the pieces of `cut` off the front, as often as one is there. -/
def trimLeft (cut : List Bytes) : Nat → Bytes → Bytes
  | 0, s => s
  | fuel + 1, s =>
    match cut.find? (·.isPrefixOf s) with
    | none => s
    | some piece => trimLeft cut fuel (s.drop piece.length)

/-- `strings.TrimSpace`. -/
def trimSpace (s : Bytes) : Bytes :=
  let s := trimLeft spaces s.length s
  (trimLeft (spaces.map List.reverse) s.length s.reverse).reverse

/-- Drop a carriage return at the end of a line. -/
def dropCR (line : Bytes) : Bytes := if line.getLast? = some 13 then line.dropLast else line

/-- What ends the loading. -/
inductive LoadError where
  | open (cause : Bytes)
  | setenv (key : Bytes)
  | tooLong
  | read (cause : Bytes)
  deriving DecidableEq

def LoadError.text : LoadError → Bytes
  | .open cause => ascii "failed to open .env: " ++ cause
  | .setenv key => ascii "failed to set env var " ++ key ++ ascii ": setenv: invalid argument"
  | .tooLong => ascii "bufio.Scanner: token too long"
  | .read cause => cause

/-- An open file: its bytes, and what the read behind the last of them fails with, if it is not the
end of the file. -/
structure File where
  bytes : Bytes
  failure : Option Bytes

/-- The longest line: a buffer of 64 KiB has to hold it with its newline. -/
def maxLine : Nat := 65535

/-- `bufio.Scanner` over the bytes that are left, with the line begun so far: the lines it gives
out, and whether it gave up at one that is too long. -/
def scanFrom (line : Bytes) : Bytes → List Bytes × Bool
  | [] => (if line = [] then [] else [dropCR line], false)
  | b :: rest =>
    if b = 10 then
      let (lines, tooLong) := scanFrom [] rest
      (dropCR line :: lines, tooLong)
    else if line.length < maxLine then scanFrom (line ++ [b]) rest
    else ([], true)

/-- `strings.SplitN(line, "=", 2)`, where there are two parts. -/
def splitAssignment : Bytes → Option (Bytes × Bytes)
  | [] => none
  | b :: rest => if b = 61 then some ([], rest) else (splitAssignment rest).map fun (k, v) => (b :: k, v)

/-- The assignment on a line: none on an empty one, on a comment and where there is no `=`. -/
def assignment? (text : Bytes) : Option (Bytes × Bytes) :=
  let line := trimSpace text
  if line = [] ∨ line.head? = some 35 then none
  else (splitAssignment line).map fun (key, value) => (trimSpace key, trimSpace value)

/-! ## The loop -/

/-- What one assignment does. -/
def assign (env : Env) (key value : Bytes) : Option Env :=
  if getenv env key = [] then setenv env key value else some env

/-- The loop over the lines. -/
def loadLines (env : Env) : List Bytes → Env × Option LoadError
  | [] => (env, none)
  | line :: rest =>
    match assignment? line with
    | none => loadLines env rest
    | some (key, value) =>
      match assign env key value with
      | none => (env, some (.setenv key))
      | some env => loadLines env rest

/-- `loadDotEnv`, with the file it opens or the error of opening it. -/
def loadDotEnv (opened : Except Bytes File) (env : Env) : Env × Option LoadError :=
  match opened with
  | .error cause => (env, some (.open cause))
  | .ok file =>
    let (lines, tooLong) := scanFrom [] file.bytes
    match loadLines env lines with
    | (env, some err) => (env, some err)
    | (env, none) => (env, if tooLong then some .tooLong else file.failure.map .read)

theorem loadDotEnv_ok (file : File) (env : Env) :
    loadDotEnv (.ok file) env =
      ((loadLines env (scanFrom [] file.bytes).1).1,
        match (loadLines env (scanFrom [] file.bytes).1).2 with
        | some err => some err
        | none => if (scanFrom [] file.bytes).2 then some .tooLong else file.failure.map .read) := by
  simp only [loadDotEnv]
  cases loadLines env (scanFrom [] file.bytes).1 with
  | mk env' err => cases err <;> rfl

/-! ## Precedence -/

/-- The first value that is not empty. -/
def firstNonempty (values : List Bytes) : Bytes := (values.find? (· ≠ [])).getD []

/-- The values that assignments give to a variable, in order. -/
def valuesOf (key : Bytes) (assignments : List (Bytes × Bytes)) : List Bytes :=
  (assignments.filter (·.1 = key)).map Prod.snd

/-- **What a variable should be**: the process's own value, else the first one assigned. -/
def effective (env : Env) (assignments : List (Bytes × Bytes)) (key : Bytes) : Bytes :=
  firstNonempty (getenv env key :: valuesOf key assignments)

theorem firstNonempty_cons (value : Bytes) (values : List Bytes) :
    firstNonempty (value :: values) = if value = [] then firstNonempty values else value := by
  unfold firstNonempty
  by_cases h : value = [] <;> simp [h]

theorem effective_nil (env : Env) (key : Bytes) : effective env [] key = getenv env key := by
  unfold effective
  rw [firstNonempty_cons]
  split
  · rename_i h
    rw [h]
    rfl
  · rfl

theorem getenv_update {env : Env} {key value : Bytes} (named : key ≠ []) (k : Bytes) :
    getenv (Function.update env key (some value)) k = if k = key then value else getenv env k := by
  by_cases hk : k = key
  · subst hk
    simp [getenv, named]
  · simp [getenv, hk]

theorem named_of_settable {key value : Bytes} (h : settable key value = true) : key ≠ [] := by
  simp only [settable, Bool.and_eq_true, decide_eq_true_eq] at h
  exact h.1.1.1

/-- An assignment counts where the variable is empty, and nowhere else. -/
theorem getenv_assign {env env' : Env} {key value : Bytes} (h : assign env key value = some env')
    (k : Bytes) :
    getenv env' k = if k = key ∧ getenv env k = [] then value else getenv env k := by
  unfold assign setenv at h
  split at h
  · rename_i hempty
    split at h
    · rename_i hset
      cases h
      rw [getenv_update (named_of_settable hset)]
      by_cases hk : k = key
      · simp [hk, hempty]
      · simp [hk]
    · cases h
  · rename_i hset
    cases h
    rw [if_neg]
    rintro ⟨rfl, hempty⟩
    exact hset hempty

theorem effective_cons {env env' : Env} {key value : Bytes} (h : assign env key value = some env')
    (assignments : List (Bytes × Bytes)) (k : Bytes) :
    effective env ((key, value) :: assignments) k = effective env' assignments k := by
  have hstep := getenv_assign h k
  unfold effective valuesOf
  by_cases hk : key = k
  · subst hk
    simp only [List.filter_cons, decide_true, if_true, List.map_cons, firstNonempty_cons]
    rw [hstep]
    by_cases hempty : getenv env key = []
    · simp [hempty]
    · simp [hempty]
  · rw [if_neg fun hboth => hk hboth.1.symm] at hstep
    simp only [List.filter_cons, hk, decide_false, Bool.false_eq_true, if_false, hstep]

/-- An assignment that fails is one the environment cannot hold, to a variable that is empty. -/
theorem assign_eq_none {env : Env} {key value : Bytes} :
    assign env key value = none ↔ getenv env key = [] ∧ settable key value = false := by
  unfold assign setenv
  by_cases hempty : getenv env key = [] <;> cases settable key value <;> simp [hempty]

/-- **The loop over the lines**: those before the one it stops at count by precedence. -/
theorem loadLines_spec (env : Env) (lines : List Bytes) :
    ∃ done rest, lines = done ++ rest ∧
      (∀ key, getenv (loadLines env lines).1 key =
        effective env (done.filterMap assignment?) key) ∧
      match rest with
      | [] => (loadLines env lines).2 = none
      | line :: _ => ∃ key value, assignment? line = some (key, value) ∧
          settable key value = false ∧ effective env (done.filterMap assignment?) key = [] ∧
          (loadLines env lines).2 = some (.setenv key) := by
  induction lines generalizing env with
  | nil => exact ⟨[], [], rfl, fun key => (effective_nil env key).symm, rfl⟩
  | cons line lines ih =>
    cases hline : assignment? line with
    | none =>
      obtain ⟨done, rest, rfl, hvalues, hend⟩ := ih env
      refine ⟨line :: done, rest, rfl, ?_⟩
      simp only [loadLines, hline, List.filterMap_cons]
      exact ⟨hvalues, hend⟩
    | some kv =>
      obtain ⟨key, value⟩ := kv
      cases hassign : assign env key value with
      | none =>
        obtain ⟨hempty, hset⟩ := assign_eq_none.mp hassign
        refine ⟨[], line :: lines, rfl, ?_⟩
        simp only [loadLines, hline, hassign, List.filterMap_nil, effective_nil]
        exact ⟨fun _ => trivial, key, value, rfl, hset, hempty, rfl⟩
      | some env' =>
        obtain ⟨done, rest, rfl, hvalues, hend⟩ := ih env'
        refine ⟨line :: done, rest, rfl, ?_⟩
        simp only [loadLines, hline, hassign, List.filterMap_cons, effective_cons hassign]
        exact ⟨hvalues, hend⟩

/-- **Which value wins.** The lines before the one that cannot be set count, and of the process's
own value and those they assign the first that is not empty; a line that cannot be set ends the
loading. -/
theorem dotenv_precedence (file : File) (env : Env) :
    ∃ done rest, (scanFrom [] file.bytes).1 = done ++ rest ∧
      (∀ key, getenv (loadDotEnv (.ok file) env).1 key =
        effective env (done.filterMap assignment?) key) ∧
      match rest with
      | [] => (loadDotEnv (.ok file) env).2 =
          if (scanFrom [] file.bytes).2 then some .tooLong else file.failure.map .read
      | line :: _ => ∃ key value, assignment? line = some (key, value) ∧
          settable key value = false ∧ effective env (done.filterMap assignment?) key = [] ∧
          (loadDotEnv (.ok file) env).2 = some (.setenv key) := by
  obtain ⟨done, rest, hlines, hvalues, hend⟩ := loadLines_spec env (scanFrom [] file.bytes).1
  refine ⟨done, rest, hlines, ?_⟩
  rw [loadDotEnv_ok]
  refine ⟨hvalues, ?_⟩
  cases rest with
  | nil => rw [hend]
  | cons line rest =>
    obtain ⟨key, value, hassign, hset, hempty, herr⟩ := hend
    exact ⟨key, value, hassign, hset, hempty, by rw [herr]⟩

/-! ## Twice is once -/

theorem isSome_assign {env env' : Env} {key value k : Bytes} (h : assign env key value = some env')
    (present : (env k).isSome = true) : (env' k).isSome = true := by
  unfold assign setenv at h
  split at h
  · split at h
    · cases h
      by_cases hk : k = key
      · subst hk
        simp
      · simpa [hk] using present
    · cases h
  · cases h
    exact present

/-- A variable that is there stays there. -/
theorem isSome_loadLines {env : Env} {k : Bytes} (lines : List Bytes)
    (present : (env k).isSome = true) : ((loadLines env lines).1 k).isSome = true := by
  induction lines generalizing env with
  | nil => exact present
  | cons line lines ih =>
    unfold loadLines
    split
    · exact ih present
    · split
      · exact present
      · rename_i hassign
        exact ih (isSome_assign hassign present)

/-- Assigning what is there already changes nothing. -/
theorem assign_again {env env' : Env} {key value : Bytes} (h : assign env key value = some env')
    (lines : List Bytes) :
    assign (loadLines env' lines).1 key value = some (loadLines env' lines).1 := by
  obtain ⟨done, rest, -, hvalues, -⟩ := loadLines_spec env' lines
  have hkey := hvalues key
  have hwritten := getenv_assign h key
  unfold assign
  by_cases hempty : getenv (loadLines env' lines).1 key = []
  · -- still empty: the value assigned was empty too, and is what stands there
    rw [hempty] at hkey
    have hbefore : getenv env' key = [] := by
      unfold effective at hkey
      rw [firstNonempty_cons] at hkey
      by_contra hne
      rw [if_neg hne] at hkey
      exact hne hkey.symm
    rw [hbefore] at hwritten
    have hunset : getenv env key = [] := by
      by_contra hne
      rw [if_neg fun hboth => hne hboth.2] at hwritten
      exact hne hwritten.symm
    rw [if_pos ⟨rfl, hunset⟩] at hwritten
    subst hwritten
    simp only [assign, hunset, if_true, setenv] at h
    split at h
    · rename_i hset
      cases h
      have hnamed := named_of_settable hset
      have hthere : ((loadLines (Function.update env key (some [])) lines).1 key).isSome = true :=
        isSome_loadLines lines (by simp)
      obtain ⟨v, hv⟩ := Option.isSome_iff_exists.mp hthere
      have hv' : v = [] := by simpa [getenv, hnamed, hv] using hempty
      subst hv'
      rw [if_pos hempty, setenv, if_pos hset]
      refine congrArg some (funext fun k => ?_)
      by_cases hk : k = key
      · rw [hk, Function.update_self, hv]
      · rw [Function.update_of_ne hk]
    · cases h
  · rw [if_neg hempty]

theorem loadLines_again (env : Env) (lines : List Bytes) :
    loadLines (loadLines env lines).1 lines = loadLines env lines := by
  induction lines generalizing env with
  | nil => rfl
  | cons line lines ih =>
    cases hline : assignment? line with
    | none =>
      simp only [loadLines, hline]
      exact ih env
    | some kv =>
      obtain ⟨key, value⟩ := kv
      cases hassign : assign env key value with
      | none => simp only [loadLines, hline, hassign]
      | some env' =>
        simp only [loadLines, hline, hassign, assign_again hassign lines]
        exact ih env'

/-- **Loading a file twice is loading it once.** -/
theorem loadDotEnv_idempotent (opened : Except Bytes File) (env : Env) :
    loadDotEnv opened (loadDotEnv opened env).1 = loadDotEnv opened env := by
  cases opened with
  | error cause => rfl
  | ok file =>
    rw [loadDotEnv_ok, loadDotEnv_ok, loadLines_again]

/-! ## What an operator writes -/

/-- Nothing of it is trimmed away. -/
def Trimmed (s : Bytes) : Prop := ∀ space ∈ spaces, ¬ space <+: s ∧ ¬ space <:+ s

instance (s : Bytes) : Decidable (Trimmed s) := inferInstanceAs (Decidable (∀ _ ∈ _, _))

/-- An assignment that can be written on a line of its own. -/
structure Writable (key value : Bytes) : Prop where
  key_trimmed : Trimmed key
  value_trimmed : Trimmed value
  settable : settable key value = true
  comment : key.head? ≠ some 35
  oneLine : 10 ∉ key ∧ 10 ∉ value
  short : key.length + 1 + value.length ≤ maxLine

instance (key value : Bytes) : Decidable (Writable key value) :=
  decidable_of_iff
    (Trimmed key ∧ Trimmed value ∧ settable key value = true ∧ key.head? ≠ some 35 ∧
      (10 ∉ key ∧ 10 ∉ value) ∧ key.length + 1 + value.length ≤ maxLine)
    ⟨fun ⟨h₁, h₂, h₃, h₄, h₅, h₆⟩ => ⟨h₁, h₂, h₃, h₄, h₅, h₆⟩,
      fun h => ⟨h.1, h.2, h.3, h.4, h.5, h.6⟩⟩

/-- Assignments, one to a line. -/
def written (assignments : List (Bytes × Bytes)) : Bytes :=
  assignments.flatMap fun (key, value) => key ++ 61 :: value ++ [10]

theorem trimLeft_of_not_prefix {cut : List Bytes} {s : Bytes} (h : ∀ piece ∈ cut, ¬ piece <+: s)
    (fuel : Nat) : trimLeft cut fuel s = s := by
  have hnone : cut.find? (·.isPrefixOf s) = none := by
    rw [List.find?_eq_none]
    intro piece hpiece
    rw [List.isPrefixOf_iff_prefix]
    exact h piece hpiece
  cases fuel with
  | zero => rfl
  | succ fuel => rw [trimLeft, hnone]

theorem trimSpace_of_trimmed {s : Bytes} (h : Trimmed s) : trimSpace s = s := by
  have hback : ∀ piece ∈ spaces.map List.reverse, ¬ piece <+: s.reverse := by
    intro piece hpiece
    obtain ⟨space, hspace, rfl⟩ := List.mem_map.mp hpiece
    rw [List.reverse_prefix]
    exact (h space hspace).2
  simp only [trimSpace, trimLeft_of_not_prefix fun space hspace => (h space hspace).1,
    trimLeft_of_not_prefix hback, List.reverse_reverse]

theorem splitAssignment_append {key : Bytes} (plain : 61 ∉ key) (value : Bytes) :
    splitAssignment (key ++ 61 :: value) = some (key, value) := by
  induction key with
  | nil => rfl
  | cons b rest ih =>
    rw [List.mem_cons, not_or] at plain
    simp [splitAssignment, Ne.symm plain.1, ih plain.2]

theorem not_mem_spaces : ∀ space ∈ spaces, 61 ∉ space := by decide

/-- What stands on a line of an assignment is trimmed when both sides are. -/
theorem trimmed_line {key value : Bytes} (hkey : Trimmed key) (hvalue : Trimmed value) :
    Trimmed (key ++ 61 :: value) := by
  intro space hspace
  have hplain := not_mem_spaces space hspace
  constructor
  · intro hfront
    -- a space at the front lies in the key, or it holds the `=`
    rcases Nat.lt_or_ge key.length space.length with hlen | hlen
    · have hhead : key ++ [61] <+: key ++ 61 :: value := ⟨value, by simp⟩
      have hmem := List.prefix_of_prefix_length_le hhead hfront (by simpa [Nat.succ_le_iff] using hlen)
      exact hplain (hmem.subset (by simp))
    · exact (hkey space hspace).1
        (List.prefix_of_prefix_length_le hfront (List.prefix_append _ _) hlen)
  · intro hback
    rcases Nat.lt_or_ge value.length space.length with hlen | hlen
    · have htail : 61 :: value <:+ key ++ 61 :: value := List.suffix_append _ _
      have hmem := List.suffix_of_suffix_length_le htail hback hlen
      exact hplain (hmem.subset List.mem_cons_self)
    · exact (hvalue space hspace).2
        (List.suffix_of_suffix_length_le hback ⟨key ++ [61], by simp⟩ hlen)

theorem assignment?_written {key value : Bytes} (h : Writable key value) :
    assignment? (key ++ 61 :: value) = some (key, value) := by
  have hset := h.settable
  simp only [settable, Bool.and_eq_true, decide_eq_true_eq, Bool.not_eq_true',
    List.contains_eq_mem, decide_eq_false_iff_not] at hset
  obtain ⟨⟨⟨hnamed, hplain⟩, -⟩, -⟩ := hset
  obtain ⟨b, rest, rfl⟩ := List.exists_cons_of_ne_nil hnamed
  have hcomment : b ≠ 35 := fun hb => h.comment (by rw [hb]; rfl)
  simp only [assignment?, trimSpace_of_trimmed (trimmed_line h.key_trimmed h.value_trimmed)]
  rw [if_neg (by simp [hcomment]), splitAssignment_append hplain, Option.map_some,
    trimSpace_of_trimmed h.key_trimmed, trimSpace_of_trimmed h.value_trimmed]

/-- A line that fits is given out whole. -/
theorem scanFrom_line {line text : Bytes} (oneLine : 10 ∉ text)
    (short : line.length + text.length ≤ maxLine) (more : Bytes) :
    scanFrom line (text ++ 10 :: more) =
      (dropCR (line ++ text) :: (scanFrom [] more).1, (scanFrom [] more).2) := by
  induction text generalizing line with
  | nil => simp [scanFrom]
  | cons b rest ih =>
    rw [List.mem_cons, not_or] at oneLine
    rw [List.length_cons] at short
    rw [List.cons_append, scanFrom, if_neg (Ne.symm oneLine.1), if_pos (by omega),
      ih oneLine.2 (by rw [List.length_append, List.length_singleton]; omega), List.append_assoc]
    rfl

theorem dropCR_of_trimmed {line : Bytes} (h : Trimmed line) : dropCR line = line := by
  rw [dropCR, if_neg]
  intro hlast
  obtain ⟨front, rfl⟩ := List.getLast?_eq_some_iff.mp hlast
  exact (h [13] (by decide)).2 (List.suffix_append _ _)

/-- The lines of what is written are the assignments, and nothing is too long. -/
theorem scan_written {assignments : List (Bytes × Bytes)}
    (writable : ∀ a ∈ assignments, Writable a.1 a.2) :
    scanFrom [] (written assignments) = (assignments.map fun a => a.1 ++ 61 :: a.2, false) := by
  induction assignments with
  | nil => rfl
  | cons a rest ih =>
    obtain ⟨key, value⟩ := a
    have ha := writable (key, value) List.mem_cons_self
    have hline : written ((key, value) :: rest) = (key ++ 61 :: value) ++ 10 :: written rest := by
      simp [written]
    have honeLine : 10 ∉ key ++ 61 :: value := by
      simp [ha.oneLine.1, ha.oneLine.2]
    have hshort : ([] : Bytes).length + (key ++ 61 :: value).length ≤ maxLine := by
      have hfits : key.length + 1 + value.length ≤ maxLine := ha.short
      simp only [List.length_nil, List.length_append, List.length_cons]
      omega
    rw [hline, scanFrom_line honeLine hshort, ih fun b hb => writable b (List.mem_cons_of_mem _ hb),
      List.nil_append, dropCR_of_trimmed (trimmed_line ha.key_trimmed ha.value_trimmed)]
    rfl

/-- **What an operator writes is what is read**: every assignment counts, and loading succeeds. -/
theorem dotenv_written {assignments : List (Bytes × Bytes)}
    (writable : ∀ a ∈ assignments, Writable a.1 a.2) (env : Env) :
    (loadDotEnv (.ok ⟨written assignments, none⟩) env).2 = none ∧
      ∀ key, getenv (loadDotEnv (.ok ⟨written assignments, none⟩) env).1 key =
        effective env assignments key := by
  have hparsed : (assignments.map fun a => a.1 ++ 61 :: a.2).filterMap assignment? = assignments := by
    rw [List.filterMap_map]
    refine (List.filterMap_congr fun a ha => ?_).trans List.filterMap_some
    exact assignment?_written (writable a ha)
  obtain ⟨done, rest, hlines, hvalues, hend⟩ :=
    loadLines_spec env (assignments.map fun a => a.1 ++ 61 :: a.2)
  rw [loadDotEnv_ok, scan_written writable]
  cases rest with
  | nil =>
    rw [List.append_nil] at hlines
    rw [← hlines, hparsed] at hvalues
    exact ⟨by rw [hend]; rfl, hvalues⟩
  | cons line rest =>
    obtain ⟨key, value, hassign, hset, -, -⟩ := hend
    have hmem : line ∈ assignments.map fun a => a.1 ++ 61 :: a.2 := by rw [hlines]; simp
    obtain ⟨a, ha, rfl⟩ := List.mem_map.mp hmem
    rw [assignment?_written (writable a ha)] at hassign
    cases hassign
    rw [(writable _ ha).settable] at hset
    cases hset

namespace Sample

/-- The process was started with a chain. -/
def env : Env := fun key => if key = ascii "CHAIN_ID" then some (ascii "8453") else none

/-- Of three lines, the second repeats a variable and the third assigns one that is set. -/
def assignments : List (Bytes × Bytes) :=
  [(ascii "PORT", ascii "80"), (ascii "PORT", ascii "81"), (ascii "CHAIN_ID", ascii "1")]

end Sample

example : ∀ a ∈ Sample.assignments, Writable a.1 a.2 := by decide

example : effective Sample.env Sample.assignments (ascii "PORT") = ascii "80" := by decide

example : effective Sample.env Sample.assignments (ascii "CHAIN_ID") = ascii "8453" := by decide

end VynxRelayer.Startup
