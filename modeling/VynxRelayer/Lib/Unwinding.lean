import VynxRelayer.Lib.System

/-!
# Deleting steps from a run

Some of a system's steps are **mine**: those that one party cares for. `project` deletes all other
steps from a schedule; `record` lists my steps with what each shows, and `passes` the values that a
view of the state goes through, one entry per change.

A relation `Unwinds` when it survives the steps that are not mine on its first side, when my steps
are answered by the same steps on its second side, showing the same, and when it survives on its
second side the steps of bystanders, which are free to move there as they like. Then deleting every
step that is not mine from a run leaves a run, with bystanders or without, and it has the same record
and passes through the same views (`Unwinds.replay`); and two runs in which I do the same have the
same record and the same passes, whatever the others do in them (`Unwinds.determined`).
-/

namespace Lib.System

variable {σ α ε ω ν : Type} (M : System σ α ε)

section

variable (mine : σ → α → Bool)

/-- A schedule without the steps that are not mine. -/
def project (s : σ) : List α → List α
  | [] => []
  | a :: as =>
    match M.next s a with
    | none => []
    | some (s', _) => if mine s a then a :: project s' as else project s' as

/-- My steps of a schedule, with what each shows. -/
def record (see : Option ε → ω) (s : σ) : List α → List (α × ω)
  | [] => []
  | a :: as =>
    match M.next s a with
    | none => []
    | some (s', o) => if mine s a then (a, see o) :: record see s' as else record see s' as

end

/-- The values a view goes through along a schedule: one for each step that changes it. -/
def passes [DecidableEq ν] (view : σ → ν) (s : σ) : List α → List ν
  | [] => []
  | a :: as =>
    match M.next s a with
    | none => []
    | some (s', _) => if view s' = view s then passes view s' as else view s' :: passes view s' as

/-- **The unwinding conditions.** -/
structure Unwinds (mine : σ → α → Bool) (bystander : α → Bool) (see : Option ε → ω) (view : σ → ν)
    (R : σ → σ → Prop) : Prop where
  /-- A bystander's step is never mine. -/
  apart : ∀ s a, mine s a = true → bystander a = false
  /-- A step that is not mine goes unnoticed. -/
  skip : ∀ s t a s' o, R s t → M.next s a = some (s', o) → mine s a = false → R s' t
  /-- My steps are answered by the same ones. -/
  answer : ∀ s t a s' o, R s t → M.next s a = some (s', o) → mine s a = true →
    mine t a = true ∧ ∃ t' o', M.next t a = some (t', o') ∧ R s' t' ∧ see o' = see o
  /-- A bystander may move at any time. -/
  idle : ∀ s t a t' o, R s t → bystander a = true → M.next t a = some (t', o) → R s t'
  /-- Related states look the same. -/
  alike : ∀ s t, R s t → view t = view s

/-- No bystander is blocked where it is to move. -/
def enabled (bystander : α → Bool) (s : σ) (as : List α) : Bool :=
  M.meets (fun s a => !bystander a || (M.next s a).isSome) s as

variable {M} {mine : σ → α → Bool} {bystander : α → Bool} {see : Option ε → ω} {view : σ → ν}
  {R : σ → σ → Prop} {s s' t : σ} {as bs : List α} {tr : List ε}

/-- What is left of a schedule has no bystanders. -/
theorem Unwinds.filter_project (h : M.Unwinds mine bystander see view R) (s : σ) (as : List α) :
    (M.project mine s as).filter (fun a => !bystander a) = M.project mine s as := by
  induction as generalizing s with
  | nil => rfl
  | cons a as ih =>
    rw [project]
    split
    · rfl
    · split
      · rename_i hmine
        rw [List.filter_cons_of_pos (by simp [h.apart s a hmine]), ih]
      · exact ih _

/-- A schedule without bystanders blocks none. -/
theorem enabled_of_filter (own : as.filter (fun a => !bystander a) = as) :
    M.enabled bystander s as = true := by
  induction as generalizing s with
  | nil => rfl
  | cons a as ih =>
    have hall := List.filter_eq_self.mp own
    have hrest : as.filter (fun a => !bystander a) = as :=
      List.filter_eq_self.mpr fun b hb => hall b (List.mem_cons_of_mem _ hb)
    have hnot : (!bystander a) = true := hall a List.mem_cons_self
    simp only [enabled, meets, hnot, Bool.true_or, Bool.true_and]
    split
    · rfl
    · exact ih hrest

variable [DecidableEq ν]

/-- Bystanders move on. -/
theorem Unwinds.idle_run (h : M.Unwinds mine bystander see view R) {idle : List α}
    (related : R s t) (free : ∀ a ∈ idle, bystander a = true)
    (able : M.enabled bystander t (idle ++ bs) = true) :
    ∃ t' tr', M.run t idle = some (t', tr') ∧ R s t' ∧ M.enabled bystander t' bs = true ∧
      M.record mine see t (idle ++ bs) = M.record mine see t' bs ∧
      M.passes view t (idle ++ bs) = M.passes view t' bs := by
  induction idle generalizing t with
  | nil => exact ⟨t, [], rfl, related, able, rfl, rfl⟩
  | cons a idle ih =>
    have hfree := free a List.mem_cons_self
    have hnot : mine t a = false := by
      cases hmine : mine t a with
      | false => rfl
      | true =>
        rw [h.apart t a hmine] at hfree
        cases hfree
    cases hn : M.next t a with
    | none => simp [enabled, meets, hfree, hn] at able
    | some q =>
      obtain ⟨t₁, o⟩ := q
      have hstill := h.idle s t a t₁ o related hfree hn
      have hsame : view t₁ = view t := (h.alike s t₁ hstill).trans (h.alike s t related).symm
      have hable : M.enabled bystander t₁ (idle ++ bs) = true := by
        simpa [enabled, meets, hfree, hn] using able
      obtain ⟨t', tr', hrun, hR, hable', hrecord, hpasses⟩ :=
        ih hstill (fun b hb => free b (List.mem_cons_of_mem _ hb)) hable
      refine ⟨t', o.toList ++ tr', run_cons_eq_some.mpr ⟨t₁, o, tr', hn, hrun, rfl⟩, hR, hable',
        ?_, ?_⟩
      · simpa [record, hn, hnot] using hrecord
      · simpa [passes, hn, hsame] using hpasses

/-- **Deleting what is not mine leaves a run**, among whatever bystanders, and I see no
difference. -/
theorem Unwinds.replay (h : M.Unwinds mine bystander see view R) (related : R s t)
    (played : M.run s as = some (s', tr))
    (woven : bs.filter (fun a => !bystander a) = M.project mine s as)
    (able : M.enabled bystander t bs = true) :
    ∃ t' tr', M.run t bs = some (t', tr') ∧ R s' t' ∧
      M.record mine see t bs = M.record mine see s as ∧
      M.passes view t bs = M.passes view s as := by
  induction as generalizing s t bs tr with
  | nil =>
    cases played
    have hfree : ∀ a ∈ bs, bystander a = true := by
      simpa [project, List.filter_eq_nil_iff] using woven
    rw [← List.append_nil bs] at able
    obtain ⟨t', tr', hrun, hR, _, hrecord, hpasses⟩ := h.idle_run related hfree able
    rw [List.append_nil] at hrecord hpasses
    exact ⟨t', tr', hrun, hR, hrecord, hpasses⟩
  | cons a as ih =>
    obtain ⟨s₁, o, tr₁, hn, hrun, rfl⟩ := run_cons_eq_some.mp played
    cases hmine : mine s a with
    | false =>
      have hstill := h.skip s t a s₁ o related hn hmine
      have hsame : view s₁ = view s := (h.alike s₁ t hstill).symm.trans (h.alike s t related)
      obtain ⟨t', tr', hrun', hR, hrecord, hpasses⟩ :=
        ih hstill hrun (by simpa [project, hn, hmine] using woven) able
      refine ⟨t', tr', hrun', hR, ?_, ?_⟩
      · simpa [record, hn, hmine] using hrecord
      · simpa [passes, hn, hsame] using hpasses
    | true =>
      rw [project, hn] at woven
      simp only [hmine, if_true] at woven
      -- before my step the bystanders of its stretch move
      obtain ⟨idle, rest, rfl, hidle, _, hrest⟩ := List.filter_eq_cons_iff.mp woven
      obtain ⟨t₁, tr₂, hfirst, hR₁, hable, hrecord₁, hpasses₁⟩ :=
        h.idle_run related (by simpa using hidle) able
      obtain ⟨hmine', t₂, o', hn', hR₂, hsee⟩ := h.answer s t₁ a s₁ o hR₁ hn hmine
      have hable' : M.enabled bystander t₂ rest = true := by
        simpa [enabled, meets, h.apart s a hmine, hn'] using hable
      obtain ⟨t', tr', hrun', hR, hrecord, hpasses⟩ := ih hR₂ hrun hrest hable'
      refine ⟨t', tr₂ ++ (o'.toList ++ tr'), run_append_eq_some.mpr ⟨t₁, tr₂, _, hfirst,
        run_cons_eq_some.mpr ⟨t₂, o', tr', hn', hrun', rfl⟩, rfl⟩, hR, ?_, ?_⟩
      · rw [hrecord₁]
        simp [record, hn, hn', hmine, hmine', hsee, hrecord]
      · rw [hpasses₁]
        simp [passes, hn, hn', h.alike s t₁ hR₁, h.alike s₁ t₂ hR₂, hpasses]

/-- What is left of a run is a run. -/
theorem Unwinds.run_project (h : M.Unwinds mine bystander see view R) (related : R s t)
    (played : M.run s as = some (s', tr)) :
    ∃ t' tr', M.run t (M.project mine s as) = some (t', tr') ∧
      M.record mine see t (M.project mine s as) = M.record mine see s as ∧
      M.passes view t (M.project mine s as) = M.passes view s as := by
  have hown := h.filter_project s as
  obtain ⟨t', tr', hrun, _, hsame⟩ := h.replay related played hown (enabled_of_filter hown)
  exact ⟨t', tr', hrun, hsame⟩

/-- **Two runs in which I do the same look the same to me.** -/
theorem Unwinds.determined (h : M.Unwinds mine bystander see view R) {u t' : σ} {tr' : List ε}
    (related : R s u) (related' : R t u) (played : M.run s as = some (s', tr))
    (played' : M.run t bs = some (t', tr'))
    (same : M.project mine t bs = M.project mine s as) :
    M.record mine see t bs = M.record mine see s as ∧
      M.passes view t bs = M.passes view s as := by
  obtain ⟨_, _, _, hrecord, hpasses⟩ := h.run_project related played
  obtain ⟨_, _, _, hrecord', hpasses'⟩ := h.run_project related' played'
  rw [same] at hrecord' hpasses'
  exact ⟨hrecord'.symm.trans hrecord, hpasses'.symm.trans hpasses⟩

end Lib.System
