import VynxRelayer.Ingress.Locking

/-!
# Who is inside the lock

What the goroutines of `VynxRelayer.Ingress.Locking` do to the lock, and to the connections.

Each method keeps to the discipline of `VynxRelayer.Lib.Locks` (`Thread.step_moves`), so the lock
always says who is inside. A connection is made by its handler, under the lock, and nobody unmakes
it; its `writePump` and its `readPump` start when the handler launches them, after it has let go of
the lock (`Keeps`, `ServePc.Born`). Both are kept by every step (`inv_step`).
-/

namespace VynxRelayer.Ingress.Locked

open Lib

variable {n : Nat} {s s' : State} {m : Mem} {t : Thread} {c : ClientId} {b : BroadcastId}

/-! ## The discipline of the methods -/

/-- The use a goroutine makes of the lock. -/
def ServePc.use : ServePc → LockUse Empty
  | .announced => .announced
  | .locked => .writing
  | .inserted => .writing
  | _ => .free

@[inherit_doc ServePc.use]
def Stage.use : Stage → LockUse Empty
  | .announced => .announced
  | .locked => .writing
  | .found => .writing
  | .deleted => .writing
  | .leaving => .writing
  | _ => .free

@[inherit_doc ServePc.use]
def CastPc.use : CastPc → LockUse Empty
  | .ranging _ _ _ => .reading
  | .offering _ _ _ _ => .reading
  | .unregistering _ stage _ => stage.use
  | _ => .free

@[inherit_doc ServePc.use]
def RunPc.use : RunPc → LockUse Empty
  | .announced => .announced
  | .ranging => .writing
  | .picked _ => .writing
  | .closed _ => .writing
  | .cleared => .writing
  | _ => .free

@[inherit_doc ServePc.use]
def Thread.use : (t : Thread) → t.Pc → LockUse Empty
  | .serve _, pc => ServePc.use pc
  | .reader _, stage => Stage.use stage
  | .cast _, pc => CastPc.use pc
  | .run, pc => RunPc.use pc

/-- Who uses the lock, and how. -/
def State.use (s : State) (t : Thread) : LockUse Empty := (s.threads t).elim .free t.use

theorem State.use_eq {pc : t.Pc} (standing : s.threads t = some pc) : s.use t = t.use pc := by
  rw [use, standing, Option.elim_some]

theorem State.use_setThread (s : State) (t : Thread) (pc : t.Pc) :
    (s.setThread t pc).use = Function.update s.use t (t.use pc) := by
  funext u
  by_cases hu : u = t
  · subst hu
    rw [Function.update_self]
    exact State.use_eq (Function.update_self ..)
  · rw [Function.update_of_ne hu, State.use, State.use, State.setThread]
    simp only [Function.update_of_ne hu]

/-- `ServeWS` keeps to the discipline. -/
theorem ServePc.step_moves {pc : ServePc} {eff : Effect ServePc}
    (does : pc.step n c m = some eff) : eff.op.Moves pc.use eff.pc.use := by
  cases pc with
  | upgraded => cases does; exact .announce
  | announced => cases does; exact .lock
  | locked => cases does; exact .none
  | inserted => cases does; exact .unlock
  | unlocked | half =>
    obtain ⟨line, _, rfl⟩ := Option.map_eq_some_iff.mp does
    exact .none
  | served => cases does

/-- `unregisterClient` keeps to the discipline. -/
theorem Stage.step_moves {stage : Stage} {eff : Effect Stage} (does : stage.step c m = some eff) :
    eff.op.Moves stage.use eff.pc.use := by
  cases stage with
  | entered => cases does; exact .announce
  | announced => cases does; exact .lock
  | locked =>
    simp only [step] at does
    split at does <;> cases does <;> exact .none
  | found => cases does; exact .none
  | deleted => cases does; exact .none
  | leaving => cases does; exact .unlock
  | done => cases does

theorem offer_moves (b : BroadcastId) (m : Mem) (intent : Ref Intent) (c : ClientId)
    (visited slow : List ClientId) (line : Line) :
    (offer b m intent c visited slow line).op = .none ∧
      (offer b m intent c visited slow line).pc.use = .reading := by
  unfold offer
  split
  · exact ⟨rfl, rfl⟩
  · split <;> exact ⟨rfl, rfl⟩

/-- A call of `unregisterClient` by a broadcast moves as the call does. -/
theorem CastPc.step_unregistering {pick : ClientId} {stage : Stage} {rest : List ClientId}
    (on : stage ≠ .done) :
    (CastPc.unregistering c stage rest).step b m pick =
      (stage.step c m).map (.map (.unregistering c · rest)) := by
  cases stage <;> first | exact absurd rfl on | rfl

/-- `BroadcastIntent` keeps to the discipline. -/
theorem CastPc.step_moves {pick : ClientId} {pc : CastPc} {eff : Effect CastPc}
    (does : pc.step b m pick = some eff) : eff.op.Moves pc.use eff.pc.use := by
  cases pc with
  | entered intent => cases does; exact .rlock
  | ranging intent visited slow =>
    simp only [step] at does
    split at does
    · cases does
      exact .runlock
    · split at does <;> cases does
      exact .none
  | offering intent c visited slow =>
    obtain ⟨line, _, rfl⟩ := Option.map_eq_some_iff.mp does
    obtain ⟨hop, huse⟩ := offer_moves b m intent c visited slow line
    rw [hop, huse]
    exact .none
  | dropping slow => cases slow <;> cases does <;> exact .none
  | unregistering c stage rest =>
    by_cases hdone : stage = .done
    · subst hdone
      cases does
      exact .none
    · rw [step_unregistering hdone] at does
      obtain ⟨eff', hstep, rfl⟩ := Option.map_eq_some_iff.mp does
      exact Stage.step_moves hstep
  | finished => cases does

/-- `Run` keeps to the discipline. -/
theorem RunPc.step_moves {pick : ClientId} {pc : RunPc} {eff : Effect RunPc}
    (does : pc.step m pick = some eff) : eff.op.Moves pc.use eff.pc.use := by
  cases pc with
  | woken => cases does; exact .announce
  | announced => cases does; exact .lock
  | ranging =>
    simp only [step] at does
    split at does
    · cases does
      exact .none
    · split at does <;> cases does
      exact .none
  | picked c => cases does; exact .none
  | closed c => cases does; exact .none
  | cleared => cases does; exact .unlock
  | done => cases does

/-- Every goroutine keeps to the discipline. -/
theorem Thread.step_moves {pick : ClientId} {pc : t.Pc} {eff : Effect t.Pc}
    (does : t.step n m pick pc = some eff) : eff.op.Moves (t.use pc) (t.use eff.pc) := by
  cases t with
  | serve c => exact ServePc.step_moves does
  | reader c => exact Stage.step_moves does
  | cast b => exact CastPc.step_moves does
  | run => exact RunPc.step_moves does

/-! ## What the goroutines have made of the connections -/

/-- What is there of a connection, by where its handler stands. -/
def ServePc.Born (line : Option Line) : ServePc → Prop
  | .upgraded => line = none
  | .announced => line = none
  | .locked => line = none
  | .inserted => ∃ l, line = some l ∧ l.writer = .starting
  | .unlocked => ∃ l, line = some l ∧ l.writer = .starting
  | .half => ∃ l, line = some l
  | .served => ∃ l, line = some l

/-- What a step leaves of a connection that it did not make. -/
structure Keeps (old new : Option Line) : Prop where
  none : old = .none → new = .none
  some : ∀ line, old = .some line → ∃ line', new = .some line' ∧
    (line.writer = .starting → line'.writer = .starting)

theorem Keeps.refl {line : Option Line} : Keeps line line where
  none h := h
  some line h := ⟨line, h, id⟩

theorem Keeps.exists {old new : Option Line} (keeps : Keeps old new) (h : ∃ l, old = .some l) :
    ∃ l, new = .some l := by
  obtain ⟨line, hline⟩ := h
  obtain ⟨line', hline', _⟩ := keeps.some line hline
  exact ⟨line', hline'⟩

theorem ServePc.Born.keeps {pc : ServePc} {old new : Option Line} (born : pc.Born old)
    (keeps : Keeps old new) : pc.Born new := by
  cases pc with
  | upgraded | announced | locked => exact keeps.none born
  | inserted | unlocked =>
    obtain ⟨line, hline, hwriter⟩ := born
    obtain ⟨line', hline', hkept⟩ := keeps.some line hline
    exact ⟨line', hline', hkept hwriter⟩
  | half | served => exact keeps.exists born

theorem Mem.setLine_keeps {line line' : Line} (client : m.lines c = some line)
    (kept : line.writer = .starting → line'.writer = .starting) (c' : ClientId) :
    Keeps (m.lines c') ((m.setLine c line').lines c') := by
  simp only [Mem.setLine]
  by_cases heq : c' = c
  · subst heq
    rw [Function.update_self, client]
    constructor
    · intro h
      cases h
    · intro l hl
      cases hl
      exact ⟨line', rfl, kept⟩
  · rw [Function.update_of_ne heq]
    exact .refl

theorem Mem.close_keeps (m : Mem) (c c' : ClientId) :
    Keeps (m.lines c') ((m.close c).lines c') := by
  unfold Mem.close
  split
  · exact .refl
  · split
    · exact .refl
    · rename_i line client _
      exact Mem.setLine_keeps client (by exact id) c'

/-- `unregisterClient` leaves every connection there. -/
theorem Stage.step_keeps {stage : Stage} {eff : Effect Stage} (does : stage.step c m = some eff)
    (c' : ClientId) : Keeps (m.lines c') (eff.mem.lines c') := by
  cases stage with
  | locked =>
    simp only [step] at does
    split at does <;> cases does <;> exact .refl
  | deleted => cases does; exact m.close_keeps c c'
  | done => cases does
  | _ => cases does; exact .refl

/-- `BroadcastIntent` leaves every connection there. -/
theorem CastPc.step_keeps {pick : ClientId} {pc : CastPc} {eff : Effect CastPc}
    (does : pc.step b m pick = some eff) (c' : ClientId) :
    Keeps (m.lines c') (eff.mem.lines c') := by
  cases pc with
  | ranging intent visited slow =>
    simp only [step] at does
    split at does
    · cases does
      exact .refl
    · split at does <;> cases does
      exact .refl
  | offering intent c visited slow =>
    obtain ⟨line, client, rfl⟩ := Option.map_eq_some_iff.mp does
    unfold offer
    split
    · exact .refl
    · split
      · exact Mem.setLine_keeps client (by exact id) c'
      · exact .refl
  | dropping slow => cases slow <;> cases does <;> exact .refl
  | unregistering c stage rest =>
    by_cases hdone : stage = .done
    · subst hdone
      cases does
      exact .refl
    · rw [step_unregistering hdone] at does
      obtain ⟨eff', hstep, rfl⟩ := Option.map_eq_some_iff.mp does
      exact Stage.step_keeps hstep c'
  | finished => cases does
  | entered intent => cases does; exact .refl

/-- `Run` leaves every connection there. -/
theorem RunPc.step_keeps {pick : ClientId} {pc : RunPc} {eff : Effect RunPc}
    (does : pc.step m pick = some eff) (c' : ClientId) :
    Keeps (m.lines c') (eff.mem.lines c') := by
  cases pc with
  | ranging =>
    simp only [step] at does
    split at does
    · cases does
      exact .refl
    · split at does <;> cases does
      exact .refl
  | picked c => cases does; exact m.close_keeps c c'
  | done => cases does
  | _ => cases does; exact .refl

/-- `ServeWS` leaves the connections of others alone. -/
theorem ServePc.step_other {pc : ServePc} {eff : Effect ServePc} {c' : ClientId}
    (does : pc.step n c m = some eff) (other : c' ≠ c) : eff.mem.lines c' = m.lines c' := by
  cases pc with
  | locked =>
    cases does
    exact Function.update_of_ne other ..
  | unlocked | half =>
    obtain ⟨line, _, rfl⟩ := Option.map_eq_some_iff.mp does
    exact Function.update_of_ne other ..
  | served => cases does
  | _ => cases does; rfl

/-- `ServeWS` makes its connection, and starts what serves it. -/
theorem ServePc.step_born {pc : ServePc} {eff : Effect ServePc} (does : pc.step n c m = some eff)
    (born : pc.Born (m.lines c)) : eff.pc.Born (eff.mem.lines c) := by
  cases pc with
  | locked =>
    cases does
    exact ⟨_, Function.update_self .., rfl⟩
  | unlocked | half =>
    obtain ⟨line, _, rfl⟩ := Option.map_eq_some_iff.mp does
    exact ⟨_, Function.update_self ..⟩
  | served => cases does
  | _ => cases does; exact born

theorem ServePc.step_there {pc : ServePc} {eff : Effect ServePc} (does : pc.step n c m = some eff)
    (there : ∃ line, m.lines c = some line) : ∃ line, eff.mem.lines c = some line := by
  cases pc with
  | locked =>
    cases does
    exact ⟨_, Function.update_self ..⟩
  | unlocked | half =>
    obtain ⟨line, _, rfl⟩ := Option.map_eq_some_iff.mp does
    exact ⟨_, Function.update_self ..⟩
  | served => cases does
  | _ => cases does; exact there

/-- A goroutine keeps every connection but the one it makes. -/
theorem Thread.step_keeps {pick : ClientId} {pc : t.Pc} {eff : Effect t.Pc}
    (does : t.step n m pick pc = some eff) (other : t ≠ .serve c) :
    Keeps (m.lines c) (eff.mem.lines c) := by
  cases t with
  | serve c' =>
    have hne : c ≠ c' := fun heq => other (by rw [heq])
    rw [ServePc.step_other does hne]
    exact .refl
  | reader c' => exact Stage.step_keeps does c
  | cast b => exact CastPc.step_keeps does c
  | run => exact RunPc.step_keeps does c

/-! ## The invariant -/

/-- **The lock and the connections**: the lock says who is inside, a connection is there once its
handler has made it, and only then has it a `readPump`. -/
structure Inv (s : State) : Prop where
  used : s.locks.Used s.use
  unborn : ∀ c, s.threads (.serve c) = none → s.mem.lines c = none
  born : ∀ c (pc : ServePc), s.threads (.serve c) = some pc → pc.Born (s.mem.lines c)
  attached : ∀ c (stage : Stage), s.threads (.reader c) = some stage →
    ∃ line, s.mem.lines c = some line

theorem inv_init : Inv .init where
  used := Locks.used_new
  unborn _ _ := rfl
  born _ _ h := by cases h
  attached _ _ h := by cases h

theorem State.setThread_other {u : Thread} (s : State) (pc : t.Pc) (other : u ≠ t) :
    (s.setThread t pc).threads u = s.threads u := Function.update_of_ne other ..

theorem State.setThread_self (s : State) (t : Thread) (pc : t.Pc) :
    (s.setThread t pc).threads t = some pc := Function.update_self ..

/-- A goroutine begins, outside the lock. -/
theorem Inv.launch {pc : t.Pc} (inv : Inv s) (fresh : s.threads t = none)
    (free : t.use pc = .free) (made : ∀ c, t = .serve c → s.mem.lines c = none →
      ∀ pc' : ServePc, (s.setThread t pc).threads (.serve c) = some pc' → pc'.Born (s.mem.lines c))
    (there : ∀ c, t = .reader c → ∃ line, s.mem.lines c = some line) :
    Inv (s.setThread t pc) where
  used := by
    have huse : s.use t = .free := by rw [State.use, fresh]; rfl
    have hsame : Function.update s.use t (t.use pc) = s.use := by
      rw [free, ← huse, Function.update_eq_self]
    rw [State.use_setThread, hsame]
    exact inv.used
  unborn c hnone := by
    by_cases heq : Thread.serve c = t
    · subst heq
      rw [State.setThread_self] at hnone
      cases hnone
    · rw [State.setThread_other _ _ heq] at hnone
      exact inv.unborn c hnone
  born c pc' standing := by
    by_cases heq : Thread.serve c = t
    · exact made c heq.symm (inv.unborn c (by rw [heq]; exact fresh)) pc' standing
    · rw [State.setThread_other _ _ heq] at standing
      exact inv.born c pc' standing
  attached c stage standing := by
    by_cases heq : Thread.reader c = t
    · exact there c heq.symm
    · rw [State.setThread_other _ _ heq] at standing
      exact inv.attached c stage standing

/-- **What a step preserves.** -/
theorem inv_step {a : Action} {o : Option Hub.Shown} (inv : Inv s) (step : Step n s a s' o) :
    Inv s' := by
  cases step with
  | call fresh => exact inv.launch fresh rfl (fun _ h => by cases h) fun _ h => by cases h
  | @upgrade c fresh =>
    refine inv.launch fresh rfl ?_ fun _ h => by cases h
    intro c' heq hnone pc' standing
    cases heq
    rw [State.setThread_self] at standing
    cases standing
    exact hnone
  | cancel fresh => exact inv.launch fresh rfl (fun _ h => by cases h) fun _ h => by cases h
  | @stopReader c line client reads fresh =>
    refine inv.launch fresh rfl (fun _ h => by cases h) ?_
    intro c' heq
    cases heq
    exact ⟨line, client⟩
  | @step t pick pc eff locks standing does granted =>
    refine ⟨?_, ?_, ?_, ?_⟩
    · have hmoves := Thread.step_moves does
      rw [← State.use_eq standing] at hmoves
      rw [State.use_setThread]
      exact inv.used.apply hmoves granted
    · intro c hnone
      by_cases heq : Thread.serve c = t
      · subst heq
        rw [State.setThread_self] at hnone
        cases hnone
      · rw [State.setThread_other _ _ heq] at hnone
        exact (Thread.step_keeps does (Ne.symm heq)).none (inv.unborn c hnone)
    · intro c pc' hpc
      by_cases heq : Thread.serve c = t
      · subst heq
        rw [State.setThread_self] at hpc
        cases hpc
        exact ServePc.step_born does (inv.born c pc standing)
      · rw [State.setThread_other _ _ heq] at hpc
        exact (inv.born c pc' hpc).keeps (Thread.step_keeps does (Ne.symm heq))
    · intro c stage hstage
      have hthere : ∃ line, s.mem.lines c = some line := by
        by_cases heq : Thread.reader c = t
        · subst heq
          exact inv.attached c pc standing
        · rw [State.setThread_other _ _ heq] at hstage
          exact inv.attached c stage hstage
      by_cases heq : t = .serve c
      · subst heq
        exact ServePc.step_there does hthere
      · exact (Thread.step_keeps does heq).exists hthere
  | @pump c p line line' received client runs pumped =>
    have hkeeps : ∀ c', Keeps (s.mem.lines c') ((s.mem.setLine c line').lines c') := by
      refine Mem.setLine_keeps client ?_
      intro hstarting
      rw [runs] at hstarting
      cases hstarting
    exact ⟨inv.used, fun c' hnone => (hkeeps c').none (inv.unborn c' hnone),
      fun c' pc' hpc => (inv.born c' pc' hpc).keeps (hkeeps c'),
      fun c' stage hstage => (hkeeps c').exists (inv.attached c' stage hstage)⟩

end VynxRelayer.Ingress.Locked
