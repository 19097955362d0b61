import VynxRelayer.Auction.Locking

/-!
# Critical sections are atomic

The engine with its locks against the engine of sections.

Each method keeps to the discipline of `VynxRelayer.Lib.Locks`, which is checked step by step
(`StartPc.step_moves` and its like), and writes only what the lock it is inside of guards
(`StartPc.step_frame`). So what a thread has read inside a lock is still there when it acts on it
(`Knows`, kept by `Guarded.others`): the ID that `StartAuction` found free, the slice that `append`
is about to replace, the bids `selectWinner` is going through. With that, a step inside a section is
invisible but for one, at which the section takes place as a whole (`Inv.path`).

The other way round, a section that nobody interrupts does what its single step does
(`concrete_step`).
-/

namespace VynxRelayer.Auction.Locked

open Lib

/-! ## The discipline of the methods -/

/-- The use a thread makes of the locks. -/
def StartPc.use : StartPc → LockUse EntryPtr
  | .announced _ => .announced
  | .locked _ => .writing
  | .refusing _ => .writing
  | .vacant _ => .writing
  | .inserted _ => .writing
  | _ => .free

@[inherit_doc StartPc.use]
def BidPc.use : BidPc → LockUse EntryPtr
  | .rlocked _ => .reading
  | .read _ _ => .reading
  | .holding _ p => .holding p
  | .fetched _ p _ => .holding p
  | .appended _ p => .holding p
  | _ => .free

@[inherit_doc StartPc.use]
def TaskPc.use : TaskPc → LockUse EntryPtr
  | .rlocked => .reading
  | .read _ => .reading
  | .holding p => .holding p
  | .comparing p _ _ _ => .holding p
  | .compared p _ => .holding p
  | .panicking p => .holding p
  | .announced => .announced
  | .locked => .writing
  | .deleted => .writing
  | _ => .free

/-- Who uses which lock. -/
def State.use (s : State) : Thread → LockUse EntryPtr
  | .start c => (s.starts c).elim .free StartPc.use
  | .bid c => (s.bids c).elim .free BidPc.use
  | .task g => (s.tasks g).elim .free fun task => task.pc.use

theorem compareNext_use (p : EntryPtr) (seen : List Bid) (bid : Bid) (rest : List Bid)
    (winner : Option Bid) : (compareNext p seen bid rest winner).use = .holding p := by
  unfold compareNext
  split
  · rfl
  · split <;> rfl

/-- `StartAuction` keeps to the discipline. -/
theorem StartPc.step_moves {c : CallId} {e : Engine} {pc : StartPc} {eff : Effect StartPc}
    (does : pc.step c e = some eff) : eff.op.Moves pc.use eff.pc.use := by
  cases pc with
  | entered intent => cases does; exact .announce
  | announced intent => cases does; exact .lock
  | locked intent =>
    simp only [step] at does
    split at does <;> cases does <;> exact .none
  | refusing intent => cases does; exact .unlock
  | vacant intent => cases does; exact .none
  | inserted intent => cases does; exact .unlock
  | registered intent => cases does; exact .none
  | finished intent err => cases does; exact .none
  | returned => cases does

/-- `SubmitBid` keeps to the discipline. -/
theorem BidPc.step_moves {c : CallId} {e : Engine} {pc : BidPc} {eff : Effect BidPc}
    (does : pc.step c e = some eff) : eff.op.Moves pc.use eff.pc.use := by
  cases pc with
  | entered bid =>
    simp only [step] at does
    split at does <;> cases does <;> exact .none
  | checked bid => cases does; exact .rlock
  | rlocked bid =>
    simp only [step] at does
    split at does <;> cases does <;> exact .none
  | read bid p => cases p <;> cases does <;> exact .runlock
  | located bid p => cases does; exact .hold
  | holding bid p =>
    simp only [step] at does
    split at does <;> cases does
    exact .none
  | fetched bid p seen => cases does; exact .none
  | appended bid p => cases does; exact .release
  | finished bid err => cases does; exact .none
  | returned => cases does

/-- `runAuction` keeps to the discipline. -/
theorem TaskPc.step_moves {g : CallId} {intent : Ref Intent} {e : Engine} {pc : TaskPc}
    {eff : Effect TaskPc} (does : pc.step g intent e = some eff) :
    eff.op.Moves pc.use eff.pc.use := by
  cases pc with
  | launching => cases does
  | waiting => cases does; exact .none
  | fired => cases does; exact .rlock
  | rlocked => cases does; exact .none
  | read p => cases does; exact .runlock
  | located p =>
    cases p with
    | none => cases does; exact .none
    | some p => cases does; exact .hold
  | holding p =>
    simp only [step] at does
    split at does <;> cases does
    exact .none
  | comparing p seen winner rest =>
    cases rest with
    | nil => cases does; exact .none
    | cons bid rest =>
      cases does
      show LockOp.none.Moves (.holding p) (compareNext p seen bid rest winner).use
      rw [compareNext_use]
      exact .none
  | compared p winner => cases does; exact .release
  | panicking p => cases does; exact .release
  | chosen winner =>
    cases winner with
    | none => cases does; exact .none
    | some winner =>
      simp only [step] at does
      split at does <;> cases does <;> exact .none
  | closing => cases does; exact .announce
  | announced => cases does; exact .lock
  | locked => cases does; exact .none
  | deleted => cases does; exact .unlock
  | done | panicked => cases does

/-! ## What a thread knows inside a section -/

/-- What is still true of the memory when a thread acts on what it has read there. -/
def StartPc.Knows (e : Engine) : StartPc → Prop
  | .vacant intent => e.auctions intent.val.id = none
  | _ => True

@[inherit_doc StartPc.Knows]
def BidPc.Knows (e : Engine) : BidPc → Prop
  | .checked bid => checkBid bid = none
  | .rlocked bid => checkBid bid = none
  | .fetched _ p seen => bidsOf e p = some seen
  | _ => True

@[inherit_doc StartPc.Knows]
def TaskPc.Knows (e : Engine) : TaskPc → Prop
  | .comparing p seen winner rest =>
    bidsOf e p = some seen ∧ selectLoop winner rest = selectLoop none seen
  | _ => True

/-- What a step of a thread with use `u` leaves as it was: it writes the map only inside the write
lock, and the bids of an entry inside the entry's mutex, or where there was no entry yet. -/
structure Frame (u : LockUse EntryPtr) (e e' : Engine) : Prop where
  map : u = .writing ∨ e'.auctions = e.auctions
  bids : ∀ p, u = .holding p ∨ bidsOf e p = none ∨ bidsOf e' p = bidsOf e p

theorem Frame.refl (u : LockUse EntryPtr) (e : Engine) : Frame u e e := ⟨.inr rfl, fun _ => .inr (.inr rfl)⟩

theorem bidsOf_insert (e : Engine) (c : CallId) (intent : Ref Intent) (p : EntryPtr) (h : p ≠ c) :
    bidsOf (e.insert c intent) p = bidsOf e p := by
  simp only [bidsOf, Engine.insert, Function.update_of_ne h]

theorem bidsOf_writeBids (e : Engine) (q : EntryPtr) (bids : List Bid) (p : EntryPtr) (h : p ≠ q) :
    bidsOf (writeBids e q bids) p = bidsOf e p := by
  simp only [bidsOf, writeBids, Function.update_of_ne h]

theorem StartPc.step_frame {c : CallId} {e : Engine} {pc : StartPc} {eff : Effect StartPc}
    (does : pc.step c e = some eff) (unborn : ∀ intent, pc = .vacant intent → bidsOf e c = none) :
    Frame pc.use e eff.engine := by
  cases pc with
  | vacant intent =>
    cases does
    refine ⟨.inl rfl, fun p => ?_⟩
    by_cases hp : p = c
    · subst hp
      exact .inr (.inl (unborn intent rfl))
    · exact .inr (.inr (bidsOf_insert e c intent p hp))
  | locked intent =>
    simp only [step] at does
    split at does <;> cases does <;> exact .refl ..
  | returned => cases does
  | _ => cases does; exact .refl ..

theorem BidPc.step_frame {c : CallId} {e : Engine} {pc : BidPc} {eff : Effect BidPc}
    (does : pc.step c e = some eff) : Frame pc.use e eff.engine := by
  cases pc with
  | fetched bid p seen =>
    cases does
    refine ⟨.inr rfl, fun q => ?_⟩
    by_cases hq : q = p
    · subst hq
      exact .inl rfl
    · exact .inr (.inr (bidsOf_writeBids e p _ q hq))
  | entered _ | rlocked _ | holding _ _ =>
    simp only [step] at does
    split at does <;> cases does <;> exact .refl ..
  | read bid p => cases p <;> cases does <;> exact .refl ..
  | returned => cases does
  | _ => cases does; exact .refl ..

theorem TaskPc.step_frame {g : CallId} {intent : Ref Intent} {e : Engine} {pc : TaskPc}
    {eff : Effect TaskPc} (does : pc.step g intent e = some eff) : Frame pc.use e eff.engine := by
  cases pc with
  | locked => cases does; exact ⟨.inl rfl, fun _ => .inr (.inr rfl)⟩
  | located p => cases p <;> cases does <;> exact .refl ..
  | holding p =>
    simp only [step] at does
    split at does <;> cases does
    exact .refl ..
  | comparing p seen winner rest => cases rest <;> cases does <;> exact .refl ..
  | chosen winner =>
    cases winner with
    | none => cases does; exact .refl ..
    | some winner =>
      simp only [step] at does
      split at does <;> cases does
      · exact ⟨.inr rfl, fun _ => .inr (.inr rfl)⟩
      · exact .refl ..
  | launching | done | panicked => cases does
  | _ => cases does; exact .refl ..

/-- A thread goes on to know what it has read in a section, whatever the others write. -/
theorem StartPc.Knows.frame {pc : StartPc} {u : LockUse EntryPtr} {e e' : Engine}
    (knows : pc.Knows e) (frame : Frame u e e') (apart : pc.use = .writing → u ≠ .writing) :
    pc.Knows e' := by
  cases pc with
  | vacant intent =>
    rcases frame.map with hw | hmap
    · exact absurd hw (apart rfl)
    · show e'.auctions _ = none
      rw [hmap]
      exact knows
  | _ => trivial

@[inherit_doc StartPc.Knows.frame]
theorem BidPc.Knows.frame {pc : BidPc} {u : LockUse EntryPtr} {e e' : Engine}
    (knows : pc.Knows e) (frame : Frame u e e')
    (apart : ∀ p, pc.use = .holding p → u ≠ .holding p) : pc.Knows e' := by
  cases pc with
  | fetched bid p seen =>
    have hseen : bidsOf e p = some seen := knows
    rcases frame.bids p with hu | hnone | hsame
    · exact absurd hu (apart p rfl)
    · rw [hseen] at hnone
      cases hnone
    · exact hsame.trans hseen
  | checked bid | rlocked bid => exact knows
  | _ => trivial

@[inherit_doc StartPc.Knows.frame]
theorem TaskPc.Knows.frame {pc : TaskPc} {u : LockUse EntryPtr} {e e' : Engine}
    (knows : pc.Knows e) (frame : Frame u e e')
    (apart : ∀ p, pc.use = .holding p → u ≠ .holding p) : pc.Knows e' := by
  cases pc with
  | comparing p seen winner rest =>
    obtain ⟨hseen, hloop⟩ : bidsOf e p = some seen ∧ _ := knows
    refine ⟨?_, hloop⟩
    rcases frame.bids p with hu | hnone | hsame
    · exact absurd hu (apart p rfl)
    · rw [hseen] at hnone
      cases hnone
    · exact hsame.trans hseen
  | _ => trivial

/-- What a thread knows after its own step. -/
theorem StartPc.step_knows {c : CallId} {e : Engine} {pc : StartPc} {eff : Effect StartPc}
    (does : pc.step c e = some eff) : eff.pc.Knows eff.engine := by
  cases pc with
  | locked intent =>
    simp only [step] at does
    split at does <;> cases does
    · trivial
    · assumption
  | returned => cases does
  | _ => cases does; trivial

@[inherit_doc StartPc.step_knows]
theorem BidPc.step_knows {c : CallId} {e : Engine} {pc : BidPc} {eff : Effect BidPc}
    (does : pc.step c e = some eff) (knows : pc.Knows e) : eff.pc.Knows eff.engine := by
  cases pc with
  | entered bid =>
    simp only [step] at does
    split at does <;> cases does
    · trivial
    · assumption
  | checked bid => cases does; exact knows
  | rlocked bid =>
    simp only [step] at does
    split at does <;> cases does <;> trivial
  | read bid p => cases p <;> cases does <;> trivial
  | holding bid p =>
    simp only [step] at does
    split at does <;> cases does
    assumption
  | returned => cases does
  | _ => cases does; trivial

/-- One turn of the loop goes on with the same selection. -/
theorem compareNext_knows {e : Engine} {p : EntryPtr} {seen : List Bid} {bid : Bid}
    {rest : List Bid} {winner : Option Bid}
    (knows : (TaskPc.comparing p seen winner (bid :: rest)).Knows e) :
    (compareNext p seen bid rest winner).Knows e := by
  obtain ⟨hseen, hloop⟩ : bidsOf e p = some seen ∧ _ := knows
  cases winner with
  | none => exact ⟨hseen, hloop⟩
  | some w =>
    simp only [selectLoop] at hloop
    simp only [compareNext]
    split
    all_goals rename_i hout; rw [hout] at hloop
    · exact ⟨hseen, hloop⟩
    · exact ⟨hseen, hloop⟩
    · trivial

@[inherit_doc StartPc.step_knows]
theorem TaskPc.step_knows {g : CallId} {intent : Ref Intent} {e : Engine} {pc : TaskPc}
    {eff : Effect TaskPc} (does : pc.step g intent e = some eff) (knows : pc.Knows e) :
    eff.pc.Knows eff.engine := by
  cases pc with
  | located p => cases p <;> cases does <;> trivial
  | holding p =>
    simp only [step] at does
    split at does <;> cases does
    exact ⟨‹_›, rfl⟩
  | comparing p seen winner rest =>
    cases rest with
    | nil => cases does; trivial
    | cons bid rest => cases does; exact compareNext_knows knows
  | chosen winner =>
    cases winner with
    | none => cases does; trivial
    | some winner =>
      simp only [step] at does
      split at does <;> cases does <;> trivial
  | launching | done | panicked => cases does
  | _ => cases does; trivial

/-! ## The sections, as steps -/

/-- Where a call stands when its sections are single steps. -/
def StartPc.abstract : StartPc → StartCall
  | .entered intent => .entered intent
  | .announced intent => .entered intent
  | .locked intent => .entered intent
  | .refusing intent => .finished intent (some (.alreadyActive intent.val.id))
  | .vacant intent => .entered intent
  | .inserted intent => .registered intent
  | .registered intent => .registered intent
  | .finished intent err => .finished intent err
  | .returned => .returned

@[inherit_doc StartPc.abstract]
def BidPc.abstract : BidPc → BidCall
  | .entered bid => .entered bid
  | .checked bid => .entered bid
  | .rlocked bid => .entered bid
  | .read bid none => .finished bid (some (.notFound bid.intentID))
  | .read bid (some p) => .located bid p
  | .located bid p => .located bid p
  | .holding bid p => .located bid p
  | .fetched bid p _ => .located bid p
  | .appended bid _ => .finished bid none
  | .finished bid err => .finished bid err
  | .returned => .returned

@[inherit_doc StartPc.abstract]
def TaskPc.abstract : TaskPc → Phase
  | .launching => .launching
  | .waiting => .waiting
  | .fired => .fired
  | .rlocked => .fired
  | .read p => .located p
  | .located p => .located p
  | .holding p => .located (some p)
  | .comparing p _ _ _ => .located (some p)
  | .compared _ winner => .chosen winner
  | .panicking _ => .panicked
  | .chosen winner => .chosen winner
  | .closing => .closing
  | .announced => .closing
  | .locked => .closing
  | .deleted => .done
  | .done => .done
  | .panicked => .panicked

def TaskAt.abstract (task : TaskAt) : Task := ⟨task.intent, task.pc.abstract⟩

/-- The state the threads are in when their sections are single steps. -/
def State.abstract (s : State) : Auction.State where
  engine := s.engine
  starts c := (s.starts c).map StartPc.abstract
  bids c := (s.bids c).map BidPc.abstract
  tasks g := (s.tasks g).map TaskAt.abstract

namespace State

variable (s : State) (c : CallId)

theorem abstract_setStart (pc : StartPc) :
    (s.setStart c pc).abstract = s.abstract.setStart c pc.abstract := by
  have h : (fun x => (Function.update s.starts c (some pc) x).map StartPc.abstract) =
      Function.update (fun x => (s.starts x).map StartPc.abstract) c (some pc.abstract) :=
    funext fun x => Function.apply_update (fun _ => Option.map StartPc.abstract) ..
  simp only [abstract, setStart, Auction.State.setStart, h]

theorem abstract_setBid (pc : BidPc) :
    (s.setBid c pc).abstract = s.abstract.setBid c pc.abstract := by
  have h : (fun x => (Function.update s.bids c (some pc) x).map BidPc.abstract) =
      Function.update (fun x => (s.bids x).map BidPc.abstract) c (some pc.abstract) :=
    funext fun x => Function.apply_update (fun _ => Option.map BidPc.abstract) ..
  simp only [abstract, setBid, Auction.State.setBid, h]

theorem abstract_setTask (task : TaskAt) :
    (s.setTask c task).abstract = s.abstract.setTask c task.intent task.pc.abstract := by
  have h : (fun x => (Function.update s.tasks c (some task) x).map TaskAt.abstract) =
      Function.update (fun x => (s.tasks x).map TaskAt.abstract) c (some task.abstract) :=
    funext fun x => Function.apply_update (fun _ => Option.map TaskAt.abstract) ..
  simp only [abstract, setTask, Auction.State.setTask, h]
  rfl

end State

/-! ## The invariant -/

/-- The locks are with those who use them, and what a thread has read inside one still holds. -/
structure Guarded (s : State) : Prop where
  used : s.locks.Used s.use
  starts : ∀ c pc, s.starts c = some pc → pc.Knows s.engine
  bids : ∀ c pc, s.bids c = some pc → pc.Knows s.engine
  tasks : ∀ g task, s.tasks g = some task → task.pc.Knows s.engine

/-- **The invariant of the engine with its locks.** -/
structure Inv (s : State) : Prop extends Guarded s where
  consistent : Consistent s.abstract

theorem inv_init (cap : Nat) : Inv (.init cap) where
  used := by
    have h : (State.init cap).use = fun _ => .free := by
      funext t
      cases t <;> rfl
    rw [h]
    exact Locks.used_new
  starts := by intro c pc h; cases h
  bids := by intro c pc h; cases h
  tasks := by intro g task h; cases h
  consistent := consistent_init cap

section Uses

variable {s : State}

theorem State.use_start {c : CallId} {pc : StartPc} (call : s.starts c = some pc) :
    s.use (.start c) = pc.use := by
  simp only [use, call, Option.elim_some]

theorem State.use_bid {c : CallId} {pc : BidPc} (call : s.bids c = some pc) :
    s.use (.bid c) = pc.use := by
  simp only [use, call, Option.elim_some]

theorem State.use_task {g : CallId} {task : TaskAt} (at_ : s.tasks g = some task) :
    s.use (.task g) = task.pc.use := by
  simp only [use, at_, Option.elim_some]

theorem State.use_setStart (s : State) (c : CallId) (pc : StartPc) :
    (s.setStart c pc).use = Function.update s.use (.start c) pc.use := by
  funext t
  cases t with
  | start c' =>
    by_cases hc : c' = c
    · subst hc
      simp [use, setStart]
    · simp [use, setStart, hc]
  | bid c' | task c' => simp [use, setStart]

theorem State.use_setBid (s : State) (c : CallId) (pc : BidPc) :
    (s.setBid c pc).use = Function.update s.use (.bid c) pc.use := by
  funext t
  cases t with
  | bid c' =>
    by_cases hc : c' = c
    · subst hc
      simp [use, setBid]
    · simp [use, setBid, hc]
  | start c' | task c' => simp [use, setBid]

theorem State.use_setTask (s : State) (g : CallId) (task : TaskAt) :
    (s.setTask g task).use = Function.update s.use (.task g) task.pc.use := by
  funext t
  cases t with
  | task g' =>
    by_cases hg : g' = g
    · subst hg
      simp [use, setTask]
    · simp [use, setTask, hg]
  | start c' | bid c' => simp [use, setTask]

@[simp]
theorem State.locks_spawn (c : CallId) (task : Option TaskAt) :
    (s.spawn c task).locks = s.locks := by
  cases task <;> rfl

@[simp]
theorem State.engine_spawn (c : CallId) (task : Option TaskAt) :
    (s.spawn c task).engine = s.engine := by
  cases task <;> rfl

@[simp]
theorem State.starts_spawn (c : CallId) (task : Option TaskAt) :
    (s.spawn c task).starts = s.starts := by
  cases task <;> rfl

@[simp]
theorem State.bids_spawn (c : CallId) (task : Option TaskAt) : (s.spawn c task).bids = s.bids := by
  cases task <;> rfl

/-- A goroutine that has not begun to run uses no lock. -/
theorem State.use_spawn {c : CallId} {task : Option TaskAt}
    (quiet : ∀ t, task = some t → t.pc.use = s.use (.task c)) : (s.spawn c task).use = s.use := by
  cases task with
  | none => rfl
  | some t => rw [spawn, use_setTask, quiet t rfl, Function.update_eq_self]

end Uses

/-! ### What a step keeps -/

/-- A step of thread `t` leaves what the other threads know. -/
theorem Guarded.others {s : State} {t : Thread} {e' : Engine} (h : Guarded s)
    (frame : Frame (s.use t) s.engine e') :
    (∀ c pc, t ≠ .start c → s.starts c = some pc → pc.Knows e') ∧
    (∀ c pc, t ≠ .bid c → s.bids c = some pc → pc.Knows e') ∧
    ∀ g task, t ≠ .task g → s.tasks g = some task → task.pc.Knows e' := by
  refine ⟨?_, ?_, ?_⟩
  · intro c pc hne call
    refine (h.starts c pc call).frame frame fun hpc ht => hne ?_
    exact h.used.alone ht (.inl ((State.use_start call).trans hpc))
  · intro c pc hne call
    refine (h.bids c pc call).frame frame fun p hpc ht => hne ?_
    exact h.used.sole ht ((State.use_bid call).trans hpc)
  · intro g task hne at_
    refine (h.tasks g task at_).frame frame fun p hpc ht => hne ?_
    exact h.used.sole ht ((State.use_task at_).trans hpc)

/-- The goroutine a call prepares or launches has not begun to run. -/
theorem Inv.spawns {s : State} {c : CallId} {pc : StartPc} {eff : Effect StartPc} (h : Inv s)
    (call : s.starts c = some pc) (does : pc.step c s.engine = some eff) {task : TaskAt}
    (spawned : eff.task = some task) :
    s.use (.task c) = .free ∧ task.pc.use = .free ∧ ∀ e, task.pc.Knows e := by
  have habs : s.abstract.starts c = some pc.abstract := by
    simp only [State.abstract, call, Option.map_some]
  cases pc with
  | vacant intent =>
    cases does
    cases spawned
    have hnone := h.consistent.unborn c (.inr ⟨intent, habs⟩)
    simp only [State.abstract, Option.map_eq_none_iff] at hnone
    exact ⟨by simp only [State.use, hnone, Option.elim_none], rfl, fun _ => trivial⟩
  | registered intent =>
    cases does
    cases spawned
    have hsome := h.consistent.launching c intent habs
    simp only [State.abstract, Option.map_eq_some_iff] at hsome
    obtain ⟨⟨i, pc⟩, htask, hpc⟩ := hsome
    rw [State.use_task htask]
    refine ⟨?_, rfl, fun _ => trivial⟩
    cases pc <;> cases hpc
    rfl
  | locked intent =>
    simp only [StartPc.step] at does
    split at does <;> cases does <;> cases spawned
  | returned => cases does
  | _ => cases does; cases spawned

/-- A call that is about to insert its entry has none on the heap. -/
theorem Inv.unborn {s : State} (h : Inv s) {c : CallId} {intent : Ref Intent}
    (call : s.starts c = some (.vacant intent)) : bidsOf s.engine c = none := by
  have hnone := h.consistent.unborn c (.inr ⟨intent, by
    simp only [State.abstract, call, Option.map_some, StartPc.abstract]⟩)
  cases hentry : s.engine.entries c with
  | none => simp only [bidsOf, hentry, Option.map_none]
  | some entry =>
    obtain ⟨task, htask⟩ := h.consistent.born c entry hentry
    rw [hnone] at htask
    cases htask

/-- **Every step keeps the locks with those who use them.** -/
theorem Inv.guarded_step {s s' : State} {a : Action} {o : Option Event} (h : Inv s)
    (step : Step s a s' o) : Guarded s' := by
  cases step with
  | @invokeStart c intent fresh =>
    have huse : s.use (.start c) = .free := by simp only [State.use, fresh, Option.elim_none]
    refine ⟨?_, ?_, h.bids, h.tasks⟩
    · rw [State.use_setStart]
      exact h.used.apply (by rw [huse]; exact .none) rfl
    · intro c' pc call
      rcases update_some_eq_some.mp call with ⟨rfl, rfl⟩ | ⟨_, hold⟩
      · trivial
      · exact h.starts c' pc hold
  | @invokeBid c bid fresh =>
    have huse : s.use (.bid c) = .free := by simp only [State.use, fresh, Option.elim_none]
    refine ⟨?_, h.starts, ?_, h.tasks⟩
    · rw [State.use_setBid]
      exact h.used.apply (by rw [huse]; exact .none) rfl
    · intro c' pc call
      rcases update_some_eq_some.mp call with ⟨rfl, rfl⟩ | ⟨_, hold⟩
      · trivial
      · exact h.bids c' pc hold
  | @start c pc eff locks call does granted =>
    have huse := State.use_start call
    have hframe : Frame (s.use (.start c)) s.engine eff.engine := by
      rw [huse]
      exact StartPc.step_frame does fun intent hpc => h.unborn (by rw [call, hpc])
    obtain ⟨hstarts, hbids, htasks⟩ := h.others hframe
    have hquiet : ∀ t, eff.task = some t → t.pc.use = s.use (.task c) := by
      intro t ht
      obtain ⟨hfree, hused, _⟩ := h.spawns call does ht
      rw [hfree, hused]
    refine ⟨?_, ?_, ?_, ?_⟩
    · rw [State.use_setStart, State.use_spawn (s := (s.setEngine _).setLocks locks) hquiet]
      show Locks.Used (State.spawn _ c eff.task).locks _
      rw [State.locks_spawn]
      exact h.used.apply (by rw [huse]; exact StartPc.step_moves does) granted
    · intro c' pc' call'
      show pc'.Knows (State.spawn _ c eff.task).engine
      rw [State.engine_spawn]
      simp only [State.setStart, State.starts_spawn] at call'
      rcases update_some_eq_some.mp call' with ⟨rfl, rfl⟩ | ⟨hne, hold⟩
      · exact StartPc.step_knows does
      · exact hstarts c' pc' (by simpa using Ne.symm hne) hold
    · intro c' pc' call'
      show pc'.Knows (State.spawn _ c eff.task).engine
      rw [State.engine_spawn]
      simp only [State.setStart, State.bids_spawn] at call'
      exact hbids c' pc' (by simp) call'
    · intro g task at_
      show task.pc.Knows (State.spawn _ c eff.task).engine
      rw [State.engine_spawn]
      cases hspawn : eff.task with
      | none =>
        rw [hspawn] at at_
        exact htasks g task (by simp) at_
      | some t =>
        rw [hspawn] at at_
        rcases update_some_eq_some.mp at_ with ⟨rfl, rfl⟩ | ⟨_, hold⟩
        · exact (h.spawns call does hspawn).2.2 _
        · exact htasks g task (by simp) hold
  | @bid c pc eff locks call does granted =>
    have huse := State.use_bid call
    have hframe : Frame (s.use (.bid c)) s.engine eff.engine := by
      rw [huse]
      exact BidPc.step_frame does
    obtain ⟨hstarts, hbids, htasks⟩ := h.others hframe
    refine ⟨?_, ?_, ?_, ?_⟩
    · rw [State.use_setBid]
      exact h.used.apply (by rw [huse]; exact BidPc.step_moves does) granted
    · exact fun c' pc' => hstarts c' pc' (by simp)
    · intro c' pc' call'
      rcases update_some_eq_some.mp call' with ⟨rfl, rfl⟩ | ⟨hne, hold⟩
      · exact BidPc.step_knows does (h.bids _ pc call)
      · exact hbids c' pc' (by simpa using Ne.symm hne) hold
    · exact fun g task => htasks g task (by simp)
  | @task g intent pc eff locks at_ does granted =>
    have huse := State.use_task at_
    have hframe : Frame (s.use (.task g)) s.engine eff.engine := by
      rw [huse]
      exact TaskPc.step_frame does
    obtain ⟨hstarts, hbids, htasks⟩ := h.others hframe
    refine ⟨?_, ?_, ?_, ?_⟩
    · rw [State.use_setTask]
      exact h.used.apply (by rw [huse]; exact TaskPc.step_moves does) granted
    · exact fun c pc' => hstarts c pc' (by simp)
    · exact fun c pc' => hbids c pc' (by simp)
    · intro g' task' at'
      rcases update_some_eq_some.mp at' with ⟨rfl, rfl⟩ | ⟨hne, hold⟩
      · exact TaskPc.step_knows does (h.tasks _ _ at_)
      · exact htasks g' task' (by simpa using Ne.symm hne) hold
  | receive taken => exact { h.toGuarded with }
  | park parked => exact { h.toGuarded with }

/-! ## Every run of the locks is a run of sections -/

theorem abstract_start {s : State} {c : CallId} {pc : StartPc} (call : s.starts c = some pc) :
    s.abstract.starts c = some pc.abstract := by
  simp only [State.abstract, call, Option.map_some]

theorem abstract_bid {s : State} {c : CallId} {pc : BidPc} (call : s.bids c = some pc) :
    s.abstract.bids c = some pc.abstract := by
  simp only [State.abstract, call, Option.map_some]

theorem abstract_task {s : State} {g : CallId} {task : TaskAt} (at_ : s.tasks g = some task) :
    s.abstract.tasks g = some ⟨task.intent, task.pc.abstract⟩ := by
  simp only [State.abstract, at_, Option.map_some, TaskAt.abstract]

/-- A step of `StartAuction` is a section of it, or within one. -/
theorem Inv.start_path {s : State} {c : CallId} {pc : StartPc} {eff : Effect StartPc}
    {locks : Locks Thread EntryPtr} (h : Inv s) (call : s.starts c = some pc)
    (does : pc.step c s.engine = some eff) :
    Auction.system.Path s.abstract eff.shown.toList
      ((((s.setEngine eff.engine).setLocks locks).spawn c eff.task).setStart c eff.pc).abstract := by
  have habs := abstract_start call
  rw [State.abstract_setStart]
  -- within a section, or between two of them, the call does not move
  have hstutter : ∀ pc' : StartPc, pc'.abstract = pc.abstract → Auction.system.Path s.abstract []
      (State.abstract ((s.setEngine s.engine).setLocks locks) |>.setStart c pc'.abstract) := by
    intro pc' hsame
    have heq : s.abstract.setStart c pc'.abstract = s.abstract := by
      rw [hsame, Auction.State.setStart, ← habs, Function.update_eq_self]
    show Auction.system.Path s.abstract [] (s.abstract.setStart c pc'.abstract)
    rw [heq]
    exact .nil
  cases pc with
  | entered intent => cases does; exact hstutter _ rfl
  | announced intent => cases does; exact hstutter _ rfl
  | locked intent =>
    simp only [StartPc.step] at does
    split at does <;> cases does
    · rename_i p hp
      refine System.Path.single (a := .register c) ?_
      have hreg : s.abstract.engine.register c intent = none := by
        simp only [Engine.register, State.abstract, hp]
      simp only [Auction.system, Auction.next, habs, StartPc.abstract, hreg]
      rfl
    · exact hstutter _ rfl
  | refusing intent => cases does; exact hstutter _ rfl
  | vacant intent =>
    cases does
    have hfree : s.engine.auctions intent.val.id = none := h.starts c _ call
    refine System.Path.single (a := .register c) ?_
    have hreg : s.abstract.engine.register c intent = some (s.engine.insert c intent) := by
      simp only [Engine.register, State.abstract, hfree]
    simp only [Auction.system, Auction.next, habs, StartPc.abstract, hreg]
    show _ = some (((((s.setEngine (s.engine.insert c intent)).setLocks locks).setTask c
      ⟨intent, .launching⟩).abstract.setStart c _), _)
    rw [State.abstract_setTask]
    rfl
  | inserted intent => cases does; exact hstutter _ rfl
  | registered intent =>
    cases does
    refine System.Path.single (a := .launch c) ?_
    simp only [Auction.system, Auction.next, habs, StartPc.abstract]
    show _ = some (((((s.setEngine s.engine).setLocks locks).setTask c
      ⟨intent, .waiting⟩).abstract.setStart c _), _)
    rw [State.abstract_setTask]
    rfl
  | finished intent err =>
    cases does
    refine System.Path.single (a := .returnStart c) ?_
    simp only [Auction.system, Auction.next, habs, StartPc.abstract]
    rfl
  | returned => cases does

/-- Storing the slice with the bid appended, while it has not changed since it was read, is
`append`. -/
theorem writeBids_eq_appendBid {e : Engine} {p : EntryPtr} {seen : List Bid} {bid : Bid}
    (h : bidsOf e p = some seen) : writeBids e p (seen ++ [bid]) = e.appendBid p bid := by
  obtain ⟨entry, hentry, rfl⟩ := Option.map_eq_some_iff.mp h
  simp only [writeBids, Engine.appendBid, hentry, Option.map_some]

/-- A step of `SubmitBid` is a section of it, or within one. -/
theorem Inv.bid_path {s : State} {c : CallId} {pc : BidPc} {eff : Effect BidPc}
    {locks : Locks Thread EntryPtr} (h : Inv s) (call : s.bids c = some pc)
    (does : pc.step c s.engine = some eff) :
    Auction.system.Path s.abstract eff.shown.toList
      (((s.setEngine eff.engine).setLocks locks).setBid c eff.pc).abstract := by
  have habs := abstract_bid call
  rw [State.abstract_setBid]
  have hstutter : ∀ pc' : BidPc, pc'.abstract = pc.abstract → Auction.system.Path s.abstract []
      (State.abstract ((s.setEngine s.engine).setLocks locks) |>.setBid c pc'.abstract) := by
    intro pc' hsame
    have heq : s.abstract.setBid c pc'.abstract = s.abstract := by
      rw [hsame, Auction.State.setBid, ← habs, Function.update_eq_self]
    show Auction.system.Path s.abstract [] (s.abstract.setBid c pc'.abstract)
    rw [heq]
    exact .nil
  cases pc with
  | entered bid =>
    simp only [BidPc.step] at does
    split at does <;> cases does
    · rename_i err herr
      refine System.Path.single (a := .lookupBid c) ?_
      simp only [Auction.system, Auction.next, habs, BidPc.abstract, herr]
      rfl
    · exact hstutter _ rfl
  | checked bid => cases does; exact hstutter _ rfl
  | rlocked bid =>
    have hcheck : checkBid bid = none := h.bids c _ call
    simp only [BidPc.step] at does
    split at does
    all_goals
      rename_i hfound
      cases does
      refine System.Path.single (a := .lookupBid c) ?_
      have hlookup : s.abstract.engine.lookup bid.intentID = _ := hfound
      simp only [Auction.system, Auction.next, habs, BidPc.abstract, hcheck, hlookup]
      rfl
  | read bid p => cases p <;> cases does <;> exact hstutter _ rfl
  | located bid p => cases does; exact hstutter _ rfl
  | holding bid p =>
    simp only [BidPc.step] at does
    split at does <;> cases does
    exact hstutter _ rfl
  | fetched bid p seen =>
    cases does
    have hseen : bidsOf s.engine p = some seen := h.bids c _ call
    refine System.Path.single (a := .appendBid c) ?_
    simp only [Auction.system, Auction.next, habs, BidPc.abstract, Effect.show,
      writeBids_eq_appendBid hseen]
    rfl
  | appended bid p => cases does; exact hstutter _ rfl
  | finished bid err =>
    cases does
    refine System.Path.single (a := .returnBid c) ?_
    simp only [Auction.system, Auction.next, habs, BidPc.abstract]
    rfl
  | returned => cases does

/-- A turn of the loop goes on, or panics as the loop does. -/
theorem compareNext_cases (p : EntryPtr) (seen : List Bid) (bid : Bid) (rest : List Bid)
    (winner : Option Bid) :
    (compareNext p seen bid rest winner).abstract = .located (some p) ∨
      compareNext p seen bid rest winner = .panicking p ∧
        selectLoop winner (bid :: rest) = .error .nilDereference := by
  cases winner with
  | none => exact .inl rfl
  | some w =>
    simp only [compareNext, selectLoop]
    split
    · exact .inl rfl
    · exact .inl rfl
    · rename_i hout
      exact .inr ⟨rfl, by rw [hout]⟩

/-- A step of `runAuction` is a section of it, or within one. -/
theorem Inv.task_path {s : State} {g : CallId} {intent : Ref Intent} {pc : TaskPc}
    {eff : Effect TaskPc} {locks : Locks Thread EntryPtr} (h : Inv s)
    (at_ : s.tasks g = some ⟨intent, pc⟩) (does : pc.step g intent s.engine = some eff) :
    Auction.system.Path s.abstract eff.shown.toList
      (((s.setEngine eff.engine).setLocks locks).setTask g ⟨intent, eff.pc⟩).abstract := by
  have habs := abstract_task at_
  rw [State.abstract_setTask]
  have hstutter : ∀ pc' : TaskPc, pc'.abstract = pc.abstract → Auction.system.Path s.abstract []
      (State.abstract ((s.setEngine s.engine).setLocks locks) |>.setTask g intent pc'.abstract) := by
    intro pc' hsame
    have heq : s.abstract.setTask g intent pc'.abstract = s.abstract := by
      rw [hsame, Auction.State.setTask, ← habs, Function.update_eq_self]
    show Auction.system.Path s.abstract [] (s.abstract.setTask g intent pc'.abstract)
    rw [heq]
    exact .nil
  cases pc with
  | launching => cases does
  | waiting =>
    cases does
    refine System.Path.single (a := .fireTimer g) ?_
    simp only [Auction.system, Auction.next, habs, TaskPc.abstract]
    rfl
  | fired => cases does; exact hstutter _ rfl
  | rlocked =>
    cases does
    refine System.Path.single (a := .lookupWinner g) ?_
    simp only [Auction.system, Auction.next, habs, TaskPc.abstract]
    rfl
  | read p => cases does; exact hstutter _ rfl
  | located p =>
    cases p with
    | none =>
      cases does
      refine System.Path.single (a := .selectWinner g) ?_
      simp only [Auction.system, Auction.next, habs, TaskPc.abstract]
      rfl
    | some p => cases does; exact hstutter _ rfl
  | holding p =>
    simp only [TaskPc.step] at does
    split at does <;> cases does
    exact hstutter _ rfl
  | comparing p seen winner rest =>
    obtain ⟨hseen, hloop⟩ : bidsOf s.engine p = some seen ∧ _ := h.tasks g _ at_
    obtain ⟨entry, hentry, hbids⟩ := Option.map_eq_some_iff.mp hseen
    have hentry' : s.abstract.engine.entries p = some entry := hentry
    cases rest with
    | nil =>
      cases does
      have hdone : selectLoop none seen = .ok winner := by
        rw [← hloop]
        cases winner <;> rfl
      refine System.Path.single (a := .selectWinner g) ?_
      simp only [Auction.system, Auction.next, habs, TaskPc.abstract, hentry', hbids, hdone]
      rfl
    | cons bid rest =>
      cases does
      rcases compareNext_cases p seen bid rest winner with hsame | ⟨hpanic, herror⟩
      · exact hstutter _ hsame
      · have hdone : selectLoop none seen = .error .nilDereference := by rw [← hloop, herror]
        refine System.Path.single (a := .selectWinner g) ?_
        simp only [Auction.system, Auction.next, habs, TaskPc.abstract, hentry', hbids, hdone,
          Effect.go, hpanic]
        rfl
  | compared p winner => cases does; exact hstutter _ rfl
  | panicking p => cases does; exact hstutter _ rfl
  | chosen winner =>
    cases winner with
    | none =>
      cases does
      refine System.Path.single (a := .publish g) ?_
      simp only [Auction.system, Auction.next, habs, TaskPc.abstract]
      rfl
    | some winner =>
      simp only [TaskPc.step] at does
      split at does
      all_goals
        rename_i hsend
        cases does
        refine System.Path.single (a := .publish g) ?_
        have hsend' : s.abstract.engine.voucherCh.trySend (voucherFor intent winner) = _ := hsend
        simp only [Auction.system, Auction.next, habs, TaskPc.abstract, hsend']
        rfl
  | closing => cases does; exact hstutter _ rfl
  | announced => cases does; exact hstutter _ rfl
  | locked =>
    cases does
    refine System.Path.single (a := .cleanup g) ?_
    simp only [Auction.system, Auction.next, habs, TaskPc.abstract]
    rfl
  | deleted => cases does; exact hstutter _ rfl
  | done | panicked => cases does

/-- **Every step is within a section, or is one.** -/
theorem Inv.path {s s' : State} {a : Action} {o : Option Event} (h : Inv s)
    (step : Step s a s' o) : Auction.system.Path s.abstract o.toList s'.abstract := by
  cases step with
  | @invokeStart c intent fresh =>
    have habs : s.abstract.starts c = none := by simp only [State.abstract, fresh, Option.map_none]
    refine System.Path.single (a := .invokeStart c intent) ?_
    rw [State.abstract_setStart]
    simp only [Auction.system, Auction.next, habs]
    rfl
  | @invokeBid c bid fresh =>
    have habs : s.abstract.bids c = none := by simp only [State.abstract, fresh, Option.map_none]
    refine System.Path.single (a := .invokeBid c bid) ?_
    rw [State.abstract_setBid]
    simp only [Auction.system, Auction.next, habs]
    rfl
  | start call does granted => exact h.start_path call does
  | bid call does granted => exact h.bid_path call does
  | task at_ does granted => exact h.task_path at_ does
  | @receive v ch taken =>
    refine System.Path.single (a := .receive) ?_
    have htaken : s.abstract.engine.voucherCh.take = some (v, ch) := taken
    simp only [Auction.system, Auction.next, htaken]
    rfl
  | @park ch parked =>
    refine System.Path.single (a := .park) ?_
    have hparked : s.abstract.engine.voucherCh.park = some ch := parked
    simp only [Auction.system, Auction.next, hparked]
    rfl

/-- Every step keeps the invariant. -/
theorem Inv.step {s s' : State} {a : Action} {o : Option Event} (h : Inv s)
    (step : Step s a s' o) : Inv s' where
  toGuarded := h.guarded_step step
  consistent := (h.path step).preserved h.consistent
    fun _ _ _ _ hcons hnext => consistent_step hcons (Auction.next_cases hnext)

theorem inv {cap : Nat} {tr : List Event} {s : State} (run : system.Path (.init cap) tr s) :
    Inv s :=
  run.preserved (inv_init cap) fun _ _ _ _ h hnext => h.step (next_cases hnext)

/-- **A run of the engine with its locks is a run of its sections**, event for event. -/
theorem abstract_path {cap : Nat} {tr : List Event} {s : State}
    (run : system.Path (.init cap) tr s) : Auction.system.Path (.init cap) tr s.abstract := by
  induction run with
  | nil => exact .nil
  | snoc before _ hnext ih => exact ih.trans ((inv before).path (next_cases hnext))

/-! ## Every run of sections is a run of the locks -/

/-- Where a call stands that is in no section. -/
def concreteStart : StartCall → StartPc
  | .entered intent => .entered intent
  | .registered intent => .registered intent
  | .finished intent err => .finished intent err
  | .returned => .returned

@[inherit_doc concreteStart]
def concreteBid : BidCall → BidPc
  | .entered bid => .entered bid
  | .located bid p => .located bid p
  | .finished bid err => .finished bid err
  | .returned => .returned

@[inherit_doc concreteStart]
def concreteTask : Phase → TaskPc
  | .launching => .launching
  | .waiting => .waiting
  | .fired => .fired
  | .located p => .located p
  | .chosen winner => .chosen winner
  | .closing => .closing
  | .done => .done
  | .panicked => .panicked

/-- The state of the engine with its locks in which no thread is in a section. -/
def concrete (s : Auction.State) : State where
  engine := s.engine
  locks := .new
  starts c := (s.starts c).map concreteStart
  bids c := (s.bids c).map concreteBid
  tasks g := (s.tasks g).map fun task => ⟨task.intent, concreteTask task.phase⟩

theorem concrete_setStart (s : Auction.State) (c : CallId) (call : StartCall) :
    concrete (s.setStart c call) = (concrete s).setStart c (concreteStart call) := by
  have h : (fun x => (Function.update s.starts c (some call) x).map concreteStart) =
      Function.update (fun x => (s.starts x).map concreteStart) c (some (concreteStart call)) :=
    funext fun x => Function.apply_update (fun _ => Option.map concreteStart) ..
  simp only [concrete, State.setStart, Auction.State.setStart, h]

theorem concrete_setBid (s : Auction.State) (c : CallId) (call : BidCall) :
    concrete (s.setBid c call) = (concrete s).setBid c (concreteBid call) := by
  have h : (fun x => (Function.update s.bids c (some call) x).map concreteBid) =
      Function.update (fun x => (s.bids x).map concreteBid) c (some (concreteBid call)) :=
    funext fun x => Function.apply_update (fun _ => Option.map concreteBid) ..
  simp only [concrete, State.setBid, Auction.State.setBid, h]

theorem concrete_setTask (s : Auction.State) (g : CallId) (intent : Ref Intent) (phase : Phase) :
    concrete (s.setTask g intent phase) = (concrete s).setTask g ⟨intent, concreteTask phase⟩ := by
  let f : Option Task → Option TaskAt := Option.map fun task => ⟨task.intent, concreteTask task.phase⟩
  have h : (fun x => f (Function.update s.tasks g (some ⟨intent, phase⟩) x)) =
      Function.update (fun x => f (s.tasks x)) g (f (some ⟨intent, phase⟩)) :=
    funext fun x => Function.apply_update (fun _ => f) ..
  show State.mk _ _ _ _ (fun x => f (Function.update s.tasks g (some ⟨intent, phase⟩) x)) = _
  rw [h]
  rfl

/-! ### A thread that is left alone -/

/-- A call of `StartAuction` at `pc`, with nobody else in a section. -/
def aloneStart (s : State) (c : CallId) (pc : StartPc) : State :=
  (s.setLocks (.solo (.start c) pc.use)).setStart c pc

/-- A call of `SubmitBid` at `pc`, with nobody else in a section. -/
def aloneBid (s : State) (c : CallId) (pc : BidPc) : State :=
  (s.setLocks (.solo (.bid c) pc.use)).setBid c pc

/-- A goroutine at `pc`, with nobody else in a section. -/
def aloneTask (s : State) (g : CallId) (intent : Ref Intent) (pc : TaskPc) : State :=
  (s.setLocks (.solo (.task g) pc.use)).setTask g ⟨intent, pc⟩

theorem path_start (s : State) (c : CallId) (pc : StartPc) {eff : Effect StartPc}
    (does : pc.step c s.engine = some eff) :
    system.Path (aloneStart s c pc) eff.shown.toList
      (aloneStart ((s.setEngine eff.engine).spawn c eff.task) c eff.pc) := by
  have hcall : (aloneStart s c pc).starts c = some pc := Function.update_self ..
  have hgranted : (aloneStart s c pc).locks.apply (.start c) eff.op = some _ :=
    Locks.apply_solo _ (StartPc.step_moves does)
  have hdoes : pc.step c (aloneStart s c pc).engine = some eff := does
  refine System.Path.single (a := .step (.start c)) ?_
  simp only [system, next, hcall, hdoes, hgranted, Option.map_some]
  cases eff.task <;>
    simp only [aloneStart, State.setStart, State.setEngine, State.setLocks, State.spawn,
      State.setTask, Function.update_idem]

theorem path_bid (s : State) (c : CallId) (pc : BidPc) {eff : Effect BidPc}
    (does : pc.step c s.engine = some eff) :
    system.Path (aloneBid s c pc) eff.shown.toList (aloneBid (s.setEngine eff.engine) c eff.pc) := by
  have hcall : (aloneBid s c pc).bids c = some pc := Function.update_self ..
  have hgranted : (aloneBid s c pc).locks.apply (.bid c) eff.op = some _ :=
    Locks.apply_solo _ (BidPc.step_moves does)
  have hdoes : pc.step c (aloneBid s c pc).engine = some eff := does
  refine System.Path.single (a := .step (.bid c)) ?_
  simp only [system, next, hcall, hdoes, hgranted, Option.map_some]
  simp only [aloneBid, State.setBid, State.setEngine, State.setLocks, Function.update_idem]

theorem path_task (s : State) (g : CallId) (intent : Ref Intent) (pc : TaskPc)
    {eff : Effect TaskPc} (does : pc.step g intent s.engine = some eff) :
    system.Path (aloneTask s g intent pc) eff.shown.toList
      (aloneTask (s.setEngine eff.engine) g intent eff.pc) := by
  have hcall : (aloneTask s g intent pc).tasks g = some ⟨intent, pc⟩ := Function.update_self ..
  have hgranted : (aloneTask s g intent pc).locks.apply (.task g) eff.op = some _ :=
    Locks.apply_solo _ (TaskPc.step_moves does)
  have hdoes : pc.step g intent (aloneTask s g intent pc).engine = some eff := does
  refine System.Path.single (a := .step (.task g)) ?_
  simp only [system, next, hcall, hdoes, hgranted, Option.map_some]
  simp only [aloneTask, State.setTask, State.setEngine, State.setLocks, Function.update_idem]

/-- A call in no section is alone: what it does next, it does from here. -/
theorem from_start {s : Auction.State} {c : CallId} {call : StartCall} {tr : List Event} {t : State}
    (at_ : s.starts c = some call)
    (h : system.Path (aloneStart (concrete s) c (concreteStart call)) tr t) :
    system.Path (concrete s) tr t := by
  have hsome : (concrete s).starts c = some (concreteStart call) := by
    simp only [concrete, at_, Option.map_some]
  have hfree : (concreteStart call).use = .free := by cases call <;> rfl
  have heq : aloneStart (concrete s) c (concreteStart call) = concrete s := by
    rw [aloneStart, hfree]
    show (concrete s).setStart c _ = concrete s
    rw [State.setStart, ← hsome, Function.update_eq_self]
  rwa [heq] at h

@[inherit_doc from_start]
theorem from_bid {s : Auction.State} {c : CallId} {call : BidCall} {tr : List Event} {t : State}
    (at_ : s.bids c = some call)
    (h : system.Path (aloneBid (concrete s) c (concreteBid call)) tr t) :
    system.Path (concrete s) tr t := by
  have hsome : (concrete s).bids c = some (concreteBid call) := by
    simp only [concrete, at_, Option.map_some]
  have hfree : (concreteBid call).use = .free := by cases call <;> rfl
  have heq : aloneBid (concrete s) c (concreteBid call) = concrete s := by
    rw [aloneBid, hfree]
    show (concrete s).setBid c _ = concrete s
    rw [State.setBid, ← hsome, Function.update_eq_self]
  rwa [heq] at h

@[inherit_doc from_start]
theorem from_task {s : Auction.State} {g : CallId} {intent : Ref Intent} {phase : Phase}
    {tr : List Event} {t : State} (at_ : s.tasks g = some ⟨intent, phase⟩)
    (h : system.Path (aloneTask (concrete s) g intent (concreteTask phase)) tr t) :
    system.Path (concrete s) tr t := by
  have hsome : (concrete s).tasks g = some ⟨intent, concreteTask phase⟩ := by
    simp only [concrete, at_, Option.map_some]
  have hfree : (concreteTask phase).use = .free := by cases phase <;> rfl
  have heq : aloneTask (concrete s) g intent (concreteTask phase) = concrete s := by
    rw [aloneTask, hfree]
    show (concrete s).setTask g _ = concrete s
    rw [State.setTask, ← hsome, Function.update_eq_self]
  rwa [heq] at h

/-- The loop of `selectWinner`, run to its end. -/
theorem path_loop {s : State} {g : CallId} {intent : Ref Intent} {p : EntryPtr} {seen : List Bid}
    {rest : List Bid} : ∀ {winner : Option Bid},
    (∀ w, selectLoop winner rest = .ok w →
      system.Path (aloneTask s g intent (.comparing p seen winner rest))
        [.selected g p seen w] (aloneTask s g intent (.compared p w))) ∧
    (selectLoop winner rest = .error .nilDereference →
      system.Path (aloneTask s g intent (.comparing p seen winner rest)) []
        (aloneTask s g intent (.panicking p))) := by
  induction rest with
  | nil =>
    intro winner
    have hdone : selectLoop winner [] = .ok winner := by cases winner <;> rfl
    rw [hdone]
    refine ⟨?_, fun h => by cases h⟩
    rintro _ ⟨⟩
    exact path_task s g intent (.comparing p seen winner []) rfl
  | cons bid rest ih =>
    intro winner
    have hturn : system.Path (aloneTask s g intent (.comparing p seen winner (bid :: rest))) []
        (aloneTask s g intent (compareNext p seen bid rest winner)) :=
      path_task s g intent (.comparing p seen winner (bid :: rest)) rfl
    cases winner with
    | none => exact ⟨fun w hw => hturn.trans (ih.1 w hw), fun h => hturn.trans (ih.2 h)⟩
    | some best =>
      simp only [compareNext] at hturn
      simp only [selectLoop]
      cases hout : outbids bid best with
      | error panic =>
        cases panic
        rw [hout] at hturn
        exact ⟨fun w hw => (by cases hw), fun _ => hturn⟩
      | ok better =>
        rw [hout] at hturn
        cases better <;>
          exact ⟨fun w hw => hturn.trans (ih.1 w hw), fun h => hturn.trans (ih.2 h)⟩

/-- `StartAuction` up to the check of the map. -/
theorem path_lock (s : State) (c : CallId) (intent : Ref Intent) :
    system.Path (aloneStart s c (.entered intent)) [] (aloneStart s c (.locked intent)) :=
  (path_start s c (.entered intent) rfl).trans (path_start s c (.announced intent) rfl)

/-- `StartAuction` where the ID is in flight. -/
theorem path_refuse {s : State} {c : CallId} {intent : Ref Intent} {p : EntryPtr}
    (active : s.engine.auctions intent.val.id = some p) :
    system.Path (aloneStart s c (.entered intent)) [.refused c intent]
      (aloneStart s c (.finished intent (some (.alreadyActive intent.val.id)))) := by
  have hcheck : StartPc.step c s.engine (.locked intent) =
      some (.show s.engine (.refusing intent) (.refused c intent)) := by
    simp only [StartPc.step, active]
  exact ((path_lock s c intent).trans (path_start s c _ hcheck)).trans
    (path_start s c (.refusing intent) rfl)

/-- `StartAuction` where the ID is free, up to the `go` statement. -/
theorem path_register {s : State} {c : CallId} {intent : Ref Intent}
    (free : s.engine.auctions intent.val.id = none) :
    system.Path (aloneStart s c (.entered intent)) [.registered c intent]
      (aloneStart ((s.setEngine (s.engine.insert c intent)).setTask c ⟨intent, .launching⟩) c
        (.registered intent)) := by
  have hcheck : StartPc.step c s.engine (.locked intent) = some (.go s.engine (.vacant intent)) := by
    simp only [StartPc.step, free]
  have hinsert := path_start s c (.vacant intent) rfl
  exact (((path_lock s c intent).trans (path_start s c _ hcheck)).trans hinsert).trans
    (path_start _ c (.inserted intent) rfl)

/-- `SubmitBid` up to the map read. -/
theorem path_rlock {s : State} {c : CallId} {bid : Bid} (priced : bid.Priced) :
    system.Path (aloneBid s c (.entered bid)) [] (aloneBid s c (.rlocked bid)) := by
  have hcheck : BidPc.step c s.engine (.entered bid) = some (.go s.engine (.checked bid)) := by
    simp only [BidPc.step, checkBid_eq_none.mpr priced]
  exact (path_bid s c _ hcheck).trans (path_bid s c (.checked bid) rfl)

/-- The map read of `SubmitBid`, where there is no auction. -/
theorem path_miss {s : State} {c : CallId} {bid : Bid} (priced : bid.Priced)
    (absent : s.engine.auctions bid.intentID = none) :
    system.Path (aloneBid s c (.entered bid)) [.missed c bid]
      (aloneBid s c (.finished bid (some (.notFound bid.intentID)))) := by
  have hread : BidPc.step c s.engine (.rlocked bid) =
      some (.show s.engine (.read bid none) (.missed c bid)) := by
    simp only [BidPc.step, absent]
  exact ((path_rlock priced).trans (path_bid s c _ hread)).trans
    (path_bid s c (.read bid none) rfl)

/-- The map read of `SubmitBid`, where there is one. -/
theorem path_locate {s : State} {c : CallId} {bid : Bid} {p : EntryPtr} (priced : bid.Priced)
    (found : s.engine.auctions bid.intentID = some p) :
    system.Path (aloneBid s c (.entered bid)) [] (aloneBid s c (.located bid p)) := by
  have hread : BidPc.step c s.engine (.rlocked bid) =
      some (.go s.engine (.read bid (some p))) := by
    simp only [BidPc.step, found]
  exact ((path_rlock priced).trans (path_bid s c _ hread)).trans
    (path_bid s c (.read bid (some p)) rfl)

/-- `submitBidLocked` inside the mutex of the entry. -/
theorem path_append {s : State} {c : CallId} {p : EntryPtr} {entry : AuctionEntry} (bid : Bid)
    (object : s.engine.entries p = some entry) :
    system.Path (aloneBid s c (.located bid p)) [.appended c bid p]
      (aloneBid (s.setEngine (s.engine.appendBid p bid)) c (.finished bid none)) := by
  have hseen : bidsOf s.engine p = some entry.bids := by
    simp only [bidsOf, object, Option.map_some]
  have hfetch : BidPc.step c s.engine (.holding bid p) =
      some (.go s.engine (.fetched bid p entry.bids)) := by
    simp only [BidPc.step, hseen]
  have hstore := path_bid s c (.fetched bid p entry.bids) rfl
  simp only [Effect.show, writeBids_eq_appendBid hseen] at hstore
  exact (((path_bid s c (.located bid p) rfl).trans (path_bid s c _ hfetch)).trans hstore).trans
    (path_bid _ c (.appended bid p) rfl)

/-- `selectWinner` inside the mutex of the entry, up to its loop. -/
theorem path_range {s : State} {p : EntryPtr} {entry : AuctionEntry} (g : CallId)
    (intent : Ref Intent) (object : s.engine.entries p = some entry) :
    system.Path (aloneTask s g intent (.located (some p))) []
      (aloneTask s g intent (.comparing p entry.bids none entry.bids)) := by
  have hseen : bidsOf s.engine p = some entry.bids := by
    simp only [bidsOf, object, Option.map_some]
  have hrange : TaskPc.step g intent s.engine (.holding p) =
      some (.go s.engine (.comparing p entry.bids none entry.bids)) := by
    simp only [TaskPc.step, hseen]
  exact (path_task s g intent (.located (some p)) rfl).trans (path_task s g intent _ hrange)

/-- **Every section can be run through**, and shows what it shows as a single step. -/
theorem concrete_step {s s' : Auction.State} {a : Auction.Action} {o : Option Event}
    (consistent : Consistent s) (step : Auction.Step s a s' o) :
    system.Path (concrete s) o.toList (concrete s') := by
  cases step with
  | @invokeStart c intent fresh =>
    rw [concrete_setStart]
    have hfresh : (concrete s).starts c = none := by simp only [concrete, fresh, Option.map_none]
    refine System.Path.single (a := .invokeStart c intent) ?_
    simp only [system, next, hfresh]
    rfl
  | @refuse c intent p call active =>
    rw [concrete_setStart]
    have h := path_refuse (s := concrete s) (c := c) active
    exact from_start call h
  | @register c intent call free =>
    rw [concrete_setStart, concrete_setTask]
    have h := path_register (s := concrete s) (c := c) free
    exact from_start call h
  | @launch c intent call =>
    rw [concrete_setStart, concrete_setTask]
    have h := path_start (concrete s) c (.registered intent) rfl
    exact from_start call h
  | @returnStart c intent err call =>
    rw [concrete_setStart]
    have h := path_start (concrete s) c (.finished intent err) rfl
    exact from_start call h
  | @invokeBid c bid fresh =>
    rw [concrete_setBid]
    have hfresh : (concrete s).bids c = none := by simp only [concrete, fresh, Option.map_none]
    refine System.Path.single (a := .invokeBid c bid) ?_
    simp only [system, next, hfresh]
    rfl
  | @checkFails c bid err call bad =>
    rw [concrete_setBid]
    have hcheck : BidPc.step c (concrete s).engine (.entered bid) =
        some (.go (concrete s).engine (.finished bid (some err))) := by
      simp only [BidPc.step, bad]
    have h := path_bid (concrete s) c _ hcheck
    exact from_bid call h
  | @miss c bid call priced absent =>
    rw [concrete_setBid]
    have h := path_miss (s := concrete s) (c := c) priced absent
    exact from_bid call h
  | @locate c bid p call priced found =>
    rw [concrete_setBid]
    have h := path_locate (s := concrete s) (c := c) priced found
    exact from_bid call h
  | @append c bid p call =>
    rw [concrete_setBid]
    obtain ⟨_, entry, hentry, _⟩ := consistent.held c bid p call
    have h := path_append (s := concrete s) (c := c) bid hentry
    exact from_bid call h
  | @returnBid c bid err call =>
    rw [concrete_setBid]
    have h := path_bid (concrete s) c (.finished bid err) rfl
    exact from_bid call h
  | @fireTimer g intent task =>
    rw [concrete_setTask]
    have h := path_task (concrete s) g intent .waiting rfl
    exact from_task task h
  | @lookupWinner g intent task =>
    rw [concrete_setTask]
    have h := ((path_task (concrete s) g intent .fired rfl).trans
      (path_task (concrete s) g intent .rlocked rfl)).trans
        (path_task (concrete s) g intent (.read (s.engine.auctions intent.val.id)) rfl)
    exact from_task task h
  | @selectNil g intent task =>
    rw [concrete_setTask]
    have h := path_task (concrete s) g intent (.located none) rfl
    exact from_task task h
  | @select g intent p entry winner task object loop =>
    rw [concrete_setTask]
    have h := ((path_range (s := concrete s) g intent object).trans
      (path_loop.1 winner loop)).trans (path_task _ g intent (.compared p winner) rfl)
    exact from_task task h
  | @selectPanics g intent p entry task object loop =>
    rw [concrete_setTask]
    have h := ((path_range (s := concrete s) g intent object).trans
      (path_loop.2 loop)).trans (path_task _ g intent (.panicking p) rfl)
    exact from_task task h
  | @noBids g intent task =>
    rw [concrete_setTask]
    have h := path_task (concrete s) g intent (.chosen none) rfl
    exact from_task task h
  | @emit g intent winner ch task sent =>
    rw [concrete_setTask]
    have hsend : TaskPc.step g intent (concrete s).engine (.chosen (some winner)) =
        some (.show { s.engine with voucherCh := ch } .closing
          (.emitted g (voucherFor intent winner))) := by
      have hsent : (concrete s).engine.voucherCh.trySend (voucherFor intent winner) = some ch := sent
      simp only [TaskPc.step, hsent]
      rfl
    have h := path_task (concrete s) g intent _ hsend
    exact from_task task h
  | @drop g intent winner task full =>
    rw [concrete_setTask]
    have hsend : TaskPc.step g intent (concrete s).engine (.chosen (some winner)) =
        some (.show s.engine .closing (.dropped g (voucherFor intent winner))) := by
      have hfull : (concrete s).engine.voucherCh.trySend (voucherFor intent winner) = none := full
      simp only [TaskPc.step, hfull]
      rfl
    have h := path_task (concrete s) g intent _ hsend
    exact from_task task h
  | @cleanup g intent task =>
    rw [concrete_setTask]
    have h := (((path_task (concrete s) g intent .closing rfl).trans
      (path_task (concrete s) g intent .announced rfl)).trans
        (path_task (concrete s) g intent .locked rfl)).trans
          (path_task _ g intent .deleted rfl)
    exact from_task task h
  | @receive v ch taken =>
    refine System.Path.single (a := .receive) ?_
    have htaken : (concrete s).engine.voucherCh.take = some (v, ch) := taken
    simp only [system, next, htaken]
    rfl
  | @park ch parked =>
    refine System.Path.single (a := .park) ?_
    have hparked : (concrete s).engine.voucherCh.park = some ch := parked
    simp only [system, next, hparked]
    rfl

/-- Outside their sections the threads stand where they stood. -/
theorem abstract_concrete (s : Auction.State) : (concrete s).abstract = s := by
  have hstart : StartPc.abstract ∘ concreteStart = id := by
    funext call
    cases call <;> rfl
  have hbid : BidPc.abstract ∘ concreteBid = id := by
    funext call
    cases call <;> rfl
  have htask : (TaskAt.abstract ∘ fun task : Task => ⟨task.intent, concreteTask task.phase⟩) = id := by
    funext ⟨intent, phase⟩
    cases phase <;> rfl
  simp only [concrete, State.abstract, Option.map_map, hstart, hbid, htask, Option.map_id, id]

/-- A run of sections, with every section run through. -/
theorem concrete_path {cap : Nat} {tr : List Event} {t : Auction.State}
    (run : Auction.system.Path (.init cap) tr t) : system.Path (.init cap) tr (concrete t) := by
  induction run with
  | nil => exact .nil
  | snoc before _ hnext ih =>
    exact ih.trans (concrete_step (consistent before) (Auction.next_cases hnext))

/-- **Critical sections are atomic.** The engine of sections reaches a state along a trace exactly
when the engine with its locks does, with its threads at the same points: whatever threads do inside
their sections at the same time, nothing else is seen than when one section is executed after the
other, and every order of sections is possible. -/
theorem sections_atomic {cap : Nat} {tr : List Event} {t : Auction.State} :
    Auction.system.Path (.init cap) tr t ↔
      ∃ s, system.Path (.init cap) tr s ∧ s.abstract = t := by
  constructor
  · intro run
    exact ⟨concrete t, concrete_path run, abstract_concrete t⟩
  · rintro ⟨s, run, rfl⟩
    exact abstract_path run

end VynxRelayer.Auction.Locked
