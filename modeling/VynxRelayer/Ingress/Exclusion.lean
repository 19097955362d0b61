import VynxRelayer.Ingress.Atomicity

/-!
# The hub neither races nor deadlocks

A **race** is two goroutines about to access the same thing, one of them to change it: the map, or a
channel, where a send and a `close` at once would let the send panic. `shares` is what the next step
of a goroutine looks at or sends on, `owns` what it writes or closes. That they say so rightly is
proved against the methods: a step changes nothing it does not own but the queue it sends on
(`Thread.step_owns`), and what it does depends on nothing else (`Thread.step_shares`). Nobody owns
what another one is about to access (`registry_race_free`).

A **deadlock** is a goroutine that waits for one that cannot move. No method asks for the lock while
it is inside, so whoever waits does so for a goroutine that can move (`hub_never_stuck`).
-/

namespace VynxRelayer.Ingress.Locked

open Lib

variable {n : Nat} {s : State} {m m' : Mem} {t u : Thread} {c : ClientId} {b : BroadcastId}
  {pick : ClientId}

/-! ## Accesses -/

/-- What the goroutines share. -/
inductive Place where
  | clients
  | send (c : ClientId)
  deriving DecidableEq

/-- What the next step reads or sends on. -/
def Stage.shares : Stage → Option Place
  | .locked => some .clients
  | _ => none

/-- What the next step writes or closes. -/
def Stage.owns (c : ClientId) : Stage → Option Place
  | .found => some .clients
  | .deleted => some (.send c)
  | _ => none

@[inherit_doc Stage.shares]
def CastPc.shares : CastPc → Option Place
  | .ranging _ _ _ => some .clients
  | .offering _ c _ _ => some (.send c)
  | .unregistering _ stage _ => stage.shares
  | _ => none

@[inherit_doc Stage.owns]
def CastPc.owns : CastPc → Option Place
  | .unregistering c stage _ => stage.owns c
  | _ => none

@[inherit_doc Stage.shares]
def RunPc.shares : RunPc → Option Place
  | .ranging => some .clients
  | _ => none

@[inherit_doc Stage.owns]
def RunPc.owns : RunPc → Option Place
  | .picked c => some (.send c)
  | .closed _ => some .clients
  | _ => none

@[inherit_doc Stage.owns]
def ServePc.owns : ServePc → Option Place
  | .locked => some .clients
  | _ => none

@[inherit_doc Stage.shares]
def Thread.shares : (t : Thread) → t.Pc → Option Place
  | .serve _, _ => none
  | .reader _, stage => Stage.shares stage
  | .cast _, pc => CastPc.shares pc
  | .run, pc => RunPc.shares pc

@[inherit_doc Stage.owns]
def Thread.owns : (t : Thread) → t.Pc → Option Place
  | .serve _, pc => ServePc.owns pc
  | .reader c, stage => Stage.owns c stage
  | .cast _, pc => CastPc.owns pc
  | .run, pc => RunPc.owns pc

@[inherit_doc Stage.shares]
def State.shares (s : State) (t : Thread) : Option Place := (s.threads t).bind t.shares

@[inherit_doc Stage.owns]
def State.owns (s : State) (t : Thread) : Option Place := (s.threads t).bind t.owns

/-- What a step from memory `m` to memory `m'` may change: what it owns, and the queue it sends on.
-/
structure Owns (shares owns : Option Place) (m m' : Mem) : Prop where
  clients : m'.clients ≠ m.clients → owns = some .clients
  closed : ∀ c line line', m.lines c = some line → m'.lines c = some line' →
    line'.closed ≠ line.closed → owns = some (.send c)
  queue : ∀ c line line', m.lines c = some line → m'.lines c = some line' →
    line'.send ≠ line.send → shares = some (.send c)

theorem Owns.of_lines {shares owns : Option Place} (lines : m'.lines = m.lines)
    (clients : m'.clients ≠ m.clients → owns = some .clients) : Owns shares owns m m' where
  clients := clients
  closed c line line' client client' hne := by
    rw [lines, client] at client'
    cases client'
    exact absurd rfl hne
  queue c line line' client client' hne := by
    rw [lines, client] at client'
    cases client'
    exact absurd rfl hne

theorem Owns.refl {shares owns : Option Place} : Owns shares owns m m :=
  .of_lines rfl fun hne => absurd rfl hne

/-- One connection is written. -/
theorem Owns.of_setLine {shares owns : Option Place} {line line' : Line}
    (client : m.lines c = some line)
    (closed : line'.closed ≠ line.closed → owns = some (.send c))
    (queue : line'.send ≠ line.send → shares = some (.send c)) :
    Owns shares owns m (m.setLine c line') where
  clients hne := absurd rfl hne
  closed c' old new hold hnew hne := by
    rcases update_some_eq_some.mp hnew with ⟨rfl, rfl⟩ | ⟨_, hnew⟩
    · cases client.symm.trans hold
      exact closed hne
    · cases hold.symm.trans hnew
      exact absurd rfl hne
  queue c' old new hold hnew hne := by
    rcases update_some_eq_some.mp hnew with ⟨rfl, rfl⟩ | ⟨_, hnew⟩
    · cases client.symm.trans hold
      exact queue hne
    · cases hold.symm.trans hnew
      exact absurd rfl hne

theorem Owns.of_close {shares : Option Place} (m : Mem) (c : ClientId) :
    Owns shares (some (.send c)) m (m.close c) := by
  unfold Mem.close
  split
  · exact .refl
  · split
    · exact .of_lines rfl fun hne => absurd rfl hne
    · rename_i line client _
      exact .of_setLine client (fun _ => rfl) fun hne => absurd rfl hne

theorem Stage.step_owns {stage : Stage} {eff : Effect Stage} (does : stage.step c m = some eff) :
    Owns stage.shares (stage.owns c) m eff.mem := by
  cases stage with
  | locked =>
    simp only [step] at does
    split at does <;> cases does <;> exact .refl
  | found =>
    cases does
    exact .of_lines rfl fun _ => rfl
  | deleted =>
    cases does
    exact .of_close m c
  | done => cases does
  | _ => cases does; exact .refl

/-- A connection that a handler makes is nobody else's. -/
theorem ServePc.step_owns {pc : ServePc} {eff : Effect ServePc} (does : pc.step n c m = some eff)
    (born : pc.Born (m.lines c)) : Owns none pc.owns m eff.mem := by
  cases pc with
  | locked =>
    cases does
    have hnone : m.lines c = none := born
    have hsame : ∀ c' line line', m.lines c' = some line →
        (m.insert n c).lines c' = some line' → line' = line := by
      intro c' line line' client client'
      rcases update_some_eq_some.mp client' with ⟨rfl, _⟩ | ⟨_, client'⟩
      · rw [hnone] at client
        cases client
      · cases client.symm.trans client'
        rfl
    refine ⟨fun _ => rfl, ?_, ?_⟩
    · intro c' line line' client client' hne
      exact absurd (by rw [hsame c' line line' client client']) hne
    · intro c' line line' client client' hne
      exact absurd (by rw [hsame c' line line' client client']) hne
  | unlocked | half =>
    obtain ⟨line, client, rfl⟩ := Option.map_eq_some_iff.mp does
    exact .of_setLine client (fun hne => absurd rfl hne) fun hne => absurd rfl hne
  | served => cases does
  | _ => cases does; exact .refl

theorem CastPc.step_owns {pc : CastPc} {eff : Effect CastPc} (does : pc.step b m pick = some eff) :
    Owns pc.shares pc.owns m eff.mem := by
  cases pc with
  | ranging intent visited slow =>
    simp only [step] at does
    split at does
    · cases does
      exact .refl
    · split at does <;> cases does
      exact .refl
  | offering intent c visited slow =>
    obtain ⟨line, client, rfl⟩ := Option.map_eq_some_iff.mp does
    unfold offer
    split
    · exact .of_lines rfl fun hne => absurd rfl hne
    · split
      · exact .of_setLine client (fun hne => absurd rfl hne) fun _ => rfl
      · exact .refl
  | dropping slow => cases slow <;> cases does <;> exact .refl
  | unregistering c stage rest =>
    by_cases hdone : stage = .done
    · subst hdone
      cases does
      exact .refl
    · rw [step_unregistering hdone] at does
      obtain ⟨eff', hstage, rfl⟩ := Option.map_eq_some_iff.mp does
      exact Stage.step_owns hstage
  | finished => cases does
  | entered intent => cases does; exact .refl

theorem RunPc.step_owns {pc : RunPc} {eff : Effect RunPc} (does : pc.step m pick = some eff) :
    Owns pc.shares pc.owns m eff.mem := by
  cases pc with
  | ranging =>
    simp only [step] at does
    split at does
    · cases does
      exact .refl
    · split at does <;> cases does
      exact .refl
  | picked c =>
    cases does
    exact .of_close m c
  | closed c =>
    cases does
    exact .of_lines rfl fun _ => rfl
  | done => cases does
  | _ => cases does; exact .refl

/-- **A step changes what it owns, and the queue it sends on.** -/
theorem Inv.step_owns (inv : Inv s) {pc : t.Pc} {eff : Effect t.Pc}
    (standing : s.threads t = some pc) (does : t.step n s.mem pick pc = some eff) :
    Owns (t.shares pc) (t.owns pc) s.mem eff.mem := by
  cases t with
  | serve c => exact ServePc.step_owns does (inv.born c pc standing)
  | reader c => exact Stage.step_owns does
  | cast b => exact CastPc.step_owns does
  | run => exact RunPc.step_owns does

/-- What of a step is not the memory it leaves. -/
def Effect.course {π : Type} (eff : Effect π) : π × LockOp Empty × Option Hub.Shown :=
  (eff.pc, eff.op, eff.shown)

/-- Memories that agree where a step looks, and on which connections there are. -/
structure AgreeFor (shares : Option Place) (m m' : Mem) : Prop where
  clients : shares = some .clients → m'.clients = m.clients
  send : ∀ c, shares = some (.send c) → m'.lines c = m.lines c
  there : ∀ c, (m'.lines c).isSome = (m.lines c).isSome

theorem Stage.step_shares {stage : Stage} (agree : AgreeFor stage.shares m m') :
    (stage.step c m').map Effect.course = (stage.step c m).map Effect.course := by
  cases stage with
  | locked =>
    simp only [step, agree.clients rfl]
    split <;> rfl
  | _ => rfl

theorem CastPc.step_shares {pc : CastPc} (agree : AgreeFor pc.shares m m') :
    (pc.step b m' pick).map Effect.course = (pc.step b m pick).map Effect.course := by
  cases pc with
  | ranging intent visited slow =>
    simp only [step, agree.clients rfl]
    split
    · rfl
    · split <;> rfl
  | offering intent c visited slow =>
    simp only [step, agree.send c rfl]
    cases m.lines c with
    | none => rfl
    | some line =>
      simp only [Option.map_some, offer]
      split
      · rfl
      · split <;> rfl
  | dropping slow => cases slow <;> rfl
  | unregistering c stage rest =>
    by_cases hdone : stage = .done
    · subst hdone
      rfl
    · have hmap : ∀ eff : Effect Stage,
          Effect.course (eff.map (CastPc.unregistering c · rest)) =
            (CastPc.unregistering c eff.course.1 rest, eff.course.2) := fun _ => rfl
      have hstage := congrArg (Option.map fun course : Stage × LockOp Empty × Option Hub.Shown =>
        (CastPc.unregistering c course.1 rest, course.2)) (Stage.step_shares (c := c) agree)
      rw [step_unregistering hdone, step_unregistering hdone]
      simp only [Option.map_map, Function.comp_def, hmap] at hstage ⊢
      exact hstage
  | _ => rfl

theorem RunPc.step_shares {pc : RunPc} (agree : AgreeFor pc.shares m m') :
    (pc.step m' pick).map Effect.course = (pc.step m pick).map Effect.course := by
  cases pc with
  | ranging =>
    simp only [step, agree.clients rfl]
    split
    · rfl
    · split <;> rfl
  | _ => rfl

theorem ServePc.step_shares {pc : ServePc} (agree : AgreeFor none m m') :
    (pc.step n c m').map Effect.course = (pc.step n c m).map Effect.course := by
  have hthere := agree.there c
  cases pc with
  | unlocked | half =>
    simp only [step]
    cases hold : m.lines c <;> cases hnew : m'.lines c <;> simp only [hold, hnew] at hthere
    · rfl
    · cases hthere
    · cases hthere
    · rfl
  | _ => rfl

/-- **What a step does depends on what it shares**: where the goroutine goes, what it asks of the
lock and what is seen of it. -/
theorem Thread.step_shares {pc : t.Pc} (agree : AgreeFor (t.shares pc) m m') :
    (t.step n m' pick pc).map Effect.course = (t.step n m pick pc).map Effect.course := by
  cases t with
  | serve c => exact ServePc.step_shares agree
  | reader c => exact Stage.step_shares agree
  | cast b => exact CastPc.step_shares agree
  | run => exact RunPc.step_shares agree

/-! ## No races -/

theorem Stage.use_of_shares {stage : Stage} {p : Place} (h : stage.shares = some p) :
    stage.use = .writing := by
  cases stage <;> first | rfl | cases h

theorem Stage.use_of_owns {stage : Stage} {p : Place} (h : stage.owns c = some p) :
    stage.use = .writing := by
  cases stage <;> first | rfl | cases h

/-- Whoever accesses anything is inside the lock. -/
theorem State.use_of_shares {p : Place} (h : s.shares t = some p) :
    s.use t = .writing ∨ s.use t = .reading := by
  obtain ⟨pc, standing, hpc⟩ := Option.bind_eq_some_iff.mp h
  rw [State.use_eq standing]
  cases t with
  | serve c => cases hpc
  | reader c => exact .inl (Stage.use_of_shares hpc)
  | cast b =>
    cases pc with
    | ranging intent visited slow => exact .inr rfl
    | offering intent c visited slow => exact .inr rfl
    | unregistering c stage rest => exact .inl (Stage.use_of_shares hpc)
    | _ => cases hpc
  | run => cases pc <;> first | exact .inl rfl | cases hpc

/-- Whoever changes anything is the writer. -/
theorem State.use_of_owns {p : Place} (h : s.owns t = some p) : s.use t = .writing := by
  obtain ⟨pc, standing, hpc⟩ := Option.bind_eq_some_iff.mp h
  rw [State.use_eq standing]
  cases t with
  | serve c => cases pc <;> first | rfl | cases hpc
  | reader c => exact Stage.use_of_owns hpc
  | cast b =>
    cases pc with
    | unregistering c stage rest => exact Stage.use_of_owns hpc
    | _ => cases hpc
  | run => cases pc <;> first | rfl | cases hpc

/-- **No race**, in any state of any run: what a goroutine is about to write or to close, no other
one is about to access. The receive of a `writePump` is not counted: a channel may be closed while
somebody receives from it. -/
theorem registry_race_free {tr : List Hub.Shown} (run : (system n).Path .init tr s) (apart : t ≠ u)
    {p : Place} (owns : s.owns t = some p) : s.shares u ≠ some p ∧ s.owns u ≠ some p := by
  have hused := (reached run).1.used
  have hwrites := State.use_of_owns owns
  constructor
  · intro hshares
    exact apart (hused.alone hwrites (State.use_of_shares hshares))
  · intro howns
    exact apart (hused.alone hwrites (.inl (State.use_of_owns howns)))

namespace Sample

open VynxRelayer.Sample

/-- A broadcast is inside the read lock when a `readPump` has announced itself as a writer, and goes
on to offer its message. -/
def waiting : List Action :=
  .upgrade 0 :: steps (.serve 0) 6 ++ [.call 0 intent] ++ steps (.cast 0) 1 ++ [.stopReader 0] ++
    steps (.reader 0) 1 ++ steps (.cast 0) 1

/-- The broadcast is done with the map, and the `readPump` has found its client. -/
def alone : List Action := waiting ++ steps (.cast 0) 2 ++ steps (.reader 0) 2

def aloneTrace : List Hub.Shown := [.joined 0, .called 0 intent, .slow 0 0, .released 0]

end Sample

/-- A `readPump` is about to delete its client from the map, and nobody else looks at it. -/
theorem registry_race_free_alone : ∃ s, (system 0).Path .init Sample.aloneTrace s ∧
    s.owns (.reader 0) = some .clients ∧
    s.shares (.cast 0) ≠ some .clients ∧ s.owns (.cast 0) ≠ some .clients := by
  have hrun : ∃ s, (system 0).run .init Sample.alone = some (s, Sample.aloneTrace) ∧
      s.owns (.reader 0) = some .clients :=
    ⟨_, rfl, rfl⟩
  obtain ⟨s, hplayed, howns⟩ := hrun
  have hpath := System.path_of_run hplayed
  exact ⟨s, hpath, howns, registry_race_free hpath (by decide) howns⟩

/-! ## No deadlocks -/

/-- The goroutine is at its end. -/
def Thread.ended : (t : Thread) → t.Pc → Bool
  | .serve _, .served => true
  | .reader _, .done => true
  | .cast _, .finished => true
  | .run, .done => true
  | _, _ => false

/-- The goroutine has begun and is not at its end. -/
def State.unfinished (s : State) (t : Thread) : Bool := (s.threads t).any fun pc => !t.ended pc

/-- The goroutine can move, with some choice of `range`. -/
def State.enabled (n : Nat) (s : State) (t : Thread) : Prop :=
  ∃ pick, (next n s (.step t pick)).isSome = true

/-- What a goroutine asks of the lock next. -/
def State.asks (n : Nat) (s : State) (t : Thread) (op : LockOp Empty) : Prop :=
  ∃ pc pick eff, s.threads t = some pc ∧ t.step n s.mem pick pc = some eff ∧ eff.op = op

/-- A goroutine that is granted what it asks for can move. -/
theorem State.enabled_of_granted {op : LockOp Empty} {locks : Locks Thread Empty}
    (asks : s.asks n t op) (granted : s.locks.apply t op = some locks) : s.enabled n t := by
  obtain ⟨pc, pick, eff, standing, does, rfl⟩ := asks
  refine ⟨pick, ?_⟩
  simp only [next, standing, does, granted, Option.map_some, Option.isSome_some]

/-- What a goroutine asks for is within the discipline. -/
theorem State.asks_moves {op : LockOp Empty} (asks : s.asks n t op) :
    ∃ b, op.Moves (s.use t) b := by
  obtain ⟨pc, pick, eff, standing, does, rfl⟩ := asks
  rw [State.use_eq standing]
  exact ⟨_, Thread.step_moves does⟩

theorem Stage.step_of_undone {stage : Stage} (undone : stage ≠ .done) :
    ∃ eff, stage.step c m = some eff := by
  cases stage with
  | done => exact absurd rfl undone
  | locked =>
    simp only [step]
    split <;> exact ⟨_, rfl⟩
  | _ => exact ⟨_, rfl⟩

/-- A broadcast that is not at its end has a next step, for some choice of `range`. -/
theorem CastPc.step_of_unfinished {pc : CastPc} (unfinished : pc ≠ .finished)
    (there : ∀ intent c visited slow, pc = .offering intent c visited slow →
      ∃ line, m.lines c = some line) : ∃ pick eff, pc.step b m pick = some eff := by
  cases pc with
  | finished => exact absurd rfl unfinished
  | entered intent => exact ⟨0, _, rfl⟩
  | ranging intent visited slow =>
    simp only [step]
    by_cases hevery : ∀ c ∈ m.clients, c ∈ visited
    · exact ⟨0, _, if_pos hevery⟩
    · push Not at hevery
      obtain ⟨c, hmem, hnew⟩ := hevery
      refine ⟨c, .go m (.offering intent c visited slow), ?_⟩
      rw [if_neg (fun hevery => hnew (hevery c hmem)), if_pos ⟨hmem, hnew⟩]
  | offering intent c visited slow =>
    obtain ⟨line, client⟩ := there intent c visited slow rfl
    exact ⟨0, _, by rw [step, client, Option.map_some]⟩
  | dropping slow => cases slow <;> exact ⟨0, _, rfl⟩
  | unregistering c stage rest =>
    by_cases hdone : stage = .done
    · subst hdone
      exact ⟨0, _, rfl⟩
    · obtain ⟨eff, hstep⟩ := Stage.step_of_undone (c := c) (m := m) hdone
      exact ⟨0, _, by rw [step_unregistering hdone, hstep, Option.map_some]⟩

/-- `Run`, when it is not at its end, has a next step, for some choice of `range`. -/
theorem RunPc.step_of_unfinished {pc : RunPc} (unfinished : pc ≠ .done) :
    ∃ pick eff, pc.step m pick = some eff := by
  cases pc with
  | done => exact absurd rfl unfinished
  | ranging =>
    simp only [step]
    cases hclients : m.clients with
    | nil => exact ⟨0, _, if_pos rfl⟩
    | cons c rest =>
      refine ⟨c, .go m (.picked c), ?_⟩
      rw [if_neg (List.cons_ne_nil c rest), if_pos List.mem_cons_self]
  | _ => exact ⟨0, _, rfl⟩

/-- `ServeWS`, when it is not at its end, has a next step. -/
theorem ServePc.step_of_unfinished {pc : ServePc} (unfinished : pc ≠ .served)
    (born : pc.Born (m.lines c)) : ∃ eff, pc.step n c m = some eff := by
  cases pc with
  | served => exact absurd rfl unfinished
  | unlocked =>
    obtain ⟨line, client, _⟩ := born
    exact ⟨_, by rw [step, client, Option.map_some]⟩
  | half =>
    obtain ⟨line, client⟩ := born
    exact ⟨_, by rw [step, client, Option.map_some]⟩
  | _ => exact ⟨_, rfl⟩

/-- A goroutine that is not at its end has a next step. -/
theorem Follows.asks_of_unfinished {h : Hub} (f : Follows s h) (inv : Inv s)
    (unfinished : s.unfinished t = true) : ∃ op, s.asks n t op := by
  obtain ⟨pc, standing, hpc⟩ := Option.any_eq_true _ _ |>.mp unfinished
  suffices ∃ pick eff, t.step n s.mem pick pc = some eff by
    obtain ⟨pick, eff, does⟩ := this
    exact ⟨eff.op, pc, pick, eff, standing, does, rfl⟩
  cases t with
  | serve c =>
    have hne : pc ≠ ServePc.served := by
      rintro rfl
      cases hpc
    obtain ⟨eff, does⟩ := ServePc.step_of_unfinished (n := n) hne (inv.born c pc standing)
    exact ⟨0, eff, does⟩
  | reader c =>
    have hne : pc ≠ Stage.done := by
      rintro rfl
      cases hpc
    obtain ⟨eff, does⟩ := Stage.step_of_undone (c := c) (m := s.mem) hne
    exact ⟨0, eff, does⟩
  | cast b =>
    have hne : pc ≠ CastPc.finished := by
      rintro rfl
      cases hpc
    refine CastPc.step_of_unfinished hne ?_
    rintro intent c visited slow rfl
    obtain ⟨line, client, _⟩ := f.line (f.fits _ _ standing).1
    exact ⟨line, client⟩
  | run =>
    have hne : pc ≠ RunPc.done := by
      rintro rfl
      cases hpc
    exact RunPc.step_of_unfinished hne

/-- A goroutine that uses the lock is not at its end. -/
theorem State.unfinished_of_use (uses : s.use t ≠ .free) : s.unfinished t = true := by
  cases hpc : s.threads t with
  | none => simp [State.use, hpc] at uses
  | some pc =>
    rw [State.use_eq hpc] at uses
    rw [State.unfinished, hpc, Option.any_some]
    cases t <;> cases pc <;> first | rfl | exact absurd rfl uses

/-- **Nobody is stuck.** -/
structure NeverStuck (n : Nat) (s : State) : Prop where
  /-- Inside the lock, a goroutine can always move. -/
  inside : ∀ t, (s.use t).inside = true → s.enabled n t
  /-- A goroutine that is not at its end can move, or another one can that is in its way: inside the
  lock, or announced as a writer. -/
  waiting : ∀ t, s.unfinished t = true → s.enabled n t ∨
    ∃ u, u ≠ t ∧ s.enabled n u ∧ ((s.use u).inside = true ∨ s.use u = .announced)

/-- **No deadlock**, in any state of any run. -/
theorem hub_never_stuck {tr : List Hub.Shown} (run : (system n).Path .init tr s) :
    NeverStuck n s := by
  obtain ⟨inv, h, _, f⟩ := reached run
  have hbusy : ∀ t, s.use t ≠ .free → ∃ op, s.asks n t op := fun t uses =>
    f.asks_of_unfinished inv (State.unfinished_of_use uses)
  constructor
  · intro t hinside
    exact Locks.enabled_of_inside hbusy (fun _ _ => State.asks_moves)
      (fun _ _ _ => State.enabled_of_granted) hinside
  · intro t unfinished
    obtain ⟨op, hasks⟩ := f.asks_of_unfinished (n := n) inv unfinished
    exact inv.used.enabled_or_waits hbusy (fun _ _ => State.asks_moves)
      (fun _ _ _ => State.enabled_of_granted) hasks

/-- A `readPump` has announced itself, and waits for a broadcast. -/
theorem hub_never_stuck_waiting : ∃ s,
    (system 0).Path .init [.joined 0, .called 0 VynxRelayer.Sample.intent] s ∧
    s.use (.reader 0) = .announced ∧ s.use (.cast 0) = .reading ∧ NeverStuck 0 s := by
  have hrun : ∃ s, (system 0).run .init Sample.waiting =
        some (s, [.joined 0, .called 0 VynxRelayer.Sample.intent]) ∧
      s.use (.reader 0) = .announced ∧ s.use (.cast 0) = .reading :=
    ⟨_, rfl, rfl, rfl⟩
  obtain ⟨s, hplayed, hreader, hcast⟩ := hrun
  have hpath := System.path_of_run hplayed
  exact ⟨s, hpath, hreader, hcast, hub_never_stuck hpath⟩

end VynxRelayer.Ingress.Locked
