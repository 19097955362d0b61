import VynxRelayer.Ingress.Discipline

/-!
# A hub of sections that follows

The hub with its lock beside the hub of sections (`VynxRelayer.Ingress.Membership`).

What a section does takes place at one of its steps: a registration where the map is written, an
unregistration where the channel is closed, or where the client was not found, and the shutdown
where its loop finds the map empty. Until then the hub of sections is behind: between the `delete`
and the `close` of `unregisterClient` it still has the client, and while `Run` is in its loop it
still has every client that was there, with an open channel. `Follows` says so, by where the
goroutine inside the lock stands (`Thread.Fits`). Nobody else can see the difference: whoever reads
the map or sends on a channel is inside the lock.

`Follows.thread` puts a step of one goroutine together from what it does to the map, the queues and
the broadcasts. The lemmas after it say what of the last two a step leaves as it was.
-/

namespace VynxRelayer.Ingress

open Lib

namespace Locked

variable {n : Nat} {s s' : State} {m m' : Mem} {h h' : Hub} {t : Thread} {c : ClientId}
  {b : BroadcastId} {all : List ClientId}

/-! ## What the hub of sections has of the goroutines -/

/-- The unregistration has taken place. -/
def Stage.past : Stage → Bool
  | .leaving => true
  | .done => true
  | _ => false

/-- The `readPump` of a connection. -/
def readerOf : Option Stage → Reader
  | none => .reading
  | some stage => if stage.past then .left else .leaving

/-- A broadcast, with `all` in the map. -/
def CastPc.view (all : List ClientId) : CastPc → Broadcast
  | .entered intent => .entered intent
  | .ranging intent visited slow => .sending intent (all.diff visited) slow
  | .offering intent _ visited slow => .sending intent (all.diff visited) slow
  | .dropping slow => .dropping slow
  | .unregistering c stage rest => .dropping (if stage.past then rest else c :: rest)
  | .finished => .finished

/-- A connection; `lag` says that the hub of sections has yet to close its channel. -/
def Line.view (line : Line) (reader : Reader) (lag : Bool) : Session where
  send := line.send
  closed := line.closed && !lag
  reader := reader
  writing := line.writer ≠ .stopped

/-- `Run` is in its loop. -/
def RunPc.clearing : RunPc → Bool
  | .ranging => true
  | .picked _ => true
  | .closed _ => true
  | _ => false

namespace State

@[inherit_doc RunPc.clearing]
def clearing (s : State) : Bool := (s.threads .run).any RunPc.clearing

def lag (s : State) (all : List ClientId) (c : ClientId) : Bool := s.clearing && decide (c ∈ all)

/-- The connections, with `all` in the map. -/
def sessions (s : State) (all : List ClientId) (c : ClientId) : Option Session :=
  (s.mem.lines c).map fun line => line.view (readerOf (s.threads (.reader c))) (s.lag all c)

/-- The broadcasts, with `all` in the map. -/
def broadcasts (s : State) (all : List ClientId) (b : BroadcastId) : Option Broadcast :=
  (s.threads (.cast b)).map (CastPc.view all)

/-- The hub after a step of goroutine `t`. -/
def after (s : State) (t : Thread) (m : Mem) (locks : Locks Thread Empty) (pc : t.Pc) : State :=
  ((s.setMem m).setLocks locks).setThread t pc

end State

/-! ## What a goroutine inside the lock knows -/

/-- `Run` is in its loop: the channels of those still in the map are open, but for the one it has
just closed. -/
structure Clearing (all : List ClientId) (m : Mem) (shut : Option ClientId) : Prop where
  distinct : m.clients.Nodup
  within : ∀ c ∈ m.clients, c ∈ all
  open_iff : ∀ c ∈ all, ∀ line, m.lines c = some line →
    (line.closed = false ↔ c ∈ m.clients ∧ shut ≠ some c)

/-- The map, where the hub of sections has the clients `all`. -/
def ServePc.Fits (all : List ClientId) (m : Mem) : ServePc → Prop
  | .locked => all = m.clients
  | .inserted => all = m.clients
  | _ => True

@[inherit_doc ServePc.Fits]
def Stage.Fits (c : ClientId) (all : List ClientId) (m : Mem) : Stage → Prop
  | .locked => all = m.clients
  | .found => all = m.clients ∧ c ∈ all
  | .deleted => c ∈ all ∧ m.clients = all.erase c
  | .leaving => all = m.clients
  | _ => True

@[inherit_doc ServePc.Fits]
def CastPc.Fits (all : List ClientId) (m : Mem) : CastPc → Prop
  | .offering _ c visited _ => c ∈ all ∧ c ∉ visited
  | .unregistering c stage _ => stage.Fits c all m
  | _ => True

@[inherit_doc ServePc.Fits]
def RunPc.Fits (all : List ClientId) (m : Mem) : RunPc → Prop
  | .ranging => Clearing all m none
  | .picked c => Clearing all m none ∧ c ∈ m.clients
  | .closed c => Clearing all m (some c)
  | .cleared => all = m.clients
  | _ => True

@[inherit_doc ServePc.Fits]
def Thread.Fits (all : List ClientId) (m : Mem) : (t : Thread) → t.Pc → Prop
  | .serve _, pc => ServePc.Fits all m pc
  | .reader c, stage => Stage.Fits c all m stage
  | .cast _, pc => CastPc.Fits all m pc
  | .run, pc => RunPc.Fits all m pc

/-- No channel has been closed. -/
def SameShut (m m' : Mem) : Prop :=
  ∀ c line', m'.lines c = some line' → ∃ line, m.lines c = some line ∧ line'.closed = line.closed

theorem SameShut.refl : SameShut m m := fun _ line client => ⟨line, client, rfl⟩

theorem sameShut_setLine {line line' : Line} (client : m.lines c = some line)
    (same : line'.closed = line.closed) : SameShut m (m.setLine c line') := by
  intro c' l hl
  rcases update_some_eq_some.mp hl with ⟨rfl, rfl⟩ | ⟨_, hl⟩
  · exact ⟨line, client, same⟩
  · exact ⟨l, hl, rfl⟩

theorem Clearing.frame {shut : Option ClientId} (clears : Clearing all m shut)
    (clients : m'.clients = m.clients) (same : SameShut m m') : Clearing all m' shut where
  distinct := by rw [clients]; exact clears.distinct
  within := by rw [clients]; exact clears.within
  open_iff c hc line' client := by
    obtain ⟨line, hline, hclosed⟩ := same c line' client
    rw [hclosed, clients]
    exact clears.open_iff c hc line hline

/-- What a goroutine knows outlives a step that changes neither the map nor what is closed. -/
theorem Thread.Fits.frame {pc : t.Pc} (fits : t.Fits all m pc) (clients : m'.clients = m.clients)
    (same : SameShut m m') : t.Fits all m' pc := by
  have hstage : ∀ (c : ClientId) (stage : Stage), stage.Fits c all m → stage.Fits c all m' := by
    intro c stage hfits
    cases stage <;> simp only [Stage.Fits, clients] at hfits ⊢ <;> exact hfits
  cases t with
  | serve c =>
    cases pc <;> simp only [Thread.Fits, ServePc.Fits, clients] at fits ⊢ <;> exact fits
  | reader c => exact hstage c pc fits
  | cast b =>
    cases pc with
    | unregistering c stage rest => exact hstage c stage fits
    | _ => exact fits
  | run =>
    cases pc with
    | ranging | closed c => exact Clearing.frame fits clients same
    | picked c => exact ⟨Clearing.frame fits.1 clients same, by rw [clients]; exact fits.2⟩
    | cleared =>
      simp only [Thread.Fits, RunPc.Fits, clients] at fits ⊢
      exact fits
    | _ => exact fits

/-- Outside the lock a goroutine knows nothing. -/
theorem Thread.fits_outside {pc : t.Pc} (writes : t.use pc ≠ .writing)
    (reads : t.use pc ≠ .reading) : t.Fits all m pc := by
  have hstage : ∀ (c : ClientId) (stage : Stage), stage.use ≠ .writing → stage.Fits c all m := by
    intro c stage huse
    cases stage <;> first | exact trivial | exact absurd rfl huse
  cases t with
  | serve c => cases pc <;> first | exact trivial | exact absurd rfl writes
  | reader c => exact hstage c pc writes
  | cast b =>
    cases pc with
    | unregistering c stage rest => exact hstage c stage writes
    | offering intent c visited slow => exact absurd rfl reads
    | _ => exact trivial
  | run => cases pc <;> first | exact trivial | exact absurd rfl writes

/-! ## The simulation relation -/

/-- **The hub of sections follows.** -/
structure Follows (s : State) (h : Hub) : Prop where
  sound : h.Sound
  intact : s.mem.crashed = false
  readers : h.readers = s.locks.readers.length
  broadcasts : h.broadcasts = s.broadcasts h.clients
  sessions : h.sessions = s.sessions h.clients
  /-- While no writer is inside the lock, both have the same clients. -/
  outside : (∀ u, s.use u ≠ .writing) → h.clients = s.mem.clients
  fits : ∀ u (pc : u.Pc), s.threads u = some pc → u.Fits h.clients s.mem pc

theorem follows_init : Follows .init .new where
  sound := Hub.sound_new
  intact := rfl
  readers := rfl
  broadcasts := rfl
  sessions := rfl
  outside _ := rfl
  fits _ _ standing := by cases standing

/-- A goroutine in the loop of `Run` is the writer. -/
theorem State.use_of_clearing (clears : s.clearing = true) : s.use .run = .writing := by
  obtain ⟨pc, standing, hpc⟩ := Option.any_eq_true _ _ |>.mp clears
  rw [State.use_eq standing]
  cases pc <;> first | rfl | cases hpc

/-- While another goroutine is inside the lock, `Run` is not in its loop. -/
theorem Inv.not_clearing (inv : Inv s) (inside : s.use t = .writing ∨ s.use t = .reading)
    (other : t ≠ .run) : s.clearing = false := by
  by_contra hclears
  rw [Bool.not_eq_false] at hclears
  exact other (inv.used.alone (State.use_of_clearing hclears) inside).symm

/-- While a writer is inside, no broadcast reads the map. -/
theorem Inv.unread (inv : Inv s) (writes : s.use t = .writing) (b : BroadcastId) :
    s.use (.cast b) ≠ .reading := by
  intro hreads
  have heq := inv.used.alone writes (.inr hreads)
  rw [heq, hreads] at writes
  cases writes

namespace Follows

theorem session (f : Follows s h) {line : Line} (client : s.mem.lines c = some line) :
    h.sessions c =
      some (line.view (readerOf (s.threads (.reader c))) (s.lag h.clients c)) := by
  rw [f.sessions, State.sessions, client, Option.map_some]

theorem broadcast (f : Follows s h) {pc : CastPc} (standing : s.threads (.cast b) = some pc) :
    h.broadcasts b = some (pc.view h.clients) := by
  rw [f.broadcasts, State.broadcasts, standing, Option.map_some]

/-- A client of the hub of sections has a connection. -/
theorem line (f : Follows s h) (mem : c ∈ h.clients) :
    ∃ line, s.mem.lines c = some line ∧ (line.closed && !s.lag h.clients c) = false := by
  obtain ⟨session, hsession, hopen⟩ := f.sound.exists_open c mem
  rw [f.sessions] at hsession
  obtain ⟨line, hline, rfl⟩ := Option.map_eq_some_iff.mp hsession
  exact ⟨line, hline, hopen⟩

/-- Away from the loop of `Run` its channel is open. -/
theorem open_line (f : Follows s h) (still : s.clearing = false) (mem : c ∈ h.clients) :
    ∃ line, s.mem.lines c = some line ∧ line.closed = false := by
  obtain ⟨line, hline, hopen⟩ := f.line mem
  rw [State.lag, still, Bool.false_and, Bool.not_false, Bool.and_true] at hopen
  exact ⟨line, hline, hopen⟩

/-- A writer leaves no reader for the hub of sections. -/
theorem free (f : Follows s h) (inv : Inv s) (writes : s.use t = .writing) : h.readers = 0 := by
  rw [f.readers, inv.used.no_readers writes, List.length_nil]

/-- **A step of one goroutine**, put together: what it does to the map it does inside the lock, and
nobody else is there. -/
theorem thread (f : Follows s h) (inv : Inv s) {pc pc' : t.Pc} {locks : Locks Thread Empty}
    (standing : s.threads t = some pc) (sound : h'.Sound) (intact : m.crashed = false)
    (readers : h'.readers = locks.readers.length)
    (broadcasts : h'.broadcasts = (s.after t m locks pc').broadcasts h'.clients)
    (sessions : h'.sessions = (s.after t m locks pc').sessions h'.clients)
    (calm : t.use pc ≠ .writing →
      m.clients = s.mem.clients ∧ h'.clients = h.clients ∧ SameShut s.mem m)
    (self : t.Fits h'.clients m pc')
    (left : t.use pc = .writing → t.use pc' ≠ .writing → h'.clients = m.clients) :
    Follows (s.after t m locks pc') h' where
  sound := sound
  intact := intact
  readers := readers
  broadcasts := broadcasts
  sessions := sessions
  outside hnone := by
    have huse : ∀ u, Function.update s.use t (t.use pc') u ≠ .writing := by
      intro u
      have hu := hnone u
      rw [State.after, State.use_setThread] at hu
      exact hu
    have hself := huse t
    rw [Function.update_self] at hself
    by_cases hw : t.use pc = .writing
    · exact left hw hself
    · obtain ⟨hclients, hsame, _⟩ := calm hw
      have hbefore : ∀ u, s.use u ≠ .writing := by
        intro u
        by_cases hu : u = t
        · subst hu
          rw [State.use_eq standing]
          exact hw
        · have hother := huse u
          rwa [Function.update_of_ne hu] at hother
      exact hsame.trans ((f.outside hbefore).trans hclients.symm)
  fits u pc'' hpc := by
    by_cases hu : u = t
    · subst hu
      rw [State.after, State.setThread_self] at hpc
      cases hpc
      exact self
    · rw [State.after, State.setThread_other _ _ hu] at hpc
      have hpc : s.threads u = some pc'' := hpc
      by_cases hw : t.use pc = .writing
      · -- a writer is alone, so the others are outside
        have halone : ∀ use, s.use u = use → use ≠ .writing ∧ use ≠ .reading := by
          intro use huse
          subst huse
          have ht : s.use t = .writing := by rw [State.use_eq standing, hw]
          exact ⟨fun h => hu (inv.used.alone ht (.inl h)).symm,
            fun h => hu (inv.used.alone ht (.inr h)).symm⟩
        obtain ⟨hwrites, hreads⟩ := halone _ (State.use_eq hpc)
        exact Thread.fits_outside hwrites hreads
      · obtain ⟨hclients, hsame, hshut⟩ := calm hw
        rw [hsame]
        exact (f.fits u pc'' hpc).frame hclients hshut

end Follows

/-! ## What a step leaves as it was -/

namespace State

variable {locks : Locks Thread Empty}

theorem after_other {u : Thread} (s : State) (m : Mem) (locks : Locks Thread Empty) (pc : t.Pc)
    (other : u ≠ t) : (s.after t m locks pc).threads u = s.threads u :=
  Function.update_of_ne other ..

theorem after_self (s : State) (t : Thread) (m : Mem) (locks : Locks Thread Empty) (pc : t.Pc) :
    (s.after t m locks pc).threads t = some pc := Function.update_self ..

/-- The broadcasts while another goroutine moves. -/
theorem broadcasts_after {pc : t.Pc} (other : ∀ b, Thread.cast b ≠ t) :
    (s.after t m locks pc).broadcasts all = s.broadcasts all := by
  funext b
  rw [broadcasts, broadcasts, after_other _ _ _ _ (other b)]

/-- The broadcasts after one of them has moved. -/
theorem broadcasts_cast {pc : CastPc} :
    (s.after (.cast b) m locks pc).broadcasts all =
      Function.update (s.broadcasts all) b (some (pc.view all)) := by
  funext b'
  by_cases heq : b' = b
  · subst heq
    rw [broadcasts, after_self, Option.map_some, Function.update_self]
  · rw [Function.update_of_ne heq, broadcasts, broadcasts, after_other]
    intro h
    cases h
    exact heq rfl

theorem broadcasts_same {pc pc' : CastPc} (standing : s.threads (.cast b) = some pc)
    (same : pc'.view all = pc.view all) :
    (s.after (.cast b) m locks pc').broadcasts all = s.broadcasts all := by
  rw [broadcasts_cast, same]
  refine Function.update_eq_self_iff.mpr ?_
  rw [broadcasts, standing, Option.map_some]

/-- While nobody reads the map, the broadcasts do not depend on it. -/
theorem broadcasts_unread {all' : List ClientId} (unread : ∀ b, s.use (.cast b) ≠ .reading) :
    s.broadcasts all' = s.broadcasts all := by
  funext b
  rw [broadcasts, broadcasts]
  cases hpc : s.threads (.cast b) with
  | none => rfl
  | some pc =>
    have huse := unread b
    rw [use_eq hpc] at huse
    cases pc <;> first | rfl | exact absurd rfl huse

theorem clearing_after {pc : t.Pc} (other : t ≠ .run) :
    (s.after t m locks pc).clearing = s.clearing := by
  rw [clearing, clearing, after_other _ _ _ _ other.symm]

/-- The connections, where neither they nor their `readPump`s nor the loop of `Run` have moved. -/
theorem sessions_congr {all' : List ClientId} (lines : s'.mem.lines = s.mem.lines)
    (readers : ∀ c, readerOf (s'.threads (.reader c)) = readerOf (s.threads (.reader c)))
    (lag : ∀ c, s'.lag all' c = s.lag all c) : s'.sessions all' = s.sessions all := by
  funext c
  rw [sessions, sessions, lines, readers, lag]

theorem sessions_after {pc : t.Pc} (lines : m.lines = s.mem.lines)
    (reader : ∀ c, t ≠ .reader c) (run : t ≠ .run) :
    (s.after t m locks pc).sessions all = s.sessions all := by
  refine sessions_congr lines ?_ ?_
  · intro c
    rw [after_other _ _ _ _ (reader c).symm]
  · intro c
    rw [lag, lag, clearing_after run]

theorem sessions_cast {pc : CastPc} (lines : m.lines = s.mem.lines) :
    (s.after (.cast b) m locks pc).sessions all = s.sessions all :=
  sessions_after lines (fun _ heq => by cases heq) (fun heq => by cases heq)

/-- The connections after a `readPump` has moved on. -/
theorem sessions_reader {stage : Stage} (lines : m.lines = s.mem.lines)
    (same : readerOf (some stage) = readerOf (s.threads (.reader c))) :
    (s.after (.reader c) m locks stage).sessions all = s.sessions all := by
  refine sessions_congr lines ?_ ?_
  · intro c'
    by_cases heq : Thread.reader c' = .reader c
    · cases heq
      rw [after_self, same]
    · rw [after_other _ _ _ _ heq]
  · intro c'
    rw [lag, lag, clearing_after (by simp)]

/-- The connections after one of them was written, by another goroutine than its `readPump`. -/
theorem sessions_write {pc : t.Pc} {line : Line}
    (lines : m.lines = Function.update s.mem.lines c (some line)) (reader : ∀ c, t ≠ .reader c)
    (run : t ≠ .run) :
    (s.after t m locks pc).sessions all =
      Function.update (s.sessions all) c
        (some (line.view (readerOf (s.threads (.reader c))) (s.lag all c))) := by
  funext c'
  have hlag : (s.after t m locks pc).lag all c' = s.lag all c' := by
    rw [lag, lag, clearing_after run]
  have hlines : (s.after t m locks pc).mem.lines =
      Function.update s.mem.lines c (some line) := lines
  rw [sessions, after_other _ _ _ _ (reader c').symm, hlag, hlines]
  by_cases heq : c' = c
  · subst heq
    rw [Function.update_self, Function.update_self, Option.map_some]
  · rw [Function.update_of_ne heq, Function.update_of_ne heq, sessions]

theorem sessions_write_cast {pc : CastPc} {line : Line}
    (lines : m.lines = Function.update s.mem.lines c (some line)) :
    (s.after (.cast b) m locks pc).sessions all =
      Function.update (s.sessions all) c
        (some (line.view (readerOf (s.threads (.reader c))) (s.lag all c))) :=
  sessions_write lines (fun _ heq => by cases heq) (fun heq => by cases heq)

/-- The connections after a `readPump` has moved on, and its own connection was written. -/
theorem sessions_left {stage : Stage} {line : Line}
    (lines : m.lines = Function.update s.mem.lines c (some line)) :
    (s.after (.reader c) m locks stage).sessions all =
      Function.update (s.sessions all) c
        (some (line.view (readerOf (some stage)) (s.lag all c))) := by
  funext c'
  have hlag : (s.after (.reader c) m locks stage).lag all c' = s.lag all c' := by
    rw [lag, lag, clearing_after (by simp)]
  have hlines : (s.after (.reader c) m locks stage).mem.lines =
      Function.update s.mem.lines c (some line) := lines
  rw [sessions, hlag, hlines]
  by_cases heq : c' = c
  · subst heq
    rw [Function.update_self, Function.update_self, Option.map_some, after_self]
  · have hother : Thread.reader c' ≠ .reader c := by
      intro h
      cases h
      exact heq rfl
    rw [Function.update_of_ne heq, Function.update_of_ne heq, sessions, after_other _ _ _ _ hother]

/-- The connections after `Run` has moved. -/
theorem sessions_run {pc : RunPc} (c : ClientId) :
    (s.after .run m locks pc).sessions all c =
      (m.lines c).map fun line =>
        line.view (readerOf (s.threads (.reader c))) (pc.clearing && decide (c ∈ all)) := by
  have hother : Thread.reader c ≠ .run := fun heq => by cases heq
  rw [sessions, after_other _ _ _ _ hother, lag, clearing, after_self]
  rfl

theorem sessions_same {pc : t.Pc} {line line' : Line} (client : s.mem.lines c = some line)
    (same : ∀ reader lag, line'.view reader lag = line.view reader lag)
    (reader : ∀ c, t ≠ .reader c) (run : t ≠ .run) :
    (s.after t (s.mem.setLine c line') locks pc).sessions all = s.sessions all := by
  rw [sessions_write rfl reader run, same]
  refine Function.update_eq_self_iff.mpr ?_
  rw [sessions, client, Option.map_some]

/-- Away from the loop of `Run`, the connections do not depend on who is in the map. -/
theorem sessions_still {all' : List ClientId} (still : s.clearing = false) :
    s.sessions all' = s.sessions all := by
  refine sessions_congr rfl (fun _ => rfl) ?_
  intro c
  rw [lag, lag, still, Bool.false_and, Bool.false_and]

end State

end Locked

end VynxRelayer.Ingress
