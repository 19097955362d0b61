import VynxRelayer.Ingress.Following

/-!
# The sections of the hub are atomic

Every step of the hub with its lock is followed by the hub of sections, with no step of its own or
with one that shows the same: method by method (`Follows.serve`, `Follows.reader`, `Follows.cast`,
`Follows.run`), and for the pumps of the connections (`Follows.pumped`).

So every run of the hub with its lock is, event for event, a run of the hub of sections
(`hub_sections_atomic`). With the invariant of the latter, no channel is closed twice or sent on
after it was closed, and while no writer is inside the lock the map holds exactly the connections
whose channel is open (`registry_intact`).
-/

namespace VynxRelayer.Ingress

open Lib

/-- What `Step` lists, the hub does. -/
theorem Hub.Step.next_eq {n : Nat} {h h' : Hub} {a : Hub.Action} {e : Option Hub.Event}
    (step : Hub.Step n h a h' e) : h.next n a = some (h', e) := by
  cases step <;> simp [Hub.next, *]

theorem Hub.Step.path {n : Nat} {h h' : Hub} {a : Hub.Action} {e : Option Hub.Event}
    (step : Hub.Step n h a h' e) : (Hub.system n).Path h (h.shown a e).toList h' := by
  refine System.Path.single (a := .act a) ?_
  simp only [Hub.system, Hub.move, step.next_eq]

namespace Locked

variable {n : Nat} {s s' : State} {m : Mem} {h h' : Hub} {t : Thread} {c : ClientId}
  {b : BroadcastId}

namespace Follows

/-- A step the hub of sections takes no note of. -/
theorem rest (f : Follows s h) (inv : Inv s) {pc pc' : t.Pc} {op : LockOp Empty}
    {locks : Locks Thread Empty} (standing : s.threads t = some pc)
    (granted : s.locks.apply t op = some locks) (other : op.byReader = false)
    (intact : m.crashed = s.mem.crashed)
    (broadcasts : (s.after t m locks pc').broadcasts h.clients = s.broadcasts h.clients)
    (sessions : (s.after t m locks pc').sessions h.clients = s.sessions h.clients)
    (calm : t.use pc ≠ .writing → m.clients = s.mem.clients ∧ SameShut s.mem m)
    (self : t.Fits h.clients m pc')
    (left : t.use pc = .writing → t.use pc' ≠ .writing → h.clients = m.clients) :
    ∃ h', (Hub.system n).Path h [] h' ∧ Follows (s.after t m locks pc') h' := by
  refine ⟨h, .nil, f.thread inv standing f.sound (intact.trans f.intact) ?_ ?_ ?_ ?_ self left⟩
  · rw [Locks.readers_apply granted other, f.readers]
  · rw [broadcasts, f.broadcasts]
  · rw [sessions, f.sessions]
  · exact fun hw => ⟨(calm hw).1, rfl, (calm hw).2⟩

/-- A step of `ServeWS`. -/
theorem serve (f : Follows s h) (inv : Inv s) {pc : ServePc} {eff : Effect ServePc}
    {locks : Locks Thread Empty} (standing : s.threads (.serve c) = some pc)
    (does : pc.step n c s.mem = some eff)
    (granted : s.locks.apply (.serve c) eff.op = some locks) :
    ∃ h', (Hub.system n).Path h eff.shown.toList h' ∧
      Follows (s.after (.serve c) eff.mem locks eff.pc) h' := by
  have hcasts : ∀ b, Thread.cast b ≠ .serve c := fun _ heq => by cases heq
  have hreaders : ∀ c', Thread.serve c ≠ .reader c' := fun _ heq => by cases heq
  have hrun : Thread.serve c ≠ .run := fun heq => by cases heq
  have huse := State.use_eq standing
  have hfits := f.fits _ _ standing
  have hborn := inv.born c pc standing
  cases pc with
  | upgraded =>
    cases does
    exact f.rest inv standing granted rfl rfl
      (State.broadcasts_after hcasts) (State.sessions_after rfl hreaders hrun)
      (fun _ => ⟨rfl, .refl⟩) trivial (fun hw => by cases hw)
  | announced =>
    cases does
    exact f.rest inv standing granted rfl rfl
      (State.broadcasts_after hcasts) (State.sessions_after rfl hreaders hrun)
      (fun _ => ⟨rfl, .refl⟩) (f.outside fun _ => inv.used.no_writer huse) (fun hw => by cases hw)
  | locked =>
    cases does
    have hfree := f.free inv huse
    have hstill := inv.not_clearing (.inl huse) hrun
    have hnew : h.sessions c = none := by
      have hnone : s.mem.lines c = none := hborn
      rw [f.sessions, State.sessions, hnone, Option.map_none]
    have step : Hub.Step n h (.serve c) _ _ := .serve hnew hfree
    refine ⟨_, step.path, f.thread inv standing (Hub.sound_step f.sound step) f.intact ?_ ?_ ?_ ?_
      ?_ ?_⟩
    · rw [Locks.readers_apply granted rfl, ← f.readers]
      rfl
    · rw [State.broadcasts_after hcasts, State.broadcasts_unread (inv.unread huse)]
      exact f.broadcasts
    · -- the connection is new, so it has no `readPump` yet
      have hreader : s.threads (.reader c) = none := by
        cases hr : s.threads (.reader c) with
        | none => rfl
        | some stage =>
          obtain ⟨line, hline⟩ := inv.attached c stage hr
          rw [show s.mem.lines c = none from hborn] at hline
          cases hline
      rw [State.sessions_write rfl hreaders hrun, State.sessions_still hstill, ← f.sessions,
        hreader, State.lag, hstill]
      rfl
    · exact fun hw => absurd rfl hw
    · exact congrArg (c :: ·) hfits
    · exact fun _ hw => absurd rfl hw
  | inserted =>
    cases does
    exact f.rest inv standing granted rfl rfl
      (State.broadcasts_after hcasts) (State.sessions_after rfl hreaders hrun)
      (fun hw => absurd rfl hw) trivial (fun _ _ => hfits)
  | unlocked =>
    obtain ⟨line, client, rfl⟩ := Option.map_eq_some_iff.mp does
    obtain ⟨_, hline, hstarting⟩ := hborn
    cases client.symm.trans hline
    refine f.rest inv standing granted rfl rfl
      (State.broadcasts_after hcasts) (State.sessions_same client ?_ hreaders hrun)
      (fun _ => ⟨rfl, sameShut_setLine client rfl⟩) trivial (fun hw => by cases hw)
    intro reader lag
    simp only [Line.view, hstarting]
    rfl
  | half =>
    obtain ⟨line, client, rfl⟩ := Option.map_eq_some_iff.mp does
    exact f.rest inv standing granted rfl rfl
      (State.broadcasts_after hcasts) (State.sessions_same client (fun _ _ => rfl) hreaders hrun)
      (fun _ => ⟨rfl, sameShut_setLine client rfl⟩) trivial (fun hw => by cases hw)
  | served => cases does

/-- `close(c.send)` inside `unregisterClient`. -/
theorem close_eq (f : Follows s h) (still : s.clearing = false) (mem : c ∈ h.clients) :
    ∃ line, s.mem.lines c = some line ∧ line.closed = false ∧
      s.mem.close c = s.mem.setLine c { line with closed := true } := by
  obtain ⟨line, client, hopen⟩ := f.open_line still mem
  refine ⟨line, client, hopen, ?_⟩
  simp only [Mem.close, client, hopen]
  rfl

/-- A `readPump` has not found its client in the map. -/
theorem reader_absent (f : Follows s h) (inv : Inv s) {locks : Locks Thread Empty}
    (standing : s.threads (.reader c) = some Stage.locked) (absent : c ∉ h.clients)
    (readers : locks.readers = s.locks.readers) :
    ∃ h', (Hub.system n).Path h [] h' ∧ Follows (s.after (.reader c) s.mem locks .leaving) h' := by
  have hcasts : ∀ b, Thread.cast b ≠ .reader c := fun _ heq => by cases heq
  obtain ⟨line, client⟩ := inv.attached c _ standing
  have hsession := f.session client
  rw [standing] at hsession
  have hfits : h.clients = s.mem.clients := f.fits _ _ standing
  have step : Hub.Step n h (.unregister c) _ _ :=
    .unregister hsession rfl (f.free inv (State.use_eq standing))
  have hsound := Hub.sound_step f.sound step
  rw [Hub.unregisterClient, if_neg (by exact absent)] at step hsound
  have hafter : (s.after (.reader c) s.mem locks .leaving).sessions h.clients =
      Function.update (s.sessions h.clients) c
        (some (line.view .left (s.lag h.clients c))) :=
    State.sessions_left (Function.update_eq_self_iff.mpr client.symm).symm
  refine ⟨_, step.path, f.thread inv standing hsound f.intact ?_ ?_ ?_ ?_ hfits ?_⟩
  · rw [readers]
    exact f.readers
  · rw [State.broadcasts_after hcasts]
    exact f.broadcasts
  · refine Eq.trans ?_ hafter.symm
    rw [← f.sessions]
    rfl
  · exact fun hw => absurd rfl hw
  · exact fun _ hw => absurd rfl hw

/-- A `readPump` closes the channel of the client it has deleted. -/
theorem reader_close (f : Follows s h) (inv : Inv s) {locks : Locks Thread Empty}
    (standing : s.threads (.reader c) = some Stage.deleted)
    (readers : locks.readers = s.locks.readers) :
    ∃ h', (Hub.system n).Path h [] h' ∧
      Follows (s.after (.reader c) (s.mem.close c) locks .leaving) h' := by
  have hcasts : ∀ b, Thread.cast b ≠ .reader c := fun _ heq => by cases heq
  have huse := State.use_eq standing
  have hstill := inv.not_clearing (.inl huse) (fun heq => by cases heq)
  obtain ⟨hmem, hclients⟩ := f.fits _ _ standing
  obtain ⟨line, client, hopen, hclose⟩ := f.close_eq hstill hmem
  have hsession := f.session client
  rw [standing, State.lag, hstill] at hsession
  have step : Hub.Step n h (.unregister c) _ _ :=
    .unregister hsession rfl (f.free inv (State.use_eq standing))
  have hsound := Hub.sound_step f.sound step
  have hlast : ∀ session : Session, session.closed = false →
      (h.setSession c session).unregisterClient c =
        { h with clients := h.clients.erase c }.setSession c (Hub.shut session) := by
    intro session hsession
    have hthere : (h.setSession c session).sessions c = some session := Function.update_self ..
    have hin : c ∈ (h.setSession c session).clients := hmem
    rw [Hub.unregisterClient_of_open hin hthere hsession]
    simp only [Hub.setSession, Function.update_idem]
  rw [hlast _ (by simp [Line.view, hopen])] at step hsound
  have hafter : (s.after (.reader c) (s.mem.close c) locks .leaving).sessions (h.clients.erase c) =
      Function.update (s.sessions (h.clients.erase c)) c
        (some (Line.view { line with closed := true } .left (s.lag (h.clients.erase c) c))) :=
    State.sessions_left (by rw [hclose]; rfl)
  refine ⟨_, step.path, f.thread inv standing hsound ?_ ?_ ?_ ?_ ?_ ?_ ?_⟩
  · rw [hclose]
    exact f.intact
  · rw [readers]
    exact f.readers
  · rw [State.broadcasts_after hcasts, State.broadcasts_unread (inv.unread huse)]
    exact f.broadcasts
  · refine Eq.trans ?_ hafter.symm
    rw [State.sessions_still hstill, ← f.sessions, State.lag, hstill]
    rfl
  · exact fun hw => absurd rfl hw
  · rw [hclose]
    exact hclients.symm
  · exact fun _ hw => absurd rfl hw

/-- A step of the `unregisterClient` of a `readPump`. -/
theorem reader (f : Follows s h) (inv : Inv s) {stage : Stage} {eff : Effect Stage}
    {locks : Locks Thread Empty} (standing : s.threads (.reader c) = some stage)
    (does : stage.step c s.mem = some eff)
    (granted : s.locks.apply (.reader c) eff.op = some locks) :
    ∃ h', (Hub.system n).Path h eff.shown.toList h' ∧
      Follows (s.after (.reader c) eff.mem locks eff.pc) h' := by
  have hcasts : ∀ b, Thread.cast b ≠ .reader c := fun _ heq => by cases heq
  have huse := State.use_eq standing
  have hfits := f.fits _ _ standing
  -- the steps before and after the one at which the unregistration takes place
  have hsame : ∀ stage' : Stage, stage'.past = stage.past →
      readerOf (some stage') = readerOf (s.threads (.reader c)) := by
    intro stage' hpast
    rw [standing, readerOf, readerOf, hpast]
  cases stage with
  | entered =>
    cases does
    exact f.rest inv standing granted rfl rfl
      (State.broadcasts_after hcasts) (State.sessions_reader rfl (hsame _ rfl))
      (fun _ => ⟨rfl, .refl⟩) trivial (fun hw => by cases hw)
  | announced =>
    cases does
    exact f.rest inv standing granted rfl rfl
      (State.broadcasts_after hcasts) (State.sessions_reader rfl (hsame _ rfl))
      (fun _ => ⟨rfl, .refl⟩) (f.outside fun _ => inv.used.no_writer huse) (fun hw => by cases hw)
  | locked =>
    have hall : h.clients = s.mem.clients := hfits
    simp only [Stage.step] at does
    split at does
    · rename_i hmem
      cases does
      exact f.rest inv standing granted rfl rfl
        (State.broadcasts_after hcasts) (State.sessions_reader rfl (hsame _ rfl))
        (fun hw => absurd rfl hw) ⟨hall, by rw [hall]; exact hmem⟩ (fun _ hw => absurd rfl hw)
    · rename_i hmem
      cases does
      exact f.reader_absent inv standing (by rw [hall]; exact hmem)
        (Locks.readers_apply granted rfl)
  | found =>
    cases does
    obtain ⟨hall, hmem⟩ := hfits
    exact f.rest inv standing granted rfl rfl
      (State.broadcasts_after hcasts) (State.sessions_reader rfl (hsame _ rfl))
      (fun hw => absurd rfl hw) ⟨hmem, by rw [hall]; rfl⟩ (fun _ hw => absurd rfl hw)
  | deleted =>
    cases does
    exact f.reader_close inv standing
      (Locks.readers_apply granted rfl)
  | leaving =>
    cases does
    exact f.rest inv standing granted rfl rfl
      (State.broadcasts_after hcasts) (State.sessions_reader rfl (hsame _ rfl))
      (fun hw => absurd rfl hw) trivial (fun _ _ => hfits)
  | done => cases does

/-- A step of a broadcast that leaves the memory as it is. -/
theorem castOn (f : Follows s h) (inv : Inv s) {pc pc' : CastPc} {locks : Locks Thread Empty}
    (standing : s.threads (.cast b) = some pc) (sound : h'.Sound)
    (readers : h'.readers = locks.readers.length) (clients : h'.clients = h.clients)
    (sessions : h'.sessions = h.sessions)
    (broadcasts : h'.broadcasts = Function.update h.broadcasts b (some (pc'.view h.clients)))
    (self : pc'.Fits h.clients s.mem)
    (left : pc.use = .writing → pc'.use ≠ .writing → h.clients = s.mem.clients) :
    Follows (s.after (.cast b) s.mem locks pc') h' := by
  refine f.thread inv standing sound f.intact readers ?_ ?_ ?_ ?_ ?_
  · rw [State.broadcasts_cast, clients, ← f.broadcasts]
    exact broadcasts
  · rw [State.sessions_cast rfl, clients, ← f.sessions]
    exact sessions
  · exact fun _ => ⟨rfl, clients, .refl⟩
  · rw [clients]
    exact self
  · rw [clients]
    exact left

/-- A broadcast takes the read lock. -/
theorem cast_rlock (f : Follows s h) (inv : Inv s) {intent : Ref Intent}
    {locks : Locks Thread Empty} (standing : s.threads (.cast b) = some (CastPc.entered intent))
    (granted : s.locks.apply (.cast b) .rlock = some locks) :
    ∃ h', (Hub.system n).Path h [] h' ∧
      Follows (s.after (.cast b) s.mem locks (.ranging intent [] [])) h' := by
  have step : Hub.Step n h (.rlock b) _ _ := .rlock (f.broadcast standing)
  refine ⟨_, step.path, f.castOn inv standing (Hub.sound_step f.sound step) ?_ rfl rfl rfl trivial
    (fun hw => by cases hw)⟩
  simp only [Locks.apply, Option.ite_none_right_eq_some, Option.some.injEq] at granted
  obtain ⟨_, rfl⟩ := granted
  exact congrArg (· + 1) f.readers

/-- While a broadcast reads the map, both hubs have the same clients. -/
theorem reading_clients (f : Follows s h) (inv : Inv s) (reads : s.use t = .reading) :
    h.clients = s.mem.clients := by
  refine f.outside ?_
  intro u hu
  have heq := inv.used.alone hu (.inr reads)
  rw [heq, reads] at hu
  cases hu

/-- A broadcast that has visited every client lets go of the read lock. -/
theorem cast_runlock (f : Follows s h) (inv : Inv s) {intent : Ref Intent}
    {visited slow : List ClientId} {locks : Locks Thread Empty}
    (standing : s.threads (.cast b) = some (CastPc.ranging intent visited slow))
    (every : ∀ c ∈ s.mem.clients, c ∈ visited)
    (granted : s.locks.apply (.cast b) .runlock = some locks) :
    ∃ h', (Hub.system n).Path h [.released b] h' ∧
      Follows (s.after (.cast b) s.mem locks (.dropping slow)) h' := by
  have hclients := f.reading_clients inv (State.use_eq standing)
  have hnone : h.clients.diff visited = [] := by
    refine List.eq_nil_iff_forall_not_mem.mpr ?_
    intro c hc
    obtain ⟨hmem, hnew⟩ := f.sound.distinct.mem_sdiff_iff.mp hc
    exact hnew (every c (by rw [← hclients]; exact hmem))
  have hbroadcast := f.broadcast standing
  rw [CastPc.view, hnone] at hbroadcast
  have step : Hub.Step n h (.runlock b) _ _ := .runlock hbroadcast
  refine ⟨_, step.path, f.castOn inv standing (Hub.sound_step f.sound step) ?_ rfl rfl rfl trivial
    (fun hw => by cases hw)⟩
  cases granted
  have hin := (inv.used.reading_iff (.cast b)).mpr (State.use_eq standing)
  rw [List.length_erase_of_mem hin, ← f.readers]
  rfl

/-- The `select` of a broadcast: the client it is at is in the map, so its channel is open. -/
theorem cast_offer (f : Follows s h) (inv : Inv s) {intent : Ref Intent}
    {visited slow : List ClientId} {line : Line} {locks : Locks Thread Empty}
    (standing : s.threads (.cast b) = some (CastPc.offering intent c visited slow))
    (client : s.mem.lines c = some line) (readers : locks.readers = s.locks.readers) :
    ∃ h', (Hub.system n).Path h (offer b s.mem intent c visited slow line).shown.toList h' ∧
      Follows (s.after (.cast b) (offer b s.mem intent c visited slow line).mem locks
        (offer b s.mem intent c visited slow line).pc) h' := by
  obtain ⟨hmem, hnew⟩ := f.fits _ _ standing
  have hstill := inv.not_clearing (.inr (State.use_eq standing)) (fun heq => by cases heq)
  have hopen : line.closed = false := by
    obtain ⟨_, hline, hopen⟩ := f.open_line hstill hmem
    cases client.symm.trans hline
    exact hopen
  have hsending := f.broadcast standing
  have hdue : c ∈ h.clients.diff visited := f.sound.distinct.mem_sdiff_iff.mpr ⟨hmem, hnew⟩
  have hnext : h.clients.diff (visited ++ [c]) = (h.clients.diff visited).erase c := by
    rw [List.diff_append, List.diff_cons, List.diff_nil]
  have hsession := f.session client
  have hisOpen :
      (line.view (readerOf (s.threads (.reader c))) (s.lag h.clients c)).closed = false := by
    rw [Line.view, hopen, Bool.false_and]
  unfold offer
  rw [if_neg (by rw [hopen]; exact Bool.false_ne_true)]
  cases hsend : line.send.trySend intent with
  | some send =>
    have step : Hub.Step n h (.offer b c) _ _ := .offer hsending hdue hsession hisOpen hsend
    have hpath := step.path
    simp only [Hub.shown, Hub.message, hsending, CastPc.view, Option.map_some] at hpath
    refine ⟨_, hpath, f.thread inv standing (Hub.sound_step f.sound step) f.intact ?_ ?_ ?_ ?_
      trivial (fun hw => by cases hw)⟩
    · rw [readers]
      exact f.readers
    · rw [State.broadcasts_cast]
      simp only [Hub.setBroadcast, Hub.setSession, Effect.show, CastPc.view, hnext, f.broadcasts]
    · rw [State.sessions_write_cast rfl]
      simp only [Hub.setBroadcast, Hub.setSession, f.sessions]
      rfl
    · exact fun _ => ⟨rfl, rfl, sameShut_setLine client rfl⟩
  | none =>
    have step : Hub.Step n h (.offer b c) _ _ := .slow hsending hdue hsession hisOpen hsend
    refine ⟨_, step.path, f.castOn inv standing (Hub.sound_step f.sound step) ?_ rfl rfl ?_ trivial
      (fun hw => by cases hw)⟩
    · rw [readers]
      exact f.readers
    · simp only [Hub.setBroadcast, Effect.show, CastPc.view, hnext]

/-- A broadcast has not found a slow client in the map. -/
theorem cast_absent (f : Follows s h) (inv : Inv s) {rest : List ClientId}
    {locks : Locks Thread Empty}
    (standing : s.threads (.cast b) = some (CastPc.unregistering c .locked rest))
    (absent : c ∉ h.clients) (readers : locks.readers = s.locks.readers) :
    ∃ h', (Hub.system n).Path h [] h' ∧
      Follows (s.after (.cast b) s.mem locks (.unregistering c .leaving rest)) h' := by
  have hfits : h.clients = s.mem.clients := f.fits _ _ standing
  have step : Hub.Step n h (.drop b) _ _ :=
    .drop (f.broadcast standing) (f.free inv (State.use_eq standing))
  have hsound := Hub.sound_step f.sound step
  rw [Hub.unregisterClient, if_neg absent] at step hsound
  refine ⟨_, step.path, f.castOn inv standing hsound ?_ rfl rfl rfl hfits
    (fun _ hw => absurd rfl hw)⟩
  rw [readers]
  exact f.readers

/-- A broadcast closes the channel of the slow client it has deleted. -/
theorem cast_close (f : Follows s h) (inv : Inv s) {rest : List ClientId}
    {locks : Locks Thread Empty}
    (standing : s.threads (.cast b) = some (CastPc.unregistering c .deleted rest))
    (readers : locks.readers = s.locks.readers) :
    ∃ h', (Hub.system n).Path h [] h' ∧
      Follows (s.after (.cast b) (s.mem.close c) locks (.unregistering c .leaving rest)) h' := by
  have huse := State.use_eq standing
  have hstill := inv.not_clearing (.inl huse) (fun heq => by cases heq)
  obtain ⟨hmem, hclients⟩ := f.fits _ _ standing
  obtain ⟨line, client, hopen, hclose⟩ := f.close_eq hstill hmem
  have hsession := f.session client
  rw [State.lag, hstill] at hsession
  have step : Hub.Step n h (.drop b) _ _ :=
    .drop (f.broadcast standing) (f.free inv (State.use_eq standing))
  have hsound := Hub.sound_step f.sound step
  rw [Hub.unregisterClient_of_open hmem hsession (by simp [Line.view, hopen])] at step hsound
  refine ⟨_, step.path, f.thread inv standing hsound ?_ ?_ ?_ ?_ ?_ ?_ ?_⟩
  · rw [hclose]
    exact f.intact
  · rw [readers]
    exact f.readers
  · rw [State.broadcasts_cast, State.broadcasts_unread (inv.unread huse), ← f.broadcasts]
    rfl
  · rw [hclose, State.sessions_write_cast rfl, State.sessions_still hstill, ← f.sessions, State.lag,
      hstill]
    rfl
  · exact fun hw => absurd rfl hw
  · rw [hclose]
    exact hclients.symm
  · exact fun _ hw => absurd rfl hw

/-- A step of `BroadcastIntent` that the hub of sections takes no note of. -/
theorem castRest (f : Follows s h) (inv : Inv s) {pc pc' : CastPc} {op : LockOp Empty}
    {locks : Locks Thread Empty} (standing : s.threads (.cast b) = some pc)
    (granted : s.locks.apply (.cast b) op = some locks) (other : op.byReader = false)
    (intact : m.crashed = s.mem.crashed) (lines : m.lines = s.mem.lines)
    (same : pc'.view h.clients = pc.view h.clients)
    (calm : pc.use ≠ .writing → m = s.mem) (self : pc'.Fits h.clients m)
    (left : pc.use = .writing → pc'.use ≠ .writing → h.clients = m.clients) :
    ∃ h', (Hub.system n).Path h [] h' ∧ Follows (s.after (.cast b) m locks pc') h' := by
  refine f.rest inv standing granted other intact (State.broadcasts_same standing same)
    (State.sessions_cast lines) ?_ self left
  intro hw
  rw [calm hw]
  exact ⟨rfl, .refl⟩

/-- A step of the `unregisterClient` of a broadcast. -/
theorem castUnregister (f : Follows s h) (inv : Inv s) {stage : Stage} {rest : List ClientId}
    {eff : Effect Stage} {locks : Locks Thread Empty}
    (standing : s.threads (.cast b) = some (CastPc.unregistering c stage rest))
    (does : stage.step c s.mem = some eff)
    (granted : s.locks.apply (.cast b) eff.op = some locks) :
    ∃ h', (Hub.system n).Path h eff.shown.toList h' ∧
      Follows (s.after (.cast b) eff.mem locks (.unregistering c eff.pc rest)) h' := by
  have huse := State.use_eq standing
  have hfits := f.fits _ _ standing
  cases stage with
  | entered =>
    cases does
    exact f.castRest inv standing granted rfl rfl rfl rfl
      (fun _ => rfl) trivial (fun hw => by cases hw)
  | announced =>
    cases does
    exact f.castRest inv standing granted rfl rfl rfl rfl
      (fun _ => rfl) (f.outside fun _ => inv.used.no_writer huse) (fun hw => by cases hw)
  | locked =>
    have hall : h.clients = s.mem.clients := hfits
    simp only [Stage.step] at does
    split at does
    · rename_i hmem
      cases does
      exact f.castRest inv standing granted rfl rfl rfl rfl
        (fun _ => rfl) ⟨hall, by rw [hall]; exact hmem⟩ (fun _ hw => absurd rfl hw)
    · rename_i hmem
      cases does
      exact f.cast_absent inv standing (by rw [hall]; exact hmem)
        (Locks.readers_apply granted rfl)
  | found =>
    cases does
    obtain ⟨hall, hmem⟩ := hfits
    exact f.castRest inv standing granted rfl rfl rfl rfl
      (fun hw => absurd rfl hw) ⟨hmem, by rw [hall]; rfl⟩ (fun _ hw => absurd rfl hw)
  | deleted =>
    cases does
    exact f.cast_close inv standing
      (Locks.readers_apply granted rfl)
  | leaving =>
    cases does
    exact f.castRest inv standing granted rfl rfl rfl rfl
      (fun _ => rfl) trivial (fun _ _ => hfits)
  | done => cases does

/-- A step of `BroadcastIntent`. -/
theorem cast (f : Follows s h) (inv : Inv s) {pick : ClientId} {pc : CastPc} {eff : Effect CastPc}
    {locks : Locks Thread Empty} (standing : s.threads (.cast b) = some pc)
    (does : pc.step b s.mem pick = some eff)
    (granted : s.locks.apply (.cast b) eff.op = some locks) :
    ∃ h', (Hub.system n).Path h eff.shown.toList h' ∧
      Follows (s.after (.cast b) eff.mem locks eff.pc) h' := by
  cases pc with
  | entered intent =>
    cases does
    exact f.cast_rlock inv standing granted
  | ranging intent visited slow =>
    simp only [CastPc.step] at does
    split at does
    · rename_i hevery
      cases does
      exact f.cast_runlock inv standing hevery granted
    · split at does
      · rename_i hpick
        cases does
        refine f.castRest inv standing granted rfl rfl rfl rfl
          (fun _ => rfl) ⟨?_, hpick.2⟩ (fun hw => by cases hw)
        rw [f.reading_clients inv (State.use_eq standing)]
        exact hpick.1
      · cases does
  | offering intent c visited slow =>
    obtain ⟨line, client, rfl⟩ := Option.map_eq_some_iff.mp does
    rw [(offer_moves ..).1] at granted
    cases granted
    exact f.cast_offer inv standing client rfl
  | dropping slow =>
    cases slow with
    | nil =>
      cases does
      have step : Hub.Step n h (.finish b) _ _ := .finish (f.broadcast standing)
      cases granted
      exact ⟨_, step.path, f.castOn inv standing (Hub.sound_step f.sound step) f.readers rfl rfl rfl
        trivial (fun hw => by cases hw)⟩
    | cons c rest =>
      cases does
      exact f.castRest inv standing granted rfl rfl rfl rfl
        (fun _ => rfl) trivial (fun hw => by cases hw)
  | unregistering c stage rest =>
    by_cases hdone : stage = .done
    · subst hdone
      cases does
      exact f.castRest inv standing granted rfl rfl rfl rfl
        (fun _ => rfl) trivial (fun hw => by cases hw)
    · rw [CastPc.step_unregistering hdone] at does
      obtain ⟨eff', hstep, rfl⟩ := Option.map_eq_some_iff.mp does
      exact f.castUnregister inv standing hstep granted
  | finished => cases does

/-- A step of `Run` that closes no channel, and keeps to its loop or stays out of it. -/
theorem runRest (f : Follows s h) (inv : Inv s) {pc pc' : RunPc} {op : LockOp Empty}
    {locks : Locks Thread Empty} (standing : s.threads .run = some pc)
    (granted : s.locks.apply .run op = some locks) (other : op.byReader = false)
    (intact : m.crashed = s.mem.crashed) (lines : m.lines = s.mem.lines)
    (same : pc'.clearing = pc.clearing) (calm : pc.use ≠ .writing → m = s.mem)
    (self : pc'.Fits h.clients m)
    (left : pc.use = .writing → pc'.use ≠ .writing → h.clients = m.clients) :
    ∃ h', (Hub.system n).Path h [] h' ∧ Follows (s.after .run m locks pc') h' := by
  have hclearing : s.clearing = pc.clearing := by rw [State.clearing, standing, Option.any_some]
  refine f.rest inv standing granted other intact
    (State.broadcasts_after fun _ heq => by cases heq) ?_ ?_ self left
  · funext c
    rw [State.sessions_run, lines, same, ← hclearing]
    rfl
  · intro hw
    rw [calm hw]
    exact ⟨rfl, .refl⟩

/-- `Run` has the lock, and its loop begins: nothing is closed yet. -/
theorem run_lock (f : Follows s h) (inv : Inv s) {locks : Locks Thread Empty}
    (standing : s.threads .run = some RunPc.announced)
    (granted : s.locks.apply .run .lock = some locks) :
    ∃ h', (Hub.system n).Path h [] h' ∧ Follows (s.after .run s.mem locks .ranging) h' := by
  have hstill : s.clearing = false := by rw [State.clearing, standing]; rfl
  have hclients : h.clients = s.mem.clients :=
    f.outside fun _ => inv.used.no_writer (State.use_eq standing)
  refine f.rest inv standing granted rfl rfl
    (State.broadcasts_after fun _ heq => by cases heq) ?_ (fun _ => ⟨rfl, .refl⟩) ?_
    (fun hw => by cases hw)
  · funext c
    rw [State.sessions_run, State.sessions, State.lag, hstill]
    cases client : s.mem.lines c with
    | none => rfl
    | some line =>
      by_cases hmem : c ∈ h.clients
      · obtain ⟨_, hline, hopen⟩ := f.open_line hstill hmem
        cases client.symm.trans hline
        simp [Line.view, hopen]
      · simp [hmem]
  · refine ⟨?_, ?_, ?_⟩
    · rw [← hclients]
      exact f.sound.distinct
    · rw [hclients]
      exact fun _ hc => hc
    · intro c hc line client
      obtain ⟨_, hline, hopen⟩ := f.open_line hstill hc
      cases client.symm.trans hline
      exact ⟨fun _ => ⟨by rw [← hclients]; exact hc, fun h => by cases h⟩, fun _ => hopen⟩

/-- `Run` closes the channel of a client that is in the map; the hub of sections lags behind. -/
theorem run_close (f : Follows s h) (inv : Inv s) {locks : Locks Thread Empty}
    (standing : s.threads .run = some (RunPc.picked c))
    (granted : s.locks.apply .run .none = some locks) :
    ∃ h', (Hub.system n).Path h [] h' ∧
      Follows (s.after .run (s.mem.close c) locks (.closed c)) h' := by
  have hclears : s.clearing = true := by rw [State.clearing, standing]; rfl
  obtain ⟨clears, hmem⟩ := f.fits _ _ standing
  have hall := clears.within c hmem
  obtain ⟨line, client, _⟩ := f.line hall
  have hopen : line.closed = false :=
    (clears.open_iff c hall line client).mpr ⟨hmem, fun h => by cases h⟩
  have hclose : s.mem.close c = s.mem.setLine c { line with closed := true } := by
    simp only [Mem.close, client, hopen]
    rfl
  rw [hclose]
  refine f.rest inv standing granted rfl rfl
    (State.broadcasts_after fun _ heq => by cases heq) ?_ (fun hw => absurd rfl hw) ?_
    (fun _ hw => absurd rfl hw)
  · funext c'
    rw [State.sessions_run, State.sessions, State.lag, hclears]
    by_cases heq : c' = c
    · subst heq
      simp [Mem.setLine, client, Line.view, RunPc.clearing, hall]
    · simp [Mem.setLine, heq, RunPc.clearing]
  · refine ⟨clears.distinct, clears.within, ?_⟩
    intro c' hc' line' client'
    rcases update_some_eq_some.mp client' with ⟨rfl, rfl⟩ | ⟨hne, client'⟩
    · simp
    · rw [clears.open_iff c' hc' line' client']
      simp [Mem.setLine, Ne.symm hne]

/-- The loop of `Run` is over: all that the hub of sections has is closed, and now it closes it. -/
theorem run_clear (f : Follows s h) (inv : Inv s) {locks : Locks Thread Empty}
    (standing : s.threads .run = some RunPc.ranging) (empty : s.mem.clients = [])
    (granted : s.locks.apply .run .none = some locks) :
    ∃ h', (Hub.system n).Path h [] h' ∧ Follows (s.after .run s.mem locks .cleared) h' := by
  have hcasts : ∀ b, Thread.cast b ≠ .run := fun _ heq => by cases heq
  have huse := State.use_eq standing
  have clears : Clearing h.clients s.mem none := f.fits _ _ standing
  have step : Hub.Step n h .shutdown _ _ := .shutdown (f.free inv huse)
  have hsound := Hub.sound_step f.sound step
  rw [f.sound.closeAll_eq] at step hsound
  refine ⟨_, step.path, f.thread inv standing hsound f.intact ?_ ?_ ?_ (fun hw => absurd rfl hw)
    ?_ (fun _ hw => absurd rfl hw)⟩
  · rw [Locks.readers_apply granted rfl]
    exact f.readers
  · rw [State.broadcasts_after hcasts]
    exact f.broadcasts.trans (State.broadcasts_unread (inv.unread huse))
  · funext c
    rw [State.sessions_run]
    cases client : s.mem.lines c with
    | none =>
      have hnone : h.sessions c = none := by rw [f.sessions, State.sessions, client]; rfl
      simp [hnone]
    | some line =>
      have hsession := f.session client
      by_cases hmem : c ∈ h.clients
      · have hshut : line.closed = true := by
          by_contra hopen
          rw [Bool.not_eq_true] at hopen
          have hin := ((clears.open_iff c hmem line client).mp hopen).1
          rw [empty] at hin
          cases hin
        simp [hmem, hsession, Hub.shut, Line.view, hshut]
      · simp [hmem, hsession, State.lag, RunPc.clearing]
  · exact empty.symm

/-- A step of `Run`. -/
theorem run (f : Follows s h) (inv : Inv s) {pick : ClientId} {pc : RunPc} {eff : Effect RunPc}
    {locks : Locks Thread Empty} (standing : s.threads .run = some pc)
    (does : pc.step s.mem pick = some eff) (granted : s.locks.apply .run eff.op = some locks) :
    ∃ h', (Hub.system n).Path h eff.shown.toList h' ∧
      Follows (s.after .run eff.mem locks eff.pc) h' := by
  have hfits := f.fits _ _ standing
  cases pc with
  | woken =>
    cases does
    exact f.runRest inv standing granted rfl rfl rfl rfl
      (fun _ => rfl) trivial (fun hw => by cases hw)
  | announced =>
    cases does
    exact f.run_lock inv standing granted
  | ranging =>
    simp only [RunPc.step] at does
    split at does
    · rename_i hempty
      cases does
      exact f.run_clear inv standing hempty granted
    · split at does
      · rename_i hpick
        cases does
        exact f.runRest inv standing granted rfl rfl rfl rfl
          (fun _ => rfl) ⟨hfits, hpick⟩ (fun _ hw => absurd rfl hw)
      · cases does
  | picked c =>
    cases does
    exact f.run_close inv standing granted
  | closed c =>
    cases does
    refine f.runRest inv standing granted rfl rfl rfl rfl
      (fun hw => absurd rfl hw) ?_ (fun _ hw => absurd rfl hw)
    have clears : Clearing h.clients s.mem (some c) := hfits
    refine ⟨clears.distinct.erase c, fun c' hc' => clears.within c' (List.mem_of_mem_erase hc'), ?_⟩
    intro c' hc' line client
    rw [clears.open_iff c' hc' line client]
    simp only [Effect.go, Mem.delete, clears.distinct.mem_erase_iff, ne_eq, Option.some.injEq,
      reduceCtorEq, not_false_eq_true, and_true]
    exact ⟨fun h => ⟨Ne.symm h.2, h.1⟩, fun h => ⟨h.2, Ne.symm h.1⟩⟩
  | cleared =>
    cases does
    exact f.runRest inv standing granted rfl rfl rfl rfl
      (fun _ => rfl) trivial (fun _ _ => hfits)
  | done => cases does

/-- A goroutine begins, and the hub of sections sees it begin or takes no note of it. -/
theorem launch (f : Follows s h) {pc : t.Pc} (fresh : s.threads t = none)
    (free : t.use pc = .free) (sound : h'.Sound) (readers : h'.readers = h.readers)
    (clients : h'.clients = h.clients)
    (broadcasts : h'.broadcasts = (s.after t s.mem s.locks pc).broadcasts h.clients)
    (sessions : h'.sessions = (s.after t s.mem s.locks pc).sessions h.clients) :
    Follows (s.setThread t pc) h' where
  sound := sound
  intact := f.intact
  readers := readers.trans f.readers
  broadcasts := by rw [clients]; exact broadcasts
  sessions := by rw [clients]; exact sessions
  outside hnone := by
    rw [clients]
    refine f.outside ?_
    intro u
    by_cases hu : u = t
    · subst hu
      rw [State.use, fresh]
      exact fun h => by cases h
    · have hother := hnone u
      rwa [State.use_setThread, Function.update_of_ne hu] at hother
  fits u pc' standing := by
    rw [clients]
    by_cases hu : u = t
    · subst hu
      rw [State.setThread_self] at standing
      cases standing
      exact Thread.fits_outside (by rw [free]; exact fun h => by cases h)
        (by rw [free]; exact fun h => by cases h)
    · rw [State.setThread_other _ _ hu] at standing
      exact f.fits u pc' standing

/-- A `writePump` works on its queue. -/
theorem pumped (f : Follows s h) {line line' : Line} (client : s.mem.lines c = some line)
    (same : line'.closed = line.closed)
    (sound : (h.setSession c
      (line'.view (readerOf (s.threads (.reader c))) (s.lag h.clients c))).Sound) :
    Follows (s.setMem (s.mem.setLine c line'))
      (h.setSession c (line'.view (readerOf (s.threads (.reader c))) (s.lag h.clients c))) where
  sound := sound
  intact := f.intact
  readers := f.readers
  broadcasts := f.broadcasts
  sessions := by
    funext c'
    simp only [Hub.setSession, State.sessions, State.setMem, Mem.setLine]
    by_cases heq : c' = c
    · subst heq
      rw [Function.update_self, Function.update_self]
      rfl
    · rw [Function.update_of_ne heq, Function.update_of_ne heq, f.sessions]
      rfl
  outside := f.outside
  fits u pc standing := (f.fits u pc standing).frame rfl (sameShut_setLine client same)

end Follows

/-- The step of the hub of sections that a step of a `writePump` is. -/
def Pump.action (c : ClientId) : Pump → Hub.Action
  | .write => .write c
  | .failWrite => .failWrite c
  | .park => .parkWriter c
  | .ping => .ping c
  | .stop => .stopWriter c

/-- What a `writePump` does, the hub of sections does with its connection. -/
theorem Line.pump_step {line line' : Line} {p : Pump} {received : Option (Ref Intent)}
    {reader : Reader} {lag : Bool} (client : h.sessions c = some (line.view reader lag))
    (runs : line.writer = .running) (pumped : line.pump p = some (line', received)) :
    line'.closed = line.closed ∧ ∃ e, Hub.Step n h (p.action c)
      (h.setSession c (line'.view reader lag)) e ∧
      h.shown (p.action c) e = received.map (.taken c) := by
  have hwriting : (line.view reader lag).writing = true := by simp [Line.view, runs]
  cases p with
  | write =>
    obtain ⟨⟨intent, send⟩, htake, heq⟩ := Option.map_eq_some_iff.mp pumped
    cases heq
    exact ⟨rfl, _, .write client hwriting htake, rfl⟩
  | failWrite =>
    obtain ⟨⟨intent, send⟩, htake, heq⟩ := Option.map_eq_some_iff.mp pumped
    cases heq
    exact ⟨rfl, _, .failWrite client hwriting htake, rfl⟩
  | park =>
    simp only [pump] at pumped
    split at pumped
    · cases pumped
    · rename_i hopen
      rw [Bool.not_eq_true] at hopen
      obtain ⟨send, hpark, heq⟩ := Option.map_eq_some_iff.mp pumped
      cases heq
      exact ⟨rfl, _, .parkWriter client hwriting (by simp [Line.view, hopen]) hpark, rfl⟩
  | ping =>
    simp only [pump] at pumped
    split at pumped <;> cases pumped
    exact ⟨rfl, _, .ping client hwriting ‹_›, rfl⟩
  | stop =>
    simp only [pump] at pumped
    split at pumped <;> cases pumped
    exact ⟨rfl, _, .stopWriter client hwriting ‹_›, rfl⟩

/-! ## Whole runs -/

/-- **Every step is followed**: by none of the hub of sections, or by one that shows the same. -/
theorem follows_step {a : Action} {o : Option Hub.Shown} (inv : Inv s) (f : Follows s h)
    (step : Step n s a s' o) : ∃ h', (Hub.system n).Path h o.toList h' ∧ Follows s' h' := by
  cases step with
  | @call b intent fresh =>
    have hnone : h.broadcasts b = none := by rw [f.broadcasts, State.broadcasts, fresh]; rfl
    have hmove : h.move n (.call b intent) = some (h.call b intent, some (.called b intent)) := by
      simp only [Hub.move, hnone]
    have hnext : (Hub.system n).next h (.call b intent) = _ := hmove
    refine ⟨_, System.Path.single hnext,
      f.launch fresh rfl (Hub.sound_move f.sound hmove) rfl rfl ?_ ?_⟩
    · rw [State.broadcasts_cast, ← f.broadcasts]
      rfl
    · rw [State.sessions_cast rfl]
      exact f.sessions
  | @upgrade c fresh =>
    have hcasts : ∀ b, Thread.cast b ≠ .serve c := fun _ heq => by cases heq
    have hsessions : (s.after (.serve c) s.mem s.locks .upgraded).sessions h.clients =
        s.sessions h.clients :=
      State.sessions_after rfl (fun _ heq => by cases heq) (fun heq => by cases heq)
    exact ⟨h, .nil, f.launch fresh rfl f.sound rfl rfl
      (f.broadcasts.trans (State.broadcasts_after hcasts).symm) (f.sessions.trans hsessions.symm)⟩
  | cancel fresh =>
    have hcasts : ∀ b, Thread.cast b ≠ .run := fun _ heq => by cases heq
    refine ⟨h, .nil, f.launch fresh rfl f.sound rfl rfl
      (f.broadcasts.trans (State.broadcasts_after hcasts).symm) ?_⟩
    funext c
    rw [State.sessions_run, f.sessions, State.sessions, State.lag, State.clearing, fresh]
    rfl
  | @step t pick pc eff locks standing does granted =>
    cases t with
    | serve c => exact f.serve inv standing does granted
    | reader c => exact f.reader inv standing does granted
    | cast b => exact f.cast inv standing does granted
    | run => exact f.run inv standing does granted
  | @stopReader c line client reads fresh =>
    have hcasts : ∀ b, Thread.cast b ≠ .reader c := fun _ heq => by cases heq
    have hsession := f.session client
    rw [fresh] at hsession
    have step : Hub.Step n h (.stopReader c) _ _ := .stopReader hsession rfl
    refine ⟨_, step.path, f.launch fresh rfl (Hub.sound_step f.sound step) rfl rfl
      (f.broadcasts.trans (State.broadcasts_after hcasts).symm) ?_⟩
    rw [State.sessions_left (Function.update_eq_self_iff.mpr client.symm).symm, ← f.sessions]
    rfl
  | @pump c p line line' received client runs pumped =>
    obtain ⟨hsame, e, hstep, hshown⟩ := Line.pump_step (n := n) (f.session client) runs pumped
    refine ⟨_, ?_, f.pumped client hsame (Hub.sound_step f.sound hstep)⟩
    rw [← hshown]
    exact hstep.path

/-- The hub of sections follows along every run, and shows the same. -/
theorem reached {tr : List Hub.Shown} (run : (system n).Path .init tr s) :
    Inv s ∧ ∃ h, (Hub.system n).Path .new tr h ∧ Follows s h := by
  have hinv : ∀ {tr s}, (system n).Path .init tr s → Inv s := fun path =>
    path.preserved inv_init fun _ _ _ _ inv step => inv_step inv (next_cases step)
  refine ⟨hinv run, ?_⟩
  induction run with
  | nil => exact ⟨.new, .nil, follows_init⟩
  | snoc path _ step ih =>
    obtain ⟨h, hpath, f⟩ := ih
    obtain ⟨h', hstep, f'⟩ := follows_step (hinv path) f (next_cases step)
    exact ⟨h', hpath.trans hstep, f'⟩

/-- **Sections are atomic**: whatever the goroutines of the hub do, one step at a time, with the
lock where the source has it, shows what a hub shows whose sections under the write lock are single
steps. At the end of the run the queues of the two are the same, and so are their maps if no writer
is inside. -/
theorem hub_sections_atomic {tr : List Hub.Shown} (run : (system n).Path .init tr s) :
    ∃ h, (Hub.system n).Path .new tr h ∧
      (∀ c, (h.sessions c).map Session.send = (s.mem.lines c).map Line.send) ∧
      ((∀ t, s.use t ≠ .writing) → h.clients = s.mem.clients) := by
  obtain ⟨_, h, path, f⟩ := reached run
  refine ⟨h, path, ?_, f.outside⟩
  intro c
  rw [f.sessions, State.sessions, Option.map_map]
  rfl

namespace Sample

open VynxRelayer.Sample

/-- A goroutine moves a number of times. -/
def steps (t : Thread) (k : Nat) : List Action := List.replicate k (.step t 0)

/-- Two broadcasts find the only client slow while its `readPump` leaves; all three unregister it,
one behind the other. -/
def crowded : List Action :=
  .upgrade 0 :: steps (.serve 0) 6 ++ [.call 0 intent, .call 1 intent] ++ steps (.cast 0) 1 ++
    steps (.cast 1) 3 ++ steps (.cast 0) 3 ++ [.stopReader 0] ++ steps (.cast 1) 4 ++
    steps (.cast 0) 1 ++ steps (.cast 1) 4 ++ steps (.reader 0) 4 ++ steps (.cast 0) 6 ++
    steps (.cast 1) 2

def crowdedTrace : List Hub.Shown :=
  [.joined 0, .called 0 intent, .called 1 intent, .slow 1 0, .slow 0 0, .released 0, .released 1,
    .returned 0, .returned 1]

/-- Two clients connect. -/
def joining : List Action :=
  .upgrade 0 :: steps (.serve 0) 6 ++ .upgrade 1 :: steps (.serve 1) 6

/-- Two clients are connected when the context is cancelled. `Run` closes the channel of the second
and deletes it, and then it has closed the channel of the first, while the `readPump` of that one
waits. -/
def closing : List Action :=
  joining ++ [.cancel] ++ steps .run 2 ++ [.stopReader 0, .step .run 1, .step .run 0, .step .run 0,
    .step .run 0, .step .run 0]

end Sample

theorem hub_sections_atomic_crowded : ∃ s h, (system 0).Path .init Sample.crowdedTrace s ∧
    (Hub.system 0).Path .new Sample.crowdedTrace h := by
  obtain ⟨s, run⟩ := System.exists_path_of_run
    (show ((system 0).run .init Sample.crowded).map Prod.snd = some Sample.crowdedTrace by
      decide +kernel)
  obtain ⟨h, path, _⟩ := hub_sections_atomic run
  exact ⟨s, h, run, path⟩

/-- **The registry is intact**, in every state of every run: nobody has closed a channel twice or
sent on a closed one, and while no writer is inside the lock the map holds exactly the connections
whose channel is open. -/
theorem registry_intact {tr : List Hub.Shown} (run : (system n).Path .init tr s) :
    s.mem.crashed = false ∧ .panicked ∉ tr ∧
    ((∀ t, s.use t ≠ .writing) → s.mem.clients.Nodup ∧
      ∀ c, c ∈ s.mem.clients ↔ ∃ line, s.mem.lines c = some line ∧ line.closed = false) := by
  obtain ⟨inv, h, path, f⟩ := reached run
  refine ⟨f.intact, ?_, ?_⟩
  · intro hpanic
    obtain ⟨xs, ys, h₁, mv, h₂, _, hpre, _, hmove, _⟩ := path.at_mem hpanic
    have hintact := (Hub.sound_move (Hub.reached_sound hpre) hmove).intact
    rw [Hub.move_panicked hmove] at hintact
    cases hintact
  · intro hnone
    have hclients := f.outside hnone
    have hstill : s.clearing = false := by
      by_contra hclears
      rw [Bool.not_eq_false] at hclears
      exact hnone .run (State.use_of_clearing hclears)
    rw [← hclients]
    refine ⟨f.sound.distinct, ?_⟩
    intro c
    constructor
    · exact fun hc => f.open_line hstill hc
    · rintro ⟨line, client, hopen⟩
      refine (f.sound.open_iff c _ (f.session client)).mpr ?_
      rw [Line.view, hopen, Bool.false_and]

/-- Two clients are in the map and nobody is inside. Later, in the middle of the loop of `Run`, the
channel of the first is closed while it is still listed. -/
theorem registry_intact_closing :
    (∃ s, (system 0).Path .init [.joined 0, .joined 1] s ∧ s.mem.clients = [1, 0] ∧
      s.mem.clients.Nodup ∧
      ∀ c, c ∈ s.mem.clients ↔ ∃ line, s.mem.lines c = some line ∧ line.closed = false) ∧
    ∃ s, (system 0).Path .init [.joined 0, .joined 1] s ∧
      s.threads .run = some (RunPc.closed 0) ∧ s.mem.clients = [0] ∧ s.mem.crashed = false := by
  have hjoined : ∃ s, (system 0).run .init Sample.joining = some (s, [.joined 0, .joined 1]) ∧
      s.mem.clients = [1, 0] ∧ s.locks.writer = none :=
    ⟨_, rfl, rfl, rfl⟩
  have hclosing : ∃ s, (system 0).run .init Sample.closing = some (s, [.joined 0, .joined 1]) ∧
      s.threads .run = some (RunPc.closed 0) ∧ s.mem.clients = [0] :=
    ⟨_, rfl, rfl, rfl⟩
  constructor
  · obtain ⟨s, hplayed, hclients, hnone⟩ := hjoined
    have hpath := System.path_of_run hplayed
    obtain ⟨inv, _⟩ := reached hpath
    have hfree : ∀ t, s.use t ≠ .writing := by
      intro t hwrites
      rw [(inv.used.writing_iff t).mpr hwrites] at hnone
      cases hnone
    obtain ⟨hnodup, hopen⟩ := (registry_intact hpath).2.2 hfree
    exact ⟨s, hpath, hclients, hnodup, hopen⟩
  · obtain ⟨s, hplayed, hat, hclients⟩ := hclosing
    have hpath := System.path_of_run hplayed
    exact ⟨s, hpath, hat, hclients, (registry_intact hpath).1⟩

end Locked

end VynxRelayer.Ingress
