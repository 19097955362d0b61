import VynxRelayer.Ingress.Moves
import VynxRelayer.Lib.Fifo
import VynxRelayer.Lib.Journal

/-!
# What a broadcast delivers

Broadcasts share the read lock, so their sends interleave client by client, and a queue that was
full can have room again before its client is unregistered. What a registered client can rely on is
read off three invariants:

* `broadcastCourses`: what a broadcast has done, by where it stands. It is called; it puts its
  message into queues or finds them full; it lets go of the lock; it returns.
* `sections`: while a broadcast holds the lock, the clients in the map are those it has still to
  serve, those it found slow and those it served, each of them once.
* `turnedAway`: a client that a broadcast found slow is on that broadcast's list, or is in the map no
  more. It never comes back: a solver that reconnects is another client.
-/

namespace VynxRelayer.Ingress

open Lib

/-- The clients a broadcast has still to serve. -/
def Broadcast.due : Broadcast → List ClientId
  | .sending _ todo _ => todo
  | _ => []

/-- The clients a broadcast found slow and has not unregistered yet. -/
def Broadcast.slowed : Broadcast → List ClientId
  | .sending _ _ slow => slow
  | .dropping slow => slow
  | _ => []

namespace Hub

variable {sendBufSize : Nat} {tr : List Shown} {h h' : Hub}

def due (h : Hub) (b : BroadcastId) : List ClientId := ((h.broadcasts b).map Broadcast.due).getD []

def slowed (h : Hub) (b : BroadcastId) : List ClientId :=
  ((h.broadcasts b).map Broadcast.slowed).getD []

/-! ## The course of a broadcast -/

namespace Shown

/-- Whom broadcast `b` served, and with what. -/
def putBy (b : BroadcastId) : Shown → Option (ClientId × Ref Intent)
  | .put b' c intent => if b' = b then some (c, intent) else none
  | _ => none

/-- What went into the queue of client `c`. -/
def putTo (c : ClientId) : Shown → Option (Ref Intent)
  | .put _ c' intent => if c' = c then some intent else none
  | _ => none

/-- What left the queue of client `c`. -/
def takenBy (c : ClientId) : Shown → Option (Ref Intent)
  | .taken c' intent => if c' = c then some intent else none
  | _ => none

end Shown

/-- A broadcast's own events while it holds the lock: it puts its message into a queue, or finds the
queue full. -/
def Offers (b : BroadcastId) (intent : Ref Intent) (l : List Shown) : Prop :=
  ∀ e ∈ l, (∃ c, e = .put b c intent) ∨ ∃ c, e = .slow b c

/-- What a broadcast has done, by where it stands. -/
def BroadcastCourse (b : BroadcastId) : Option Broadcast → List Shown → Prop
  | none, l => l = []
  | some (.entered intent), l => l = [.called b intent]
  | some (.sending intent _ slow), l => ∃ offers, Offers b intent offers ∧
      (∀ c ∈ slow, .slow b c ∈ offers) ∧ l = .called b intent :: offers
  | some (.dropping _), l => ∃ intent offers, Offers b intent offers ∧
      l = .called b intent :: offers ++ [.released b]
  | some .finished, l => ∃ intent offers, Offers b intent offers ∧
      l = .called b intent :: offers ++ [.released b, .returned b]

/-- **Every broadcast's course.** -/
theorem broadcastCourses (reached : (system sendBufSize).Path .new tr h) :
    Told Shown.broadcast? BroadcastCourse h.broadcasts tr := by
  induction reached with
  | nil => intro b; rfl
  | @snoc tr h h' m o _ _ moved ih =>
    intro b
    have hcourse := ih b
    -- a broadcast that moves writes what the move shows at the end of its own journal
    have hown : (∀ e, o = some e → e.broadcast? = some b) →
        journal Shown.broadcast? b (tr ++ o.toList) =
          journal Shown.broadcast? b tr ++ o.toList := journal_append_self
    cases broadcastMove moved b with
    | rest same _ quiet =>
      rw [same, journal_append_of_ne quiet]
      exact hcourse
    | call fresh called shows =>
      subst shows
      rw [fresh] at hcourse
      rw [called, hown (by intro e he; cases he; rfl), show journal _ b tr = [] from hcourse]
      rfl
    | lock called sending _ shows =>
      subst shows
      rw [called] at hcourse
      rw [sending, Option.toList_none, List.append_nil]
      exact ⟨[], fun e he => absurd he List.not_mem_nil, fun c hc => absurd hc List.not_mem_nil,
        hcourse⟩
    | @offer intent todo slow c sending _ served _ shows =>
      subst shows
      rw [sending] at hcourse
      obtain ⟨offers, hoffers, hslow, hl⟩ := hcourse
      rw [served, hown (by intro e he; cases he; rfl), hl]
      refine ⟨offers ++ [.put b c intent], ?_, ?_, rfl⟩
      · intro e he
        rcases List.mem_append.mp he with he | he
        · exact hoffers e he
        · exact .inl ⟨c, List.mem_singleton.mp he⟩
      · intro c' hc'
        exact List.mem_append_left _ (hslow c' hc')
    | @slow intent todo slow c sending _ noted _ shows =>
      subst shows
      rw [sending] at hcourse
      obtain ⟨offers, hoffers, hslow, hl⟩ := hcourse
      rw [noted, hown (by intro e he; cases he; rfl), hl]
      refine ⟨offers ++ [.slow b c], ?_, ?_, rfl⟩
      · intro e he
        rcases List.mem_append.mp he with he | he
        · exact hoffers e he
        · exact .inr ⟨c, List.mem_singleton.mp he⟩
      · intro c' hc'
        rcases List.mem_append.mp hc' with hc' | hc'
        · exact List.mem_append_left _ (hslow c' hc')
        · rw [List.mem_singleton.mp hc']
          exact List.mem_append_right _ List.mem_cons_self
    | release sending released shows =>
      subst shows
      rw [sending] at hcourse
      obtain ⟨offers, hoffers, _, hl⟩ := hcourse
      rw [released, hown (by intro e he; cases he; rfl), hl]
      exact ⟨_, offers, hoffers, rfl⟩
    | drop dropping dropped _ shows =>
      subst shows
      rw [dropping] at hcourse
      rw [dropped, Option.toList_none, List.append_nil]
      exact hcourse
    | finish dropping finished shows =>
      subst shows
      rw [dropping] at hcourse
      obtain ⟨intent, offers, hoffers, hl⟩ := hcourse
      rw [finished, hown (by intro e he; cases he; rfl), hl]
      exact ⟨intent, offers, hoffers, by simp⟩

/-- Whom broadcast `b` served, and with what. -/
def puts (b : BroadcastId) (tr : List Shown) : List (ClientId × Ref Intent) :=
  tr.filterMap (Shown.putBy b)

/-- A broadcast's puts are its own events. -/
theorem puts_journal (b : BroadcastId) (tr : List Shown) :
    puts b (journal Shown.broadcast? b tr) = puts b tr := by
  unfold puts journal
  rw [List.filterMap_filter]
  refine List.filterMap_congr ?_
  intro e _
  cases e with
  | put b' c intent => by_cases hb : b' = b <;> simp [Shown.broadcast?, Shown.putBy, hb]
  | _ => simp [Shown.putBy]

/-- Before it holds the lock a broadcast has served nobody. -/
theorem puts_eq_nil (reached : (system sendBufSize).Path .new tr h) {b : BroadcastId}
    {intent : Ref Intent} (called : h.broadcasts b = some (.entered intent)) : puts b tr = [] := by
  have hcourse := broadcastCourses reached b
  rw [called] at hcourse
  rw [← puts_journal, show journal _ b tr = _ from hcourse]
  rfl

/-- What a broadcast does not put, it has not served. -/
theorem puts_quiet {b : BroadcastId} {o : Option Shown}
    (quiet : ∀ e, o = some e → Shown.putBy b e = none) : puts b (tr ++ o.toList) = puts b tr := by
  unfold puts
  rw [List.filterMap_append]
  cases o with
  | none => exact List.append_nil _
  | some e => simp [quiet e rfl]

/-- Another broadcast's event puts nothing for this one. -/
theorem putBy_of_ne {b : BroadcastId} {e : Shown} (ne : e.broadcast? ≠ some b) :
    Shown.putBy b e = none := by
  cases e with
  | put b' c intent => exact if_neg fun heq => ne (congrArg some heq)
  | _ => rfl

/-! ## The read-locked section -/

/-- **The section of a broadcast**: while it holds the lock, the clients in the map are those it has
still to serve, those it found slow and those it served, each of them once. -/
theorem sections (reached : (system sendBufSize).Path .new tr h) :
    ∀ b intent todo slow, h.broadcasts b = some (.sending intent todo slow) →
      (todo ++ slow ++ (puts b tr).map Prod.fst).Perm h.clients := by
  induction reached with
  | nil => intro b intent todo slow hb; cases hb
  | @snoc tr h h' m o reached _ moved ih =>
    intro b intent todo slow hb
    cases broadcastMove moved b with
    | rest same map quiet =>
      rw [same] at hb
      rw [puts_quiet fun e he => putBy_of_ne (quiet e he)]
      rcases map with hmap | free
      · rw [hmap]
        exact ih b intent todo slow hb
      · exact absurd hb ((reached_sound reached).not_sending free)
    | lock called sending map shows =>
      rw [sending] at hb
      cases hb
      subst shows
      rw [puts_quiet (by intro e he; cases he), puts_eq_nil reached called, map, List.append_nil,
        List.map_nil, List.append_nil]
    | @offer intent' todo' slow' c sending due served map shows =>
      rw [served] at hb
      cases hb
      subst shows
      -- the client moves from those due to those served
      have hputs : (puts b (tr ++ [.put b c intent])).map Prod.fst =
          (puts b tr).map Prod.fst ++ [c] := by
        simp [puts, Shown.putBy]
      have hmove : (todo'.erase c ++ slow ++ ((puts b tr).map Prod.fst ++ [c])).Perm
          (c :: todo'.erase c ++ slow ++ (puts b tr).map Prod.fst) := by
        rw [← List.append_assoc]
        exact List.perm_append_singleton c _
      have hdue : (c :: todo'.erase c).Perm todo' := (List.perm_cons_erase due).symm
      rw [Option.toList_some, hputs, map]
      exact hmove.trans (((hdue.append_right slow).append_right _).trans
        (ih b intent todo' slow sending))
    | @slow intent' todo' slow' c sending due noted map shows =>
      rw [noted] at hb
      cases hb
      subst shows
      -- the client moves from those due to the slow ones
      have hmove : (todo'.erase c ++ (slow' ++ [c])).Perm (c :: todo'.erase c ++ slow') := by
        rw [← List.append_assoc]
        exact List.perm_append_singleton c _
      have hdue : (c :: todo'.erase c).Perm todo' := (List.perm_cons_erase due).symm
      rw [puts_quiet (by intro e he; cases he; rfl), map]
      exact ((hmove.trans (hdue.append_right slow')).append_right _).trans
        (ih b intent todo' slow' sending)
    | call _ moved _ | release _ moved _ | drop _ moved _ _ | finish _ moved _ =>
      rw [moved] at hb
      cases hb

/-! ## The queue of a client -/

/-- The messages waiting for a client. -/
def queued (h : Hub) (c : ClientId) : List (Ref Intent) :=
  ((h.sessions c).map (·.send.pending)).getD []

/-- **The queue of a client**: what was put into it is what left it, followed by what waits in it,
in order; and it has the capacity it was made with. -/
theorem queues (reached : (system sendBufSize).Path .new tr h) (c : ClientId) :
    Fifo (Shown.putTo c) (Shown.takenBy c) (h.queued c) tr ∧
      ∀ session, h.sessions c = some session → session.send.cap = sendBufSize := by
  induction reached with
  | nil => exact ⟨.nil, by intro session hs; cases hs⟩
  | @snoc tr h h' m o reached _ moved ih =>
    obtain ⟨hfifo, hcap⟩ := ih
    have hquiet : (∀ e, o = some e → e.client? ≠ some c) →
        ∀ e, o = some e → e.putTo c = none ∧ e.takenBy c = none := by
      intro quiet e he
      have hne := quiet e he
      cases e <;> simp_all [Shown.client?, Shown.putTo, Shown.takenBy]
    cases clientMove (reached_sound reached) moved c with
    | idle session _ quiet =>
      refine ⟨hfifo.silent ?_ (hquiet quiet), by rwa [session]⟩
      rw [queued, queued, session]
    | joins fresh joined queue shows =>
      subst shows
      refine ⟨hfifo.silent ?_ (by intro e he; cases he; exact ⟨rfl, rfl⟩), ?_⟩
      · simp [queued, fresh, joined, queue, Chan.make, Chan.pending, Receiver.handed]
      · intro session hs
        rw [joined] at hs
        cases hs
        rw [queue]
        rfl
    | @moves old new client moved _ queue =>
      have hold : h.queued c = old.send.pending := by simp [queued, client]
      have hnew : h'.queued c = new.send.pending := by simp [queued, moved]
      rw [hold] at hfifo
      rw [hnew]
      have hkeep : new.send.cap = old.send.cap →
          ∀ session, h'.sessions c = some session → session.send.cap = sendBufSize := by
        intro hsame session hs
        rw [moved] at hs
        cases hs
        rw [hsame, hcap old client]
      cases queue with
      | put sent shows =>
        subst shows
        have hsent := Chan.pending_trySend sent
        exact ⟨hfifo.send (if_pos rfl) rfl hsent.1, hkeep hsent.2⟩
      | take taken shows =>
        subst shows
        have htaken := Chan.pending_take taken
        exact ⟨hfifo.take rfl (if_pos rfl) htaken.1, hkeep htaken.2⟩
      | rest pending cap quiet => exact ⟨hfifo.silent pending (hquiet quiet), hkeep cap⟩
    | @leaves old new client moved queue _ quiet =>
      refine ⟨hfifo.silent ?_ (hquiet quiet), ?_⟩
      · simp [queued, client, moved, queue]
      · intro session hs
        rw [moved] at hs
        cases hs
        rw [queue, hcap old client]

/-! ## Slow clients -/

/-- A client on a broadcast's list of slow ones stays there until it is unregistered. -/
theorem move_slowed {m : Move} {o : Option Shown} {b : BroadcastId} {c : ClientId} (sound : Sound h)
    (moved : h.move sendBufSize m = some (h', o)) (listed : c ∈ h.slowed b) :
    c ∈ h'.slowed b ∨ c ∉ h'.clients := by
  have hlisted : c ∈ ((h.broadcasts b).map Broadcast.slowed).getD [] := listed
  unfold slowed
  cases broadcastMove moved b with
  | rest same _ _ =>
    rw [same]
    exact .inl listed
  | call fresh _ _ => simp [fresh] at hlisted
  | lock called _ _ _ => simp [called, Broadcast.slowed] at hlisted
  | offer sending _ served _ _ =>
    left
    simpa [sending, served, Broadcast.slowed] using hlisted
  | slow sending _ noted _ _ =>
    left
    rw [noted]
    exact List.mem_append_left _ (by simpa [sending, Broadcast.slowed] using hlisted)
  | release sending released _ =>
    left
    simpa [sending, released, Broadcast.slowed] using hlisted
  | @drop d slow dropping dropped map _ =>
    have hc : c = d ∨ c ∈ slow := by simpa [dropping, Broadcast.slowed] using hlisted
    rcases hc with rfl | hc
    · -- the head of the list is unregistered by this very move
      right
      rw [map]
      exact unregisterClient_self sound c
    · left
      rw [dropped]
      exact hc
  | finish dropping _ _ => simp [dropping, Broadcast.slowed] at hlisted

/-- A client that a broadcast found slow is on its list, and has a connection. -/
theorem move_slow {m : Move} {b : BroadcastId} {c : ClientId}
    (moved : h.move sendBufSize m = some (h', some (.slow b c))) :
    c ∈ h'.slowed b ∧ h'.sessions c ≠ none := by
  rcases move_cases moved with ⟨b', intent, _, _, _, hshown⟩ | ⟨a, e, _, step, hshown⟩
  · cases hshown
  · cases step with
    | slow sending _ client _ _ =>
      cases hshown
      simp [slowed, Hub.setBroadcast, Broadcast.slowed, client]
    | offer sending _ _ _ _ => simp [shown, message, sending] at hshown
    | _ => cases hshown

/-- **Slow clients are turned away**: a client that a broadcast found slow is on the broadcast's
list, or is in the map no more. -/
theorem turnedAway (reached : (system sendBufSize).Path .new tr h) {b : BroadcastId} {c : ClientId}
    (slow : .slow b c ∈ tr) : c ∈ h.slowed b ∨ c ∉ h.clients := by
  obtain ⟨xs, ys, h₁, m, h₂, _, hpre, _, hmove, hpost⟩ := reached.at_mem slow
  obtain ⟨hlisted, hknown⟩ := move_slow hmove
  have hsound := sound_move (reached_sound hpre) hmove
  have hend : Sound h ∧ h.sessions c ≠ none ∧ (c ∈ h.slowed b ∨ c ∉ h.clients) := by
    refine System.Path.preserved
      (I := fun h => Sound h ∧ h.sessions c ≠ none ∧ (c ∈ h.slowed b ∨ c ∉ h.clients))
      hpost ⟨hsound, hknown, .inl hlisted⟩ ?_
    rintro h₁ m h₂ o ⟨hsound, hknown, hcase⟩ moved
    refine ⟨sound_move hsound moved, move_known hsound moved hknown, ?_⟩
    rcases hcase with hlisted | hgone
    · exact move_slowed hsound moved hlisted
    · exact .inr (move_gone hsound moved hknown hgone)
  exact hend.2.2

/-- A broadcast that returned has no slow client left. -/
theorem slowed_of_returned (reached : (system sendBufSize).Path .new tr h) {b : BroadcastId}
    (returned : .returned b ∈ tr) : h.slowed b = [] := by
  have hmem : .returned b ∈ journal Shown.broadcast? b tr := mem_journal.mpr ⟨returned, rfl⟩
  have hcourse := broadcastCourses reached b
  generalize journal Shown.broadcast? b tr = l at hmem hcourse
  have hoffers : ∀ {intent : Ref Intent} {offers : List Shown}, Offers b intent offers →
      .returned b ∉ offers := by
    intro intent offers hoffers hin
    rcases hoffers _ hin with ⟨c, hc⟩ | ⟨c, hc⟩ <;> cases hc
  cases hb : h.broadcasts b with
  | none => simp [slowed, hb]
  | some broadcast =>
    rw [hb] at hcourse
    cases broadcast with
    | entered intent => simp [slowed, hb, Broadcast.slowed]
    | finished => simp [slowed, hb, Broadcast.slowed]
    | sending intent todo slow =>
      obtain ⟨offers, hown, _, rfl⟩ := hcourse
      simp [hoffers hown] at hmem
    | dropping slow =>
      obtain ⟨intent, offers, hown, rfl⟩ := hcourse
      simp [hoffers hown] at hmem

/-! ## After the section -/

/-- The read-locked section of broadcast `b` is over. -/
def ended (h : Hub) (b : BroadcastId) : Prop :=
  (∃ slow, h.broadcasts b = some (.dropping slow)) ∨ h.broadcasts b = some .finished

/-- After its section a broadcast serves nobody. -/
theorem puts_of_ended {b : BroadcastId} (path : (system sendBufSize).Path h tr h') (ended : h.ended b) :
    puts b tr = [] ∧ h'.ended b := by
  induction path with
  | nil => exact ⟨rfl, ended⟩
  | @snoc tr h₁ h₂ m o _ _ moved ih =>
    obtain ⟨hputs, hended⟩ := ih
    have hnot : ∀ {old : Option Broadcast}, h₁.broadcasts b = old →
        (∀ slow, old ≠ some (.dropping slow)) → old ≠ some .finished → False := by
      rintro old rfl hdropping hfinished
      rcases hended with ⟨slow, hended⟩ | hended
      · exact hdropping slow hended
      · exact hfinished hended
    cases broadcastMove moved b with
    | rest same _ quiet =>
      rw [puts_quiet fun e he => putBy_of_ne (quiet e he), Hub.ended, same]
      exact ⟨hputs, hended⟩
    | drop _ dropped _ shows =>
      subst shows
      rw [puts_quiet (by intro e he; cases he)]
      exact ⟨hputs, .inl ⟨_, dropped⟩⟩
    | finish _ finished shows =>
      subst shows
      rw [puts_quiet (by intro e he; cases he; rfl)]
      exact ⟨hputs, .inr finished⟩
    | call stood _ _ | lock stood _ _ _ | offer stood _ _ _ _ | slow stood _ _ _ _
    | release stood _ _ => exact (hnot stood (by simp) (by simp)).elim

/-- What broadcast `b` put into the queue of client `c`. -/
def offers (b : BroadcastId) (c : ClientId) (tr : List Shown) : List (Ref Intent) :=
  (puts b tr).filterMap fun put => if put.1 = c then some put.2 else none

/-- A message that goes once to each of some clients goes once to one of them. -/
theorem filterMap_served {served : List ClientId} (distinct : served.Nodup) (intent : Ref Intent)
    (c : ClientId) :
    (served.map fun d => (d, intent)).filterMap
      (fun put => if put.1 = c then some put.2 else none) =
      if c ∈ served then [intent] else [] := by
  induction served with
  | nil => rfl
  | cons d served ih =>
    obtain ⟨hnew, hdistinct⟩ := List.nodup_cons.mp distinct
    rw [List.map_cons, List.filterMap_cons, ih hdistinct]
    by_cases hd : d = c
    · subst hd
      simp [hnew]
    · simp [hd, Ne.symm hd]

/-- **What a section has done when it is over**: the clients in the map are those it served, with
the message it was called with, and those it found slow; and after it nobody is served. -/
theorem released_section {pre post : List Shown} {b : BroadcastId}
    (reached : (system sendBufSize).Path .new (pre ++ .released b :: post) h) :
    ∃ (h₁ : Hub) (intent : Ref Intent) (slow served : List ClientId),
      (system sendBufSize).Path .new pre h₁ ∧ (∃ rest, (system sendBufSize).Path h₁ rest h) ∧
      .called b intent ∈ pre ∧ (∀ c ∈ slow, .slow b c ∈ pre) ∧ (slow ++ served).Perm h₁.clients ∧
      ∀ c, offers b c (pre ++ .released b :: post) = if c ∈ served then [intent] else [] := by
  obtain ⟨h₁, m, h₂, hpre, _, hmove, hpost⟩ := reached.at_event
  have hsending : ∃ intent slow, h₁.broadcasts b = some (.sending intent [] slow) ∧ h₂.ended b := by
    rcases move_cases hmove with ⟨b', intent, _, _, _, hshown⟩ | ⟨a, e, _, step, hshown⟩
    · cases hshown
    · cases step with
      | runlock sending =>
        cases hshown
        exact ⟨_, _, sending, .inl ⟨_, Function.update_self ..⟩⟩
      | offer sending _ _ _ _ => simp [shown, message, sending] at hshown
      | _ => cases hshown
  obtain ⟨intent, slow, hsending, hover⟩ := hsending
  have hcourse := broadcastCourses hpre b
  rw [hsending] at hcourse
  obtain ⟨own, hown, hslow, hjournal⟩ := hcourse
  have hperm := sections hpre b intent [] slow hsending
  rw [List.nil_append] at hperm
  -- everything it put is its own message
  have hmessage : puts b pre = ((puts b pre).map Prod.fst).map fun d => (d, intent) := by
    rw [List.map_map]
    refine (List.map_congr_left ?_).trans (List.map_id _) |>.symm
    intro put hput
    rw [← puts_journal, hjournal] at hput
    obtain ⟨e, he, hby⟩ := List.mem_filterMap.mp hput
    rcases List.mem_cons.mp he with rfl | he
    · cases hby
    · rcases hown e he with ⟨c, rfl⟩ | ⟨c, rfl⟩
      · simp only [Shown.putBy, if_true, Option.some.injEq] at hby
        subst hby
        rfl
      · cases hby
  have hcalled : .called b intent ∈ journal Shown.broadcast? b pre := by
    rw [hjournal]
    exact List.mem_cons_self
  refine ⟨h₁, intent, slow, (puts b pre).map Prod.fst, hpre,
    ⟨_, System.PathOn.trans (System.Path.single hmove) hpost⟩, (mem_journal.mp hcalled).1, ?_, hperm,
    ?_⟩
  · intro c hc
    have hmem : .slow b c ∈ journal Shown.broadcast? b pre := by
      rw [hjournal]
      exact List.mem_cons_of_mem _ (hslow c hc)
    exact (mem_journal.mp hmem).1
  · intro c
    have hall : puts b (pre ++ .released b :: post) = puts b pre := by
      have hrest : puts b (.released b :: post) = puts b post := rfl
      rw [puts, List.filterMap_append]
      show puts b pre ++ puts b (.released b :: post) = _
      rw [hrest, (puts_of_ended hpost hover).1, List.append_nil]
    have hdistinct : (slow ++ (puts b pre).map Prod.fst).Nodup :=
      hperm.nodup_iff.mpr (reached_sound hpre).distinct
    rw [offers, hall, hmessage, filterMap_served (List.nodup_append.mp hdistinct).2.1, ← hmessage]

/-- A client that the hub has heard of before a section is over, and that keeps up, was served by it
once; one that joined later was not. -/
theorem served_once {pre post : List Shown} {b : BroadcastId} {c : ClientId}
    (reached : (system sendBufSize).Path .new (pre ++ .released b :: post) h)
    (registered : c ∈ h.clients) (keeping : c ∉ h.slowed b) :
    (.joined c ∈ pre → ∃ intent, .called b intent ∈ pre ∧
      offers b c (pre ++ .released b :: post) = [intent]) ∧
    (.joined c ∉ pre → offers b c (pre ++ .released b :: post) = []) := by
  obtain ⟨h₁, intent, slow, served, hpre, ⟨rest, hrest⟩, hcalled, hslow, hperm, hoffers⟩ :=
    released_section reached
  have hsound := reached_sound hpre
  rw [hoffers c]
  constructor
  · intro hjoined
    have hin := was_registered hsound hrest ((joined_iff hpre c).mpr hjoined) registered
    rcases List.mem_append.mp (hperm.mem_iff.mpr hin) with hc | hc
    · -- a slow client would be on the list still, or in the map no more
      have hshown : .slow b c ∈ pre ++ .released b :: post :=
        List.mem_append_left _ (hslow c hc)
      rcases turnedAway reached hshown with hlisted | hgone
      · exact absurd hlisted keeping
      · exact absurd registered hgone
    · exact ⟨intent, hcalled, if_pos hc⟩
  · intro hlater
    refine if_neg fun hc => ?_
    obtain ⟨session, hsession⟩ :=
      hsound.known c (hperm.mem_iff.mp (List.mem_append_right _ hc))
    exact hlater ((joined_iff hpre c).mp (by simp [hsession]))

/-! ## Other clients -/

/-- The move turns client `d` away: it finds its queue full, or unregisters it for that. -/
def TurnsAway (h : Hub) (m : Move) (o : Option Shown) (d : ClientId) : Prop :=
  (∃ b, o = some (.slow b d)) ∨
    ∃ b slow, m = .act (.drop b) ∧ h.broadcasts b = some (.dropping (d :: slow))

/-- Where a client stands with the hub: its connection, whether it is in the map, and which
broadcasts are to serve it or found it slow. -/
structure SameStanding (h h' : Hub) (c : ClientId) : Prop where
  session : h'.sessions c = h.sessions c
  member : c ∈ h'.clients ↔ c ∈ h.clients
  due : ∀ b, c ∈ h'.due b ↔ c ∈ h.due b
  slowed : ∀ b, c ∈ h'.slowed b ↔ c ∈ h.slowed b

/-- Turning one client away leaves every other one where it stands. -/
theorem turnsAway_frame {m : Move} {o : Option Shown} {c d : ClientId} (sound : Sound h)
    (moved : h.move sendBufSize m = some (h', o)) (turns : TurnsAway h m o d) (other : c ≠ d) :
    SameStanding h h' c := by
  -- the lists of the broadcast that moves differ in `d` only
  have hlists : ∀ {b : BroadcastId} {old new : Broadcast},
      h'.broadcasts = Function.update h.broadcasts b (some new) → h.broadcasts b = some old →
      (c ∈ new.due ↔ c ∈ old.due) → (c ∈ new.slowed ↔ c ∈ old.slowed) →
      ∀ b', (c ∈ h'.due b' ↔ c ∈ h.due b') ∧ (c ∈ h'.slowed b' ↔ c ∈ h.slowed b') := by
    intro b old new hupdate hold hdue hslowed b'
    by_cases hb : b' = b
    · simp [Hub.due, Hub.slowed, hupdate, hb, hold, hdue, hslowed]
    · simp [Hub.due, Hub.slowed, hupdate, hb]
  rcases turns with ⟨b, rfl⟩ | ⟨b, slow, rfl, hdropping⟩
  · rcases move_cases moved with ⟨b', intent, _, _, _, hshown⟩ | ⟨a, e, _, step, hshown⟩
    · cases hshown
    · cases step with
      | slow sending _ _ _ _ =>
        cases hshown
        have hsame := hlists rfl sending (List.mem_erase_of_ne other)
          (by simp [Broadcast.slowed, other])
        exact ⟨rfl, .rfl, fun b' => (hsame b').1, fun b' => (hsame b').2⟩
      | offer sending _ _ _ _ => simp [shown, message, sending] at hshown
      | _ => cases hshown
  · rcases move_cases moved with ⟨b', intent, hm, _⟩ | ⟨a, e, hm, step, _⟩
    · cases hm
    · cases hm
      cases step with
      | @drop _ d' slow' dropping _ =>
        rw [hdropping] at dropping
        cases dropping
        have hsame := hlists (setBroadcast_unregister h b d (.dropping slow)) hdropping .rfl
          (by simp [Broadcast.slowed, other])
        obtain ⟨hsession, hmember⟩ := unregisterClient_other sound other
        exact ⟨hsession, hmember, fun b' => (hsame b').1, fun b' => (hsame b').2⟩

/-- **Broadcast delivery.** In every state the hub can reach:

* a client that is registered and on no broadcast's list of slow ones was served exactly once by
  every broadcast whose section was over after it had joined, with the message the broadcast was
  called with, and not at all by those whose section was over before;
* a queue holds no more than its capacity, and messages leave it in the order they were put in;
* a client that a broadcast found slow is registered no more when that broadcast has returned;
* turning a client away leaves every other one where it stands. -/
theorem broadcast_delivery (reached : (system sendBufSize).Path .new tr h) :
    (∀ c ∈ h.clients, (∀ b, c ∉ h.slowed b) →
      ∀ pre b post, tr = pre ++ .released b :: post →
        (.joined c ∈ pre → ∃ intent, .called b intent ∈ pre ∧ offers b c tr = [intent]) ∧
        (.joined c ∉ pre → offers b c tr = [])) ∧
    (∀ c session, h.sessions c = some session → session.send.buf.length ≤ sendBufSize ∧
      Fifo (Shown.putTo c) (Shown.takenBy c) session.send.pending tr) ∧
    (∀ b c, .slow b c ∈ tr → .returned b ∈ tr → c ∉ h.clients) ∧
    ∀ m h' o d, h.move sendBufSize m = some (h', o) → TurnsAway h m o d →
      ∀ c, c ≠ d → SameStanding h h' c := by
  refine ⟨?_, ?_, ?_, ?_⟩
  · intro c registered keeping pre b post htr
    subst htr
    exact served_once reached registered (keeping b)
  · intro c session hsession
    obtain ⟨hfifo, hcap⟩ := queues reached c
    have hqueued : h.queued c = session.send.pending := by simp [queued, hsession]
    rw [hqueued] at hfifo
    exact ⟨(hcap session hsession) ▸ session.send.within, hfifo⟩
  · intro b c hslow hreturned
    rcases turnedAway reached hslow with hlisted | hgone
    · rw [slowed_of_returned reached hreturned] at hlisted
      cases hlisted
    · exact hgone
  · intro m h' o d moved turns c other
    exact turnsAway_frame (reached_sound reached) moved turns other

/-- A broadcast with slow clients was called. -/
theorem called_of_slowed (reached : (system sendBufSize).Path .new tr h) {b : BroadcastId}
    {c : ClientId} (listed : c ∈ h.slowed b) : ∃ intent, .called b intent ∈ tr := by
  have hcourse := broadcastCourses reached b
  have hmem : ∃ intent, .called b intent ∈ journal Shown.broadcast? b tr := by
    cases hb : h.broadcasts b with
    | none => simp [slowed, hb] at listed
    | some broadcast =>
      rw [hb] at hcourse
      cases broadcast with
      | entered intent => simp [slowed, hb, Broadcast.slowed] at listed
      | finished => simp [slowed, hb, Broadcast.slowed] at listed
      | sending intent todo slow =>
        obtain ⟨own, _, _, hl⟩ := hcourse
        exact ⟨intent, by rw [hl]; exact List.mem_cons_self⟩
      | dropping slow =>
        obtain ⟨intent, own, _, hl⟩ := hcourse
        exact ⟨intent, by rw [hl]; exact List.mem_cons_self⟩
  obtain ⟨intent, hmem⟩ := hmem
  exact ⟨intent, (mem_journal.mp hmem).1⟩

namespace Sample

open VynxRelayer.Sample

/-- Two clients and two broadcasts: the first client keeps up, the second one is not written to and
is found slow by the second broadcast. -/
def lagging : List Move :=
  [.act (.serve 0), .act (.serve 1), .call 0 intent, .act (.rlock 0), .act (.offer 0 1),
    .act (.offer 0 0), .act (.runlock 0), .act (.finish 0), .act (.write 0), .call 1 intent,
    .act (.rlock 1), .act (.offer 1 1), .act (.offer 1 0), .act (.runlock 1), .act (.drop 1),
    .act (.finish 1)]

def laggingTrace : List Shown :=
  [.joined 0, .joined 1, .called 0 intent, .put 0 1 intent, .put 0 0 intent, .released 0,
    .returned 0, .taken 0 intent, .called 1 intent, .slow 1 1, .put 1 0 intent, .released 1,
    .returned 1]

end Sample

/-- The client that keeps up is served by both broadcasts, and the other one is turned away. -/
theorem broadcast_delivery_lagging : ∃ h, (system 1).Path .new Sample.laggingTrace h ∧
    0 ∈ h.clients ∧ (∀ b, 0 ∉ h.slowed b) ∧
    (∃ intent, offers 1 0 Sample.laggingTrace = [intent]) ∧ 1 ∉ h.clients := by
  have hrun : ((system 1).run .new Sample.lagging).map (fun r => (r.2, r.1.clients)) =
      some (Sample.laggingTrace, [0]) := by
    decide +kernel
  obtain ⟨⟨h, tr⟩, hplayed, heq⟩ := Option.map_eq_some_iff.mp hrun
  simp only [Prod.mk.injEq] at heq
  obtain ⟨rfl, hclients⟩ := heq
  have reached := System.path_of_run hplayed
  have hregistered : 0 ∈ h.clients := by rw [hclients]; exact List.mem_cons_self
  have hkeeping : ∀ b, 0 ∉ h.slowed b := by
    intro b hlisted
    obtain ⟨intent, hcalled⟩ := called_of_slowed reached hlisted
    have hb : b = 0 ∨ b = 1 := by
      simp only [Sample.laggingTrace, List.mem_cons, Shown.called.injEq, reduceCtorEq, false_or,
        List.not_mem_nil, or_false] at hcalled
      exact hcalled.imp And.left And.left
    have hreturned : .returned b ∈ Sample.laggingTrace := by
      rcases hb with rfl | rfl <;> decide
    rw [slowed_of_returned reached hreturned] at hlisted
    cases hlisted
  obtain ⟨hserved, _, hturned, _⟩ := broadcast_delivery reached
  refine ⟨h, reached, hregistered, hkeeping, ?_, hturned 1 1 (by decide) (by decide)⟩
  obtain ⟨intent, _, hoffers⟩ :=
    (hserved 0 hregistered hkeeping (Sample.laggingTrace.take 11) 1 [.returned 1] rfl).1 (by decide)
  exact ⟨intent, hoffers⟩

end Hub

end VynxRelayer.Ingress
