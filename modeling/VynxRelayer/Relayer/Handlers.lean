import VynxRelayer.Ingress.Moves
import VynxRelayer.Ingress.Submission
import VynxRelayer.Relayer.Courses

/-!
# The handlers and the hub

A handler that has pushed its intent is in `BroadcastIntent`, under its own number and with its own
intent, until it answers (`carried`). So the hub within the relayer is called as
`VynxRelayer.Ingress.Membership` allows, and a run of the relayer contains a run of the hub
(`hub_path`).

When no other goroutine comes between its steps, a handler computes
`VynxRelayer.Ingress.Submission`'s function (`submitIntent_alone`).
-/

namespace VynxRelayer.Relayer

open Lib Auction Ingress TxManager

variable {p : Platform} {buf : Buffers} {q : NonceQueue} {tr : List Event} {s s' : State}

/-! ## Which broadcast is whose -/

/-- Where a handler stands, by where its broadcast does. -/
def Carries (handler : Option Handler) : Option Broadcast → Prop
  | none => ∀ intent, handler ≠ some (.broadcasting intent)
  | some (.entered intent) => handler = some (.broadcasting intent)
  | some (.sending intent _ _) => handler = some (.broadcasting intent)
  | some (.dropping _) => ∃ intent, handler = some (.broadcasting intent)
  | some .finished => (∃ intent, handler = some (.broadcasting intent)) ∨ handler = some .done

/-- A handler that has not pushed has no broadcast. -/
theorem Carries.none {handler : Option Handler} {broadcast : Option Broadcast}
    (h : Carries handler broadcast) (early : ∀ intent, handler ≠ some (.broadcasting intent))
    (unanswered : handler ≠ some .done) : broadcast = none := by
  cases broadcast with
  | none => rfl
  | some broadcast =>
    cases broadcast with
    | entered intent | sending intent _ _ => exact absurd h (early intent)
    | dropping _ => obtain ⟨intent, h⟩ := h; exact absurd h (early intent)
    | finished =>
      rcases h with ⟨intent, h⟩ | h
      · exact absurd h (early intent)
      · exact absurd h unanswered

/-- A broadcast that moves on stays with its handler. -/
theorem Carries.update {broadcasts : BroadcastId → Option Broadcast} {b b' : BroadcastId}
    {old new : Broadcast} {handler : Option Handler} (h : Carries handler (broadcasts b))
    (stood : broadcasts b' = some old)
    (keeps : Carries handler (some old) → Carries handler (some new)) :
    Carries handler (Function.update broadcasts b' (some new) b) := by
  by_cases heq : b = b'
  · subst heq
    rw [Function.update_self]
    rw [stood] at h
    exact keeps h
  · rw [Function.update_of_ne heq]
    exact h

/-- A step of the hub keeps a broadcast with its handler. -/
theorem Carries.hub_step {sendBufSize : Nat} {g g' : Hub} {a : Hub.Action} {o : Option Hub.Event}
    (step : Hub.Step sendBufSize g a g' o) {b : BroadcastId} {handler : Option Handler}
    (h : Carries handler (g.broadcasts b)) : Carries handler (g'.broadcasts b) := by
  cases step with
  | rlock called => exact h.update called id
  | offer sending _ _ _ _ | slow sending _ _ _ _ => exact h.update sending id
  | runlock sending => exact h.update sending fun hold => ⟨_, hold⟩
  | @drop b' c slow dropping _ =>
    rw [Hub.setBroadcast_unregister]
    exact h.update dropping id
  | finish dropping => exact h.update dropping .inl
  | serve _ _ | sendClosed _ _ _ _ | write _ _ _ | failWrite _ _ _ | parkWriter _ _ _ _
  | ping _ _ _ | stopWriter _ _ _ | stopReader _ _ => exact h
  | unregister _ _ _ =>
    rw [(Hub.unregisterClient_frame _ _).1]
    exact h
  | shutdown _ =>
    rw [(Hub.closeAll_frame _).1]
    exact h

/-- **A broadcast is its handler's.** -/
theorem carried (h : (system p).Path (.init buf q) tr s) (b : HandlerId) :
    Carries (s.handlers b) (s.hub.broadcasts b) := by
  induction h with
  | nil => intro intent hb; cases hb
  | @snoc tr s s' a o _ _ step ih =>
    -- a handler that has not pushed has no broadcast, and may answer or fail
    have hearly : ∀ b' old new, s.handlers b' = old → (∀ intent, old ≠ some (.broadcasting intent)) →
        old ≠ some .done → (∀ intent, new ≠ Handler.broadcasting intent) →
        Carries (Function.update s.handlers b' (some new) b) (s.hub.broadcasts b) := by
      rintro b' old new rfl hne hdone hnew
      by_cases heq : b = b'
      · subst heq
        rw [Function.update_self, ih.none hne hdone]
        intro intent heq
        exact hnew intent (Option.some.inj heq)
      · rw [Function.update_of_ne heq]
        exact ih
    cases next_cases step with
    | refuse fresh _ | accept fresh _ =>
      exact hearly _ _ _ fresh (by simp) (by simp) (by simp)
    | atCapacity ready _ => exact hearly _ _ _ ready (by simp) (by simp) (by simp)
    | replyError failing => exact hearly _ _ _ failing (by simp) (by simp) (by simp)
    | @push b' intent _ ready _ =>
      by_cases heq : b = b'
      · subst heq
        simp [State.setHandler, Hub.call, Hub.setBroadcast, Carries]
      · simpa [State.setHandler, Hub.call, Hub.setBroadcast, heq] using ih
    | @replyAccepted b' intent _ finished =>
      by_cases heq : b = b'
      · subst heq
        simp [State.setHandler, finished, Carries]
      · simpa [State.setHandler, heq] using ih
    | hub move => exact ih.hub_step (Hub.next_cases move)
    | ignore _ _ | readBid _ _ _ | dropBid _ _ _ | dispatchIntent _ _ _ | parkIntent _ _
    | returnIntent _ _ | dispatchBid _ _ _ | parkBid _ _ | returnBid _ _ | engine _ _
    | receive _ _ | parkExecutor _ _ | settle _ _ _ | fail _ _ _ | notify _ _ | notifyDropped _ _
    | drain _ | parkDrain _ => exact ih

/-- **A run of the relayer contains a run of the hub.** -/
theorem hub_path (h : (system p).Path (.init buf q) tr s) :
    ∃ shown, (Hub.system p.sendBufSize).Path .new shown s.hub := by
  induction h with
  | nil => exact ⟨[], .nil⟩
  | @snoc tr s s' a o hpath _ step ih =>
    obtain ⟨shown, ih⟩ := ih
    have hmove : ∀ m g o, s.hub.move p.sendBufSize m = some (g, o) →
        ∃ shown, (Hub.system p.sendBufSize).Path .new shown g :=
      fun m g o hm => ⟨_, .snoc ih trivial hm⟩
    cases next_cases step with
    | @push b intent _ ready _ =>
      have hfresh : s.hub.broadcasts b = none :=
        (carried hpath b).none (by simp [ready]) (by simp [ready])
      exact hmove (.call b intent) (s.hub.call b intent) (some (.called b intent))
        (by simp [Hub.move, hfresh])
    | @hub a g o move => exact hmove (.act a) g (s.hub.shown a o) (by simp [Hub.move, move])
    | refuse _ _ | accept _ _ | atCapacity _ _ | replyAccepted _ _ | replyError _ | ignore _ _
    | readBid _ _ _ | dropBid _ _ _ | dispatchIntent _ _ _ | parkIntent _ _ | returnIntent _ _
    | dispatchBid _ _ _ | parkBid _ _ | returnBid _ _ | engine _ _ | receive _ _
    | parkExecutor _ _ | settle _ _ _ | fail _ _ _ | notify _ _ | notifyDropped _ _ | drain _
    | parkDrain _ => exact ⟨shown, ih⟩

/-- The hub of a relayer is sound. -/
theorem hub_sound (h : (system p).Path (.init buf q) tr s) : s.hub.Sound := by
  obtain ⟨shown, hpath⟩ := hub_path h
  exact Hub.reached_sound hpath

/-! ## A handler alone -/

/-- The step is one of handler `h`, its broadcast included. -/
def Action.isOf (h : HandlerId) : Action → Bool
  | .post h' _ _ => h' == h
  | .push h' => h' == h
  | .reply h' => h' == h
  | .hub (.rlock b) => b == h
  | .hub (.offer b _) => b == h
  | .hub (.runlock b) => b == h
  | .hub (.drop b) => b == h
  | .hub (.finish b) => b == h
  | _ => false

/-- The hub, with its broadcasts and its lock as given. -/
def withCalls (g : Hub) (broadcasts : BroadcastId → Option Broadcast) (readers : Nat) : Hub :=
  { g with broadcasts, readers }

section

variable {x : BroadcastId → Option Broadcast} {n : Nat} {intent : Ref Intent}

/-- The unregistering of a client looks at the clients and their queues only. -/
theorem unregisterClient_withCalls (g : Hub) (c : ClientId) :
    (withCalls g x n).unregisterClient c = withCalls (g.unregisterClient c) x n := by
  by_cases hmem : c ∈ g.clients
  · cases hsession : g.sessions c with
    | none => simp [Hub.unregisterClient, Hub.close, withCalls, hmem, hsession]
    | some session =>
      cases hclosed : session.closed <;>
        simp [Hub.unregisterClient, Hub.close, Hub.setSession, withCalls, hmem, hsession, hclosed]
  · simp [Hub.unregisterClient, withCalls, hmem]

/-- One turn of the loop is one step. -/
theorem next_offer {h : HandlerId} {c : ClientId} {todo slow : List ClientId} {session : Session}
    (g : Hub) (due : c ∈ todo) (client : g.sessions c = some session)
    (isOpen : session.closed = false) :
    ∃ e, next p { s with
        hub := withCalls g (Function.update x h (some (.sending intent todo slow))) n }
        (.hub (.offer h c)) =
      some ({ s with
        hub := withCalls (Hub.offerTo intent (g, slow) c).1
          (Function.update x h (some (.sending intent (todo.erase c)
            (Hub.offerTo intent (g, slow) c).2))) n }, some e) := by
  cases hsend : session.send.trySend intent with
  | some send =>
    exact ⟨.hub (.offered h c), by
      simp [next, Hub.next, withCalls, due, client, isOpen, hsend, Hub.offerTo, Hub.setSession,
        Hub.setBroadcast]⟩
  | none =>
    exact ⟨.hub (.slow h c), by
      simp [next, Hub.next, withCalls, due, client, isOpen, hsend, Hub.offerTo,
        Hub.setBroadcast]⟩

/-- The loop of a broadcast, step by step. -/
theorem run_offers {h : HandlerId} {todo slow order : List ClientId} (g : Hub)
    (all : order.Perm todo) (distinct : order.Nodup)
    (isOpen : ∀ c ∈ order, ∃ session, g.sessions c = some session ∧ session.closed = false) :
    ∃ tr, (system p).run { s with
        hub := withCalls g (Function.update x h (some (.sending intent todo slow))) n }
        (order.map fun c => .hub (.offer h c)) =
      some ({ s with
        hub := withCalls (order.foldl (Hub.offerTo intent) (g, slow)).1
          (Function.update x h
            (some (.sending intent [] (order.foldl (Hub.offerTo intent) (g, slow)).2))) n }, tr) := by
  induction order generalizing g todo slow with
  | nil =>
    obtain rfl := all.nil_eq
    exact ⟨[], rfl⟩
  | cons c order ih =>
    obtain ⟨hnew, hdistinct⟩ := List.nodup_cons.mp distinct
    obtain ⟨due, hrest⟩ := List.cons_perm_iff_perm_erase.mp all
    obtain ⟨session, hsession, hopen⟩ := isOpen c List.mem_cons_self
    obtain ⟨e, hstep⟩ := next_offer (p := p) (s := s) (x := x) (n := n) g due hsession hopen
    obtain ⟨tr, hrun⟩ := @ih _ (Hub.offerTo intent (g, slow) c).2
      (Hub.offerTo intent (g, slow) c).1 hrest hdistinct (by
        intro c' hc'
        have hne : c' ≠ c := by
          rintro rfl
          exact hnew hc'
        obtain ⟨session', hsession', hopen'⟩ := isOpen c' (List.mem_cons_of_mem _ hc')
        rw [Hub.offerTo_eq hsession hopen]
        exact ⟨session', update_some_eq_some.mpr (.inr ⟨hne, hsession'⟩), hopen'⟩)
    exact ⟨e :: tr, System.run_cons_eq_some.mpr ⟨_, _, _, hstep, hrun, rfl⟩⟩

/-- The unregistering of the slow clients, step by step. -/
theorem run_drops {h : HandlerId} {slow : List ClientId} (g : Hub) :
    (system p).run { s with hub := withCalls g (Function.update x h (some (.dropping slow))) 0 }
        (slow.map fun _ => .hub (.drop h)) =
      some ({ s with
        hub := withCalls (slow.foldl Hub.unregisterClient g)
          (Function.update x h (some (.dropping []))) 0 }, []) := by
  induction slow generalizing g with
  | nil => rfl
  | cons c slow ih =>
    have hdrop : ((withCalls g (Function.update x h (some (.dropping (c :: slow)))) 0).unregisterClient
        c).setBroadcast h (.dropping slow) =
          withCalls (g.unregisterClient c) (Function.update x h (some (.dropping slow))) 0 := by
      rw [unregisterClient_withCalls]
      simp [withCalls, Hub.setBroadcast]
    refine System.run_cons_eq_some.mpr ⟨_, none, [], ?_, ih (g.unregisterClient c), rfl⟩
    simp only [system, next, Hub.next, ← hdrop]
    simp [withCalls]

/-- A handler alone, when its request is valid and its push finds room. -/
theorem accepted_alone {h : HandlerId} {r : Request} {now : Int} {order : List ClientId}
    {intentCh : Chan (Ref Intent)} (fresh : s.handlers h = none) (free : s.hub.readers = 0)
    (sound : s.hub.Sound) (all : order.Perm s.hub.clients)
    (valid : submitIntent p.intake now h r = .ok intent)
    (sent : s.intentCh.trySend intent = some intentCh) :
    ∃ as tr broadcasts, (∀ a ∈ as, a.isOf h = true) ∧
      (system p).run s as = some ({ s with
        handlers := Function.update s.handlers h (some .done)
        intentCh
        hub := { s.hub.broadcastIntent order intent with broadcasts } },
          tr ++ [.replied h (.accepted intent.val.id.bytes)]) ∧
      ∀ b, b ≠ h → broadcasts b = s.hub.broadcasts b := by
  have hopen : ∀ c ∈ order, ∃ session, s.hub.sessions c = some session ∧
      session.closed = false :=
    fun c hc => sound.exists_open c (all.mem_iff.mp hc)
  have hreaders : (s.hub.broadcastIntent order intent).readers = 0 :=
    (sound.broadcasted all intent).rest.2.1.trans free
  -- from the push on, only the hub and, at the end, the handler's own place change
  let pushed : State :=
    { s with handlers := Function.update s.handlers h (some (.broadcasting intent)), intentCh }
  let found := order.foldl (Hub.offerTo intent) (s.hub, [])
  have hbegin : (system p).run s [.post h r now, .push h, .hub (.rlock h)] =
      some ({ pushed with
        hub := withCalls s.hub
          (Function.update s.hub.broadcasts h (some (.sending intent s.hub.clients []))) 1 },
        [.enqueued h intent]) := by
    simp [System.run, system, next, fresh, valid, sent, State.setHandler, Hub.call, Hub.next,
      Hub.setBroadcast, withCalls, free, pushed]
  obtain ⟨tr, hoffers⟩ := @run_offers p pushed s.hub.broadcasts 1 intent h s.hub.clients [] order
    s.hub all (all.nodup_iff.mpr sound.distinct) hopen
  have hrelease : (system p).run { pushed with
        hub := withCalls found.1
          (Function.update s.hub.broadcasts h (some (.sending intent [] found.2))) 1 }
        [.hub (.runlock h)] =
      some ({ pushed with
        hub := withCalls found.1
          (Function.update s.hub.broadcasts h (some (.dropping found.2))) 0 }, []) := by
    simp [System.run, system, next, Hub.next, Hub.setBroadcast, withCalls]
  have hdrops := @run_drops p pushed s.hub.broadcasts h found.2 found.1
  have hend : (system p).run { pushed with
        hub := withCalls (s.hub.broadcastIntent order intent)
          (Function.update s.hub.broadcasts h (some (.dropping []))) 0 }
        [.hub (.finish h), .reply h] =
      some ({ pushed with
        handlers := Function.update s.handlers h (some .done)
        hub := withCalls (s.hub.broadcastIntent order intent)
          (Function.update s.hub.broadcasts h (some .finished)) 0 },
        [.replied h (.accepted intent.val.id.bytes)]) := by
    simp [System.run, system, next, Hub.next, Hub.setBroadcast, withCalls, State.setHandler, pushed]
  have hrun := System.run_append_eq_some.mpr ⟨_, _, _, hbegin, System.run_append_eq_some.mpr
    ⟨_, _, _, hoffers, System.run_append_eq_some.mpr ⟨_, _, _, hrelease,
      System.run_append_eq_some.mpr ⟨_, _, _, hdrops, hend, rfl⟩, rfl⟩, rfl⟩, rfl⟩
  refine ⟨_, .enqueued h intent :: tr, Function.update s.hub.broadcasts h (some .finished), ?_,
    hrun.trans ?_, fun b hb => Function.update_of_ne hb _ _⟩
  · intro a ha
    simp only [List.mem_append, List.mem_cons, List.mem_map, List.not_mem_nil, or_false] at ha
    rcases ha with (rfl | rfl | rfl) | ⟨c, _, rfl⟩ | rfl | ⟨c, _, rfl⟩ | rfl | rfl <;>
      exact beq_self_eq_true h
  · simp [withCalls, hreaders, pushed]

/-- **A handler alone computes `SubmitIntent`.** In any run, where the handler is new and the hub's
lock is free, its own steps lead to the response, the channel and the hub of `Handler.submitIntent`,
and change nothing else. -/
theorem submitIntent_alone {h : HandlerId} {r : Request} {now : Int} {order : List ClientId}
    {out : Response × Shared} (path : (system p).Path (.init buf q) tr s)
    (fresh : s.handlers h = none) (free : s.hub.readers = 0) (all : order.Perm s.hub.clients)
    (computed : Handler.submitIntent p.intake now h order r ⟨s.intentCh, s.hub⟩ = out) :
    ∃ as shown broadcasts, (∀ a ∈ as, a.isOf h = true) ∧
      (system p).run s as = some ({ s with
        handlers := Function.update s.handlers h (some .done)
        intentCh := out.2.intentCh
        hub := { out.2.hub with broadcasts } }, shown ++ [.replied h out.1]) ∧
      ∀ b, b ≠ h → broadcasts b = s.hub.broadcasts b := by
  unfold Handler.submitIntent at computed
  split at computed
  · rename_i response hsubmit
    subst computed
    refine ⟨[.post h r now, .reply h], [], s.hub.broadcasts, by simp [Action.isOf], ?_,
      fun _ _ => rfl⟩
    simp [System.run, system, next, fresh, hsubmit, State.setHandler]
  · rename_i intent hsubmit
    split at computed
    · rename_i hfull
      subst computed
      refine ⟨[.post h r now, .push h, .reply h], [], s.hub.broadcasts, by simp [Action.isOf], ?_,
        fun _ _ => rfl⟩
      simp [System.run, system, next, fresh, hsubmit, hfull, State.setHandler]
    · rename_i intentCh hsent
      subst computed
      exact accepted_alone fresh free (hub_sound path) all hsubmit hsent

end

end VynxRelayer.Relayer
