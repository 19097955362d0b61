import Mathlib.Data.List.Nodup
import VynxRelayer.Lib.Table
import VynxRelayer.Lib.Tickets
import VynxRelayer.TxManager.Executor

/-!
# A nonce counter shared by goroutines

`NonceQueue` takes no lock. `Next` is one atomic add, and the subtraction that undoes its increment
is done later, on the goroutine's own copy of the sum; `Resync` asks the node and stores its answer,
whatever the others did in the meantime. Here the methods are the goroutines that execute them, one
step at a time, and between two steps of one goroutine any other one may move. A goroutine that is
left alone computes `NonceQueue.next` and `NonceQueue.resync` (`next_alone`, `resync_alone`).

While nobody calls `Resync`, the counter is a ticket office (`Lib.Tickets`) seen modulo 2^64: a call
that takes ticket `i` returns the seed plus `i`, also where the sum had wrapped to zero when 1 was
subtracted from it (`exists_tickets`). So any number of overlapping calls get a contiguous block of
nonces, and of two calls that do not overlap the later one gets the later nonce (`next_contiguous`).
-/

namespace VynxRelayer.TxManager

open Lib

/-- The errors of `NewNonceQueue` and `Resync`: the node did not answer. -/
inductive QueueError where
  | seed (addr : Address) (cause : Bytes)
  | resync (addr : Address) (cause : Bytes)
  deriving DecidableEq

/-- The text of an error, given how an address is written (`Address.Hex`). -/
def QueueError.text (hex : Address → Bytes) : QueueError → Bytes
  | .seed addr cause =>
    ascii "failed to seed nonce queue for address " ++ hex addr ++ ascii ": " ++ cause
  | .resync addr cause =>
    ascii "failed to resync nonce for address " ++ hex addr ++ ascii ": " ++ cause

/-- `NewNonceQueue`: a counter at the node's pending nonce. -/
def NonceQueue.new (addr : Address) (pendingNonceAt : Except Bytes UInt64) :
    Except QueueError NonceQueue :=
  match pendingNonceAt with
  | .error cause => .error (.seed addr cause)
  | .ok n => .ok { current := n }

namespace Sharing

/-! ## The methods as threads -/

abbrev Goroutine := Nat

/-- Where a goroutine stands in the methods of the counter. -/
inductive Stand where
  | idle
  /-- in `Next`, before the atomic add -/
  | entered
  /-- in `Next`, with the sum that the add returned -/
  | added (sum : UInt64)
  /-- about to return from `Next` -/
  | subtracted (nonce : UInt64)
  /-- in `Resync`, waiting for the node -/
  | asking (addr : Address)
  /-- in `Resync`, with the node's answer -/
  | fetched (n : UInt64)
  /-- about to return from `Resync` -/
  | resynced (err : Option QueueError)
  deriving DecidableEq

/-- The counter and the goroutines that share it. -/
structure State where
  queue : NonceQueue
  stand : Goroutine → Stand

/-- What a scheduler can choose to do next. -/
inductive Action where
  | callNext (g : Goroutine)
  | add (g : Goroutine)
  | subtract (g : Goroutine)
  | returnNext (g : Goroutine)
  | callResync (g : Goroutine) (addr : Address)
  /-- the node answers, or the RPC call fails -/
  | fetch (g : Goroutine) (pendingNonceAt : Except Bytes UInt64)
  | store (g : Goroutine)
  | returnResync (g : Goroutine)

/-- The steps of `Next`. -/
def Action.ofNext : Action → Bool
  | .callNext _ => true
  | .add _ => true
  | .subtract _ => true
  | .returnNext _ => true
  | _ => false

/-- What a step shows. -/
inductive Event where
  | nextCalled (g : Goroutine)
  | nextReturned (g : Goroutine) (nonce : UInt64)
  | resyncCalled (g : Goroutine) (addr : Address)
  | resyncReturned (g : Goroutine) (err : Option QueueError)
  deriving DecidableEq

namespace State

/-- A counter that nobody has called. -/
def start (q : NonceQueue) : State := ⟨q, fun _ => .idle⟩

/-- A goroutine moves on. -/
def move (s : State) (g : Goroutine) (stand : Stand) : State :=
  { s with stand := Function.update s.stand g stand }

/-- The counter is written. -/
def write (s : State) (current : UInt64) : State := { s with queue := { current } }

variable (s : State) (g : Goroutine) (a b : Stand) (n : UInt64)

@[simp]
theorem stand_move : (s.move g a).stand g = a := Function.update_self ..

@[simp]
theorem queue_move : (s.move g a).queue = s.queue := rfl

@[simp]
theorem stand_write : (s.write n).stand = s.stand := rfl

@[simp]
theorem queue_write : (s.write n).queue = ⟨n⟩ := rfl

@[simp]
theorem write_move : (s.move g a).write n = (s.write n).move g a := rfl

@[simp]
theorem move_move : (s.move g a).move g b = s.move g b := by
  simp only [move, Function.update_idem]

variable {s g a}

theorem move_same (h : s.stand g = a) : s.move g a = s := by
  rw [move, ← h, Function.update_eq_self]

end State

/-- One step of one goroutine. -/
def next (s : State) : Action → Option (State × Option Event)
  | .callNext g =>
    match s.stand g with
    | .idle => some (s.move g .entered, some (.nextCalled g))
    | _ => none
  | .add g =>
    match s.stand g with
    | .entered =>
      let sum := s.queue.current + 1
      some ((s.write sum).move g (.added sum), none)
    | _ => none
  | .subtract g =>
    match s.stand g with
    | .added sum => some (s.move g (.subtracted (sum - 1)), none)
    | _ => none
  | .returnNext g =>
    match s.stand g with
    | .subtracted nonce => some (s.move g .idle, some (.nextReturned g nonce))
    | _ => none
  | .callResync g addr =>
    match s.stand g with
    | .idle => some (s.move g (.asking addr), some (.resyncCalled g addr))
    | _ => none
  | .fetch g pendingNonceAt =>
    match s.stand g with
    | .asking addr =>
      match pendingNonceAt with
      | .error cause => some (s.move g (.resynced (some (.resync addr cause))), none)
      | .ok n => some (s.move g (.fetched n), none)
    | _ => none
  | .store g =>
    match s.stand g with
    | .fetched n => some ((s.write n).move g (.resynced none), none)
    | _ => none
  | .returnResync g =>
    match s.stand g with
    | .resynced err => some (s.move g .idle, some (.resyncReturned g err))
    | _ => none

/-- The shared counter as a system. -/
def sharing : System State Action Event := ⟨next⟩

/-- **What one step can do**, to the counter and to a goroutine. -/
inductive Step (s : State) : Action → State → Option Event → Prop
  | callNext {g} (idle : s.stand g = .idle) :
      Step s (.callNext g) (s.move g .entered) (some (.nextCalled g))
  | add {g} (entered : s.stand g = .entered) :
      Step s (.add g) ((s.write (s.queue.current + 1)).move g (.added (s.queue.current + 1))) none
  | subtract {g sum} (added : s.stand g = .added sum) :
      Step s (.subtract g) (s.move g (.subtracted (sum - 1))) none
  | returnNext {g nonce} (subtracted : s.stand g = .subtracted nonce) :
      Step s (.returnNext g) (s.move g .idle) (some (.nextReturned g nonce))
  | callResync {g addr} (idle : s.stand g = .idle) :
      Step s (.callResync g addr) (s.move g (.asking addr)) (some (.resyncCalled g addr))
  | fail {g addr cause} (asking : s.stand g = .asking addr) :
      Step s (.fetch g (.error cause)) (s.move g (.resynced (some (.resync addr cause)))) none
  | fetch {g addr n} (asking : s.stand g = .asking addr) :
      Step s (.fetch g (.ok n)) (s.move g (.fetched n)) none
  | store {g n} (fetched : s.stand g = .fetched n) :
      Step s (.store g) ((s.write n).move g (.resynced none)) none
  | returnResync {g err} (resynced : s.stand g = .resynced err) :
      Step s (.returnResync g) (s.move g .idle) (some (.resyncReturned g err))

theorem step_cases {s s' : State} {a : Action} {o : Option Event}
    (h : sharing.next s a = some (s', o)) : Step s a s' o := by
  cases a with
  | callNext g =>
    simp only [sharing, next] at h
    split at h <;> cases h
    exact .callNext ‹_›
  | add g =>
    simp only [sharing, next] at h
    split at h <;> cases h
    exact .add ‹_›
  | subtract g =>
    simp only [sharing, next] at h
    split at h <;> cases h
    exact .subtract ‹_›
  | returnNext g =>
    simp only [sharing, next] at h
    split at h <;> cases h
    exact .returnNext ‹_›
  | callResync g addr =>
    simp only [sharing, next] at h
    split at h <;> cases h
    exact .callResync ‹_›
  | fetch g answer =>
    simp only [sharing, next] at h
    split at h
    · split at h <;> cases h
      · exact .fail ‹_›
      · exact .fetch ‹_›
    · cases h
  | store g =>
    simp only [sharing, next] at h
    split at h <;> cases h
    exact .store ‹_›
  | returnResync g =>
    simp only [sharing, next] at h
    split at h <;> cases h
    exact .returnResync ‹_›

/-! ## One goroutine alone -/

/-- Alone, a goroutine in `Next` does what `NonceQueue.next` does. -/
theorem next_alone {s : State} {g : Goroutine} (idle : s.stand g = .idle) :
    sharing.run s [.callNext g, .add g, .subtract g, .returnNext g] =
      some (s.write s.queue.next.2.current, [.nextCalled g, .nextReturned g s.queue.next.1]) := by
  have hidle : (s.write (s.queue.current + 1)).stand g = .idle := idle
  simp [System.run, sharing, next, idle, State.move_same hidle, NonceQueue.next]

/-- The steps of `Resync`: it stores only what the node answered. -/
def resyncSteps (g : Goroutine) (addr : Address) : Except Bytes UInt64 → List Action
  | .ok n => [.callResync g addr, .fetch g (.ok n), .store g, .returnResync g]
  | .error cause => [.callResync g addr, .fetch g (.error cause), .returnResync g]

/-- What `Resync` returns. -/
def resyncError (addr : Address) : Except Bytes UInt64 → Option QueueError
  | .ok _ => none
  | .error cause => some (.resync addr cause)

/-- Alone, a goroutine in `Resync` does what `NonceQueue.resync` does. -/
theorem resync_alone {s : State} {g : Goroutine} (idle : s.stand g = .idle) (addr : Address)
    (answer : Except Bytes UInt64) :
    sharing.run s (resyncSteps g addr answer) =
      some (s.write (s.queue.resync answer).current,
        [.resyncCalled g addr, .resyncReturned g (resyncError addr answer)]) := by
  cases answer with
  | ok n =>
    have hidle : (s.write n).stand g = .idle := idle
    simp [resyncSteps, resyncError, System.run, sharing, next, idle, State.move_same hidle,
      NonceQueue.resync]
  | error cause =>
    simp [resyncSteps, resyncError, System.run, sharing, next, idle, State.move_same idle,
      NonceQueue.resync]
    rfl

/-! ## The counter as a ticket office -/

/-- The nonce of a ticket. -/
def nonceOf (seed : UInt64) (i : Nat) : UInt64 := seed + UInt64.ofNat i

theorem toNat_nonceOf (seed : UInt64) (i : Nat) :
    (nonceOf seed i).toNat = (seed.toNat + i) % 2 ^ 64 := by
  rw [nonceOf, UInt64.toNat_add, UInt64.toNat_ofNat', Nat.add_mod_mod]

theorem nonceOf_succ (seed : UInt64) (i : Nat) : nonceOf seed (i + 1) = nonceOf seed i + 1 := by
  rw [nonceOf, UInt64.ofNat_add, ← UInt64.add_assoc]
  rfl

/-- Tickets below 2^64 have different nonces. -/
theorem nonceOf_inj {seed : UInt64} {i j : Nat} (hi : i < 2 ^ 64) (hj : j < 2 ^ 64)
    (same : nonceOf seed i = nonceOf seed j) : i = j := by
  have hnat := congrArg UInt64.toNat same
  rw [toNat_nonceOf, toNat_nonceOf] at hnat
  omega

/-- What an event of the office is, as one of the counter. -/
def shown (seed : UInt64) : Tickets.Event Goroutine → Event
  | .called g => .nextCalled g
  | .returned g i => .nextReturned g (nonceOf seed i)

/-- A goroutine stands where a party of the office does. The ticket is taken by the add, so after it
the goroutine has the ticket's nonce, at first with 1 added to it. -/
inductive Matches (seed : UInt64) : Stand → Tickets.Stand → Prop
  | idle : Matches seed .idle .idle
  | entered : Matches seed .entered .waiting
  | added {i : Nat} : Matches seed (.added (nonceOf seed i + 1)) (.holding i)
  | subtracted {i : Nat} : Matches seed (.subtracted (nonceOf seed i)) (.holding i)

/-- The counter is the nonce of the next ticket. -/
structure Counts (seed : UInt64) (s : State) (t : Tickets.Office Goroutine) : Prop where
  current : s.queue.current = nonceOf seed t.issued
  stands : ∀ g, Matches seed (s.stand g) (t.stand g)

namespace Counts

variable {seed : UInt64} {s : State} {t : Tickets.Office Goroutine} {g : Goroutine}

theorem start (seed : UInt64) : Counts seed (.start ⟨seed⟩) .new where
  current := (UInt64.add_zero seed).symm
  stands _ := .idle

/-- A goroutine and its party move on together. -/
theorem move {a : Stand} {a' : Tickets.Stand} (h : Counts seed s t) (moved : Matches seed a a') :
    Counts seed (s.move g a) { t with stand := Function.update t.stand g a' } where
  current := h.current
  stands := update_related h.stands moved

/-- A goroutine moves on with its ticket, and its party does not. -/
theorem stay {a : Stand} (h : Counts seed s t) (stays : Matches seed a (t.stand g)) :
    Counts seed (s.move g a) t where
  current := h.current
  stands := update_related_left h.stands stays

/-- The add takes the ticket whose nonce the counter was. -/
theorem take (h : Counts seed s t) :
    Counts seed (s.write (s.queue.current + 1)) { t with issued := t.issued + 1 } where
  current := by
    rw [State.queue_write, h.current, nonceOf_succ]
  stands := h.stands

/-- **Every step of `Next` is a step of the office**, but for the subtraction, which is not seen
there. -/
theorem answer {s' : State} {a : Action} {o : Option Event} (h : Counts seed s t)
    (ofNext : a.ofNext = true) (step : Step s a s' o) :
    ∃ tr t', (Tickets.office Goroutine).Path t tr t' ∧ Counts seed s' t' ∧
      tr.filterMap (some ∘ shown seed) = o.toList.filterMap some := by
  cases step with
  | @callNext g idle =>
    obtain ⟨_, hparty, ⟨⟩⟩ := exists_related h.stands idle
    have hstep : (Tickets.office Goroutine).next t (.call g) =
        some ({ t with stand := Function.update t.stand g .waiting }, some (.called g)) := by
      simp only [Tickets.office, Tickets.next, hparty]
    exact ⟨_, _, .single hstep, h.move .entered, rfl⟩
  | @add g entered =>
    obtain ⟨_, hparty, ⟨⟩⟩ := exists_related h.stands entered
    have hstep : (Tickets.office Goroutine).next t (.take g) =
        some (⟨t.issued + 1, Function.update t.stand g (.holding t.issued)⟩, none) := by
      simp only [Tickets.office, Tickets.next, hparty]
    refine ⟨_, _, .single hstep, h.take.move ?_, rfl⟩
    rw [h.current]
    exact .added
  | @subtract g sum added =>
    obtain ⟨_, hparty, hmatch⟩ := exists_related h.stands added
    cases hmatch with
    | @added i =>
      -- the sum may have wrapped to zero, and the difference is the nonce all the same
      rw [UInt64.add_sub_cancel]
      exact ⟨[], t, .nil, h.stay (by rw [hparty]; exact .subtracted), rfl⟩
  | @returnNext g nonce subtracted =>
    obtain ⟨_, hparty, hmatch⟩ := exists_related h.stands subtracted
    cases hmatch with
    | @subtracted i =>
      have hstep : (Tickets.office Goroutine).next t (.back g) =
          some ({ t with stand := Function.update t.stand g .idle }, some (.returned g i)) := by
        simp only [Tickets.office, Tickets.next, hparty]
      exact ⟨_, _, .single hstep, h.move .idle, rfl⟩
  | callResync _ | fail _ | fetch _ | store _ | returnResync _ => cases ofNext

/-- When the goroutines are back, so are their parties. -/
theorem idle (h : Counts seed s t) (idle : ∀ g, s.stand g = .idle) (g : Goroutine) :
    t.stand g = .idle := by
  obtain ⟨_, hparty, ⟨⟩⟩ := exists_related h.stands (idle g)
  exact hparty

end Counts

/-- A run in which nobody calls `Resync`, from a counter at `seed`. -/
abbrev NextRun (seed : UInt64) (tr : List Event) (s : State) : Prop :=
  sharing.PathOn (fun _ a => a.ofNext = true) (.start ⟨seed⟩) tr s

/-- **The counter is a ticket office**: a run without `Resync` is a run of the office, seen through
the nonces of its tickets. -/
theorem exists_tickets {seed : UInt64} {tr : List Event} {s : State} (run : NextRun seed tr s) :
    ∃ tr' t, (Tickets.office Goroutine).Path .new tr' t ∧ Counts seed s t ∧
      tr = tr'.map (shown seed) := by
  obtain ⟨tr', t, hpath, hcounts, hseen⟩ :=
    run.simulated some (some ∘ shown seed) (Counts.start seed)
      fun s t a s' o h ofNext step => h.answer ofNext (step_cases step)
  refine ⟨tr', t, hpath, hcounts, ?_⟩
  rw [List.filterMap_eq_map, List.filterMap_some] at hseen
  exact hseen.symm

/-! ## The block -/

def Event.isCall : Event → Bool
  | .nextCalled _ => true
  | _ => false

def Event.nonce? : Event → Option UInt64
  | .nextReturned _ nonce => some nonce
  | _ => none

/-- The calls of `Next` in a trace. -/
def calls (tr : List Event) : Nat := tr.countP Event.isCall

/-- The nonces that `Next` returned in a trace. -/
def nonces (tr : List Event) : List UInt64 := tr.filterMap Event.nonce?

theorem calls_shown (seed : UInt64) (tr : List (Tickets.Event Goroutine)) :
    calls (tr.map (shown seed)) = Tickets.calls tr := by
  rw [calls, List.countP_map, Tickets.calls]
  refine List.countP_congr fun e _ => ?_
  cases e <;> exact Iff.rfl

theorem nonces_shown (seed : UInt64) (tr : List (Tickets.Event Goroutine)) :
    nonces (tr.map (shown seed)) = (Tickets.returned tr).map (nonceOf seed) := by
  rw [nonces, List.filterMap_map, Tickets.returned, List.map_filterMap]
  refine List.filterMap_congr fun e _ => ?_
  cases e <;> rfl

theorem shown_eq_nextCalled {seed : UInt64} {e : Tickets.Event Goroutine} {g : Goroutine}
    (h : shown seed e = .nextCalled g) : e = .called g := by
  cases e with
  | called g' => cases h; rfl
  | returned g' i => cases h

theorem shown_eq_nextReturned {seed : UInt64} {e : Tickets.Event Goroutine} {g : Goroutine}
    {nonce : UInt64} (h : shown seed e = .nextReturned g nonce) :
    ∃ i, e = .returned g i ∧ nonce = nonceOf seed i := by
  cases e with
  | called g' => cases h
  | returned g' i => cases h; exact ⟨i, rfl, rfl⟩

/-- An event of the counter is one of the office. -/
theorem map_shown_eq_append_cons {seed : UInt64} {tr : List (Tickets.Event Goroutine)}
    {xs ys : List Event} {e : Event} (h : tr.map (shown seed) = xs ++ e :: ys) :
    ∃ xs' e' ys', tr = xs' ++ e' :: ys' ∧ xs'.map (shown seed) = xs ∧ shown seed e' = e ∧
      ys'.map (shown seed) = ys := by
  obtain ⟨xs', rest, rfl, hxs, hrest⟩ := List.map_eq_append_iff.mp h
  obtain ⟨e', ys', rfl, he, hys⟩ := List.map_eq_cons_iff.mp hrest
  exact ⟨xs', e', ys', rfl, hxs, he, hys⟩

/-- The nonces returned are those of different tickets. -/
theorem nonces_nodup {seed : UInt64} {tr : List Event} {s : State} (run : NextRun seed tr s)
    (bound : calls tr ≤ 2 ^ 64) : (nonces tr).Nodup := by
  obtain ⟨tr', t, hpath, _, rfl⟩ := exists_tickets run
  rw [calls_shown] at bound
  rw [nonces_shown]
  have hlt : ∀ i ∈ Tickets.returned tr', i < 2 ^ 64 := by
    intro i hi
    have hissued := Tickets.returned_lt_issued hpath hi
    have hcalls := Tickets.issued_le_calls hpath
    omega
  refine List.Nodup.map_on ?_ (Tickets.returned_nodup hpath)
  intro i hi j hj same
  exact nonceOf_inj (hlt i hi) (hlt j hj) same

/-- The index of a later call is higher. -/
theorem nonces_ordered {seed : UInt64} {tr xs ys zs ws : List Event} {g h : Goroutine}
    {n m : UInt64} {s : State} (run : NextRun seed tr s)
    (split : tr = xs ++ Event.nextReturned g n ::
      (ys ++ Event.nextCalled h :: (zs ++ Event.nextReturned h m :: ws)))
    (first : ∀ m', Event.nextReturned h m' ∉ zs) :
    ∃ i j, i < j ∧ j < calls tr ∧ n = nonceOf seed i ∧ m = nonceOf seed j := by
  obtain ⟨tr', t, hpath, _, rfl⟩ := exists_tickets run
  -- the three events are events of the office
  obtain ⟨xs', _, rest, rfl, _, hearlier, hrest⟩ := map_shown_eq_append_cons split
  obtain ⟨i, rfl, hn⟩ := shown_eq_nextReturned hearlier
  obtain ⟨ys', _, rest', rfl, _, hcalled, hrest'⟩ := map_shown_eq_append_cons hrest
  obtain rfl := shown_eq_nextCalled hcalled
  obtain ⟨zs', _, ws', rfl, hzs, hlater, _⟩ := map_shown_eq_append_cons hrest'
  obtain ⟨j, rfl, hm⟩ := shown_eq_nextReturned hlater
  have hfirst : ∀ j', .returned h j' ∉ zs' := by
    intro j' hj'
    refine first (nonceOf seed j') ?_
    rw [← hzs]
    exact List.mem_map.mpr ⟨_, hj', rfl⟩
  obtain ⟨hlt, hissued⟩ := Tickets.returned_lt hpath hfirst
  rw [calls_shown]
  exact ⟨i, j, hlt, Nat.lt_of_lt_of_le hissued (Tickets.issued_le_calls hpath), hn, hm⟩

/-- **Concurrent `Next` hands out a contiguous block.** In every run of a counter seeded with `seed`
in which nobody calls `Resync`, whoever calls `Next`, how often and in which interleaving:

* when all calls have returned, the counter is the seed plus the number of calls, and the nonces
  returned are the seed plus 0, 1, 2, … up to that number, all modulo 2^64;
* up to 2^64 calls, no nonce is returned twice, and a call that begins after another one has
  returned gets a nonce with a higher index. -/
theorem next_contiguous {addr : Address} {seed : UInt64} {q : NonceQueue} {tr : List Event}
    {s : State} (seeded : NonceQueue.new addr (.ok seed) = .ok q)
    (run : sharing.PathOn (fun _ a => a.ofNext = true) (.start q) tr s) :
    ((∀ g, s.stand g = .idle) →
      s.queue.current.toNat = (seed.toNat + calls tr) % 2 ^ 64 ∧
      ((nonces tr).map UInt64.toNat).Perm
        ((List.range (calls tr)).map fun i => (seed.toNat + i) % 2 ^ 64)) ∧
    (calls tr ≤ 2 ^ 64 →
      (nonces tr).Nodup ∧
      ∀ (xs ys zs ws : List Event) (g h : Goroutine) (n m : UInt64),
        tr = xs ++ Event.nextReturned g n ::
          (ys ++ Event.nextCalled h :: (zs ++ Event.nextReturned h m :: ws)) →
        (∀ m', Event.nextReturned h m' ∉ zs) →
        ∃ i j, i < j ∧ j < calls tr ∧ n.toNat = (seed.toNat + i) % 2 ^ 64 ∧
          m.toNat = (seed.toNat + j) % 2 ^ 64) := by
  cases seeded
  refine ⟨fun idle => ?_, fun bound => ⟨nonces_nodup run bound, ?_⟩⟩
  · obtain ⟨tr', t, hpath, hcounts, rfl⟩ := exists_tickets run
    obtain ⟨hissued, hblock⟩ := Tickets.block hpath (hcounts.idle idle)
    rw [calls_shown, nonces_shown, List.map_map]
    constructor
    · rw [hcounts.current, toNat_nonceOf, hissued]
    · rw [show UInt64.toNat ∘ nonceOf seed = fun i => (seed.toNat + i) % 2 ^ 64 from
        funext (toNat_nonceOf seed)]
      exact hblock.map _
  · intro xs ys zs ws g h n m split first
    obtain ⟨i, j, hlt, hj, rfl, rfl⟩ := nonces_ordered run split first
    exact ⟨i, j, hlt, hj, toNat_nonceOf seed i, toNat_nonceOf seed j⟩

namespace Sample

/-- Three goroutines at a counter two below 2^64. The first to add is the second to return; the sum
of the other is zero; the third one begins after that one has returned. -/
def schedule : List Action :=
  [.callNext 0, .callNext 1, .add 1, .add 0, .subtract 0, .returnNext 0, .callNext 2, .add 2,
    .subtract 1, .returnNext 1, .subtract 2, .returnNext 2]

def trace : List Event :=
  [.nextCalled 0, .nextCalled 1, .nextReturned 0 0xffffffffffffffff, .nextCalled 2,
    .nextReturned 1 0xfffffffffffffffe, .nextReturned 2 0]

/-- The goroutines are back, and the counter has wrapped. -/
theorem played : ∃ s, sharing.run (.start ⟨0xfffffffffffffffe⟩) schedule = some (s, trace) ∧
    s.queue.current = 1 ∧ ∀ g, s.stand g = .idle := by
  refine ⟨?_, ?played, ?wrapped, ?idle⟩
  case played =>
    simp only [schedule, System.run, sharing, next, State.start, State.move, State.write]
    rfl
  case wrapped => rfl
  case idle => rintro (_ | _ | _ | g) <;> rfl

end Sample

/-- The three calls get the last two nonces and the first one, and the counter ends at 1. The call
that begins last gets the last index of the three. -/
theorem next_contiguous_wrapped :
    ∃ s, sharing.run (.start ⟨0xfffffffffffffffe⟩) Sample.schedule = some (s, Sample.trace) ∧
      s.queue.current.toNat = (0xfffffffffffffffe + 3) % 2 ^ 64 ∧
      ((nonces Sample.trace).map UInt64.toNat).Perm [2 ^ 64 - 2, 2 ^ 64 - 1, 0] ∧
      (nonces Sample.trace).Nodup ∧
      ∃ i j, i < j ∧ j < 3 ∧ 2 ^ 64 - 1 = (0xfffffffffffffffe + i) % 2 ^ 64 ∧
        0 = (0xfffffffffffffffe + j) % 2 ^ 64 := by
  obtain ⟨s, hrun, _, hidle⟩ := Sample.played
  have hseeded : NonceQueue.new (VynxRelayer.Sample.address 9) (.ok 0xfffffffffffffffe) =
      .ok ⟨0xfffffffffffffffe⟩ := rfl
  have hpath := System.pathOn_of_run (p := fun _ a => a.ofNext) hrun rfl
  obtain ⟨hblock, hlater⟩ := next_contiguous hseeded hpath
  obtain ⟨hcurrent, hperm⟩ := hblock hidle
  obtain ⟨hnodup, hordered⟩ := hlater (by decide)
  refine ⟨s, hrun, hcurrent, hperm, hnodup, ?_⟩
  exact hordered [.nextCalled 0, .nextCalled 1] [] [.nextReturned 1 0xfffffffffffffffe] [] 0 2 _ _ rfl
    (by simp)

end Sharing

end VynxRelayer.TxManager
