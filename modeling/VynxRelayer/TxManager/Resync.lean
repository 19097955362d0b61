import VynxRelayer.Lib.Atomic
import VynxRelayer.TxManager.Reservations

/-!
# The nonce counter under `Next` and `Resync`

`VynxRelayer.TxManager.Reservations` follows the counter while nobody calls `Resync`. Here anybody
calls anything: a `Resync` may ask the node, be overtaken by any number of `Next`s and other
`Resync`s, and then store its answer over what they made of the counter.

The counter is still an atomic object (`VynxRelayer.Lib.Atomic`): a `Next` takes place at its add, a
`Resync` at its store, or where the node failed it, and every run has a sequential one with the same
answers (`resync_linearizable`). So a `Next` never gets half of a `Resync`: its nonce is the value
stored last before it, or the seed, plus the number of `Next`s in between.

Two `Next`s on different sides of a store can get the same nonce, when the stored value lies below
the counter. That is the only way: while every store puts the counter forward, no nonce is handed
out twice (`nonces_distinct`).
-/

namespace VynxRelayer.TxManager.Sharing

open Lib

/-! ## The counter as an atomic object -/

/-- The counter's operations. -/
inductive Op where
  | next
  | resync (addr : Address)

/-- What they return. -/
inductive Answer where
  | nonce (n : UInt64)
  | resynced (err : Option QueueError)

/-- What the operations do, one at a time; a `Resync` gets the node's answer. -/
def spec : Atomic.Spec NonceQueue Op (Except Bytes UInt64) Answer where
  apply q op pendingNonceAt :=
    match op with
    | .next => (q.next.2, .nonce q.next.1)
    | .resync addr => (q.resync pendingNonceAt, .resynced (resyncError addr pendingNonceAt))

/-- A call or a return of one of the counter's operations. -/
def Event.atomic : Event → Atomic.Event Goroutine Op Answer
  | .nextCalled g => .called g .next
  | .nextReturned g nonce => .returned g (.nonce nonce)
  | .resyncCalled g addr => .called g (.resync addr)
  | .resyncReturned g err => .returned g (.resynced err)

/-- A goroutine stands where a party of the object does: before or after its operation takes
place. -/
inductive Places : Stand → Atomic.Stand Op Answer → Prop
  | idle : Places .idle .idle
  | entered : Places .entered (.pending .next)
  | added {sum : UInt64} : Places (.added sum) (.done (.nonce (sum - 1)))
  | subtracted {nonce : UInt64} : Places (.subtracted nonce) (.done (.nonce nonce))
  | asking {addr : Address} : Places (.asking addr) (.pending (.resync addr))
  | fetched {n : UInt64} {addr : Address} : Places (.fetched n) (.pending (.resync addr))
  | resynced {err : Option QueueError} : Places (.resynced err) (.done (.resynced err))

/-- The counter and its goroutines, as an object and its parties. -/
structure Stands (s : State) (t : Atomic.Object NonceQueue Goroutine Op Answer) : Prop where
  value : t.value = s.queue
  places : ∀ g, Places (s.stand g) (t.stand g)

namespace Stands

variable {s : State} {t : Atomic.Object NonceQueue Goroutine Op Answer} {g : Goroutine}

theorem start (q : NonceQueue) : Stands (.start q) (.new q) := ⟨rfl, fun _ => .idle⟩

/-- A goroutine and its party move on together. -/
theorem move {q : NonceQueue} {a : Stand} {b : Atomic.Stand Op Answer} (h : Stands s t)
    (moved : Places a b) : Stands ((s.write q.current).move g a) ⟨q, Function.update t.stand g b⟩ where
  value := rfl
  places := update_related h.places moved

/-- A goroutine moves on within its operation, and its party does not. -/
theorem stay {a : Stand} (h : Stands s t) (stays : Places a (t.stand g)) :
    Stands (s.move g a) t where
  value := h.value
  places := update_related_left h.places stays

/-- **Every step is one of the object's, or within one.** -/
theorem answer {s' : State} {a : Action} {o : Option Event} (h : Stands s t)
    (step : Step s a s' o) :
    ∃ tr t', (Atomic.object spec).Path t tr t' ∧ Stands s' t' ∧
      tr.filterMap some = o.toList.filterMap (some ∘ Event.atomic) := by
  obtain ⟨value, stand⟩ := t
  obtain rfl : value = s.queue := h.value
  cases step with
  | callNext idle =>
    obtain ⟨_, hparty, ⟨⟩⟩ := exists_related h.places idle
    exact ⟨_, _, Atomic.path_call .next hparty, h.move .entered, rfl⟩
  | add entered =>
    obtain ⟨_, hparty, ⟨⟩⟩ := exists_related h.places entered
    -- `Next` asks nobody
    exact ⟨_, _, Atomic.path_act (.ok 0) hparty, h.move (q := s.queue.next.2) .added, rfl⟩
  | subtract added =>
    obtain ⟨_, hparty, ⟨⟩⟩ := exists_related h.places added
    exact ⟨[], _, .nil, h.stay (by rw [hparty]; exact .subtracted), rfl⟩
  | returnNext subtracted =>
    obtain ⟨_, hparty, ⟨⟩⟩ := exists_related h.places subtracted
    exact ⟨_, _, Atomic.path_back hparty, h.move .idle, rfl⟩
  | @callResync g addr idle =>
    obtain ⟨_, hparty, ⟨⟩⟩ := exists_related h.places idle
    exact ⟨_, _, Atomic.path_call (.resync addr) hparty, h.move .asking, rfl⟩
  | @fail g addr cause asking =>
    obtain ⟨_, hparty, ⟨⟩⟩ := exists_related h.places asking
    exact ⟨_, _, Atomic.path_act (Except.error cause) hparty, h.move (q := s.queue) .resynced,
      rfl⟩
  | fetch asking =>
    obtain ⟨_, hparty, ⟨⟩⟩ := exists_related h.places asking
    exact ⟨[], _, .nil, h.stay (by rw [hparty]; exact .fetched), rfl⟩
  | @store g n fetched =>
    obtain ⟨_, hparty, hplaces⟩ := exists_related h.places fetched
    cases hplaces with
    | fetched => exact ⟨_, _, Atomic.path_act (.ok n) hparty, h.move (q := ⟨n⟩) .resynced, rfl⟩
  | returnResync resynced =>
    obtain ⟨_, hparty, ⟨⟩⟩ := exists_related h.places resynced
    exact ⟨_, _, Atomic.path_back hparty, h.move .idle, rfl⟩

end Stands

/-- An operation of the counter that took place. -/
abbrev Entry := Atomic.Entry Goroutine Op (Except Bytes UInt64) Answer

/-- What an operation makes of the value stored last and the number of `Next`s since. -/
def Entry.since (e : Entry) (acc : UInt64 × Nat) : UInt64 × Nat :=
  match e.op, e.choice with
  | .next, _ => (acc.1, acc.2 + 1)
  | .resync _, .ok n => (n, 0)
  | .resync _, .error _ => acc

/-- The value stored last, or the seed, and the number of `Next`s since. -/
def since (seed : UInt64) (h : List Entry) : UInt64 × Nat :=
  h.foldl (fun acc e => Entry.since e acc) (seed, 0)

/-- Executed one after the other, the operations leave the counter that many above the value stored
last. -/
theorem current_of_legal {h : List Entry} : ∀ {v w : NonceQueue} {acc : UInt64 × Nat},
    v.current = nonceOf acc.1 acc.2 → Atomic.Legal spec v h w →
      w.current = nonceOf (h.foldl (fun acc e => Entry.since e acc) acc).1
        (h.foldl (fun acc e => Entry.since e acc) acc).2 := by
  induction h with
  | nil =>
    intro v w acc hv legal
    cases legal
    exact hv
  | cons e h ih =>
    intro v w acc hv legal
    refine ih ?_ legal.2
    obtain ⟨g, op, choice, answer⟩ := e
    cases op with
    | next =>
      show v.next.2.current = nonceOf acc.1 (acc.2 + 1)
      rw [NonceQueue.next_eq, nonceOf_succ, hv]
    | resync addr =>
      cases choice with
      | ok n => exact (UInt64.add_zero n).symm
      | error cause => exact hv

/-- A `Next` gets the value stored last before it, plus the number of `Next`s in between. -/
theorem nonce_of_legal {q w : NonceQueue} {h₁ h₂ : List Entry} {e : Entry}
    (legal : Atomic.Legal spec q (h₁ ++ e :: h₂) w) (isNext : e.op = .next) :
    e.answer = .nonce (nonceOf (since q.current h₁).1 (since q.current h₁).2) := by
  obtain ⟨v, hbefore, hafter⟩ := Atomic.legal_append.mp legal
  have hseed : q.current = nonceOf (q.current, 0).1 (q.current, 0).2 := (UInt64.add_zero _).symm
  have hcurrent := current_of_legal hseed hbefore
  obtain ⟨hanswer, _⟩ := hafter
  rw [isNext] at hanswer
  rw [← hanswer]
  show Answer.nonce v.next.1 = _
  rw [NonceQueue.next_eq, hcurrent]
  rfl

/-- **The counter is linearizable.** In every run of any number of goroutines that call `Next` and
`Resync` as they like, the operations that took place have an order such that executed one after the
other they return what they returned, in the order of the calls where those do not overlap; and a
`Next` returns the value stored last before it in that order, or the seed, plus the number of
`Next`s in between, modulo 2^64. -/
theorem resync_linearizable {q : NonceQueue} {tr : List Event} {s : State}
    (run : sharing.Path (.start q) tr s) :
    ∃ h : List Entry, Atomic.Linearizes spec q (tr.map Event.atomic) h s.queue ∧
      ∀ h₁ e h₂, h = h₁ ++ e :: h₂ → e.op = .next →
        e.answer = .nonce (nonceOf (since q.current h₁).1 (since q.current h₁).2) := by
  obtain ⟨tr', t, hpath, hstands, hseen⟩ :=
    run.simulated (some ∘ Event.atomic) some (Stands.start q)
      fun s t a s' o h step => h.answer (step_cases step)
  rw [List.filterMap_eq_map, List.filterMap_some] at hseen
  obtain ⟨h, hlin⟩ := Atomic.linearizes hpath
  rw [hseen, hstands.value] at hlin
  refine ⟨h, hlin, ?_⟩
  rintro h₁ e h₂ rfl isNext
  exact nonce_of_legal hlin.legal isNext

namespace Sample

/-- A `Resync` asks the node, two `Next`s overtake it, and it stores an answer from before them. -/
def overtaken : List Action :=
  [.callResync 0 (VynxRelayer.Sample.address 9), .fetch 0 (.ok 7), .callNext 1, .add 1, .callNext 2,
    .add 2, .subtract 1, .store 0, .returnNext 1, .returnResync 0, .subtract 2, .returnNext 2,
    .callNext 1, .add 1, .subtract 1, .returnNext 1]

def overtook : List Event :=
  [.resyncCalled 0 (VynxRelayer.Sample.address 9), .nextCalled 1, .nextCalled 2, .nextReturned 1 7,
    .resyncReturned 0 none, .nextReturned 2 8, .nextCalled 1, .nextReturned 1 7]

theorem played_overtaken : ∃ s, sharing.run (.start ⟨7⟩) overtaken = some (s, overtook) ∧
    s.queue.current = 8 := by
  refine ⟨?_, ?played, ?current⟩
  case played =>
    simp only [overtaken, System.run, sharing, next, State.start, State.move, State.write]
    rfl
  case current => rfl

end Sample

/-- The nonce 7 is returned twice, on both sides of the store. -/
theorem resync_linearizable_overtaken :
    ∃ h : List Entry, Atomic.Linearizes spec ⟨7⟩ (Sample.overtook.map Event.atomic) h ⟨8⟩ ∧
      ∀ h₁ e h₂, h = h₁ ++ e :: h₂ → e.op = .next →
        e.answer = .nonce (nonceOf (since 7 h₁).1 (since 7 h₁).2) := by
  obtain ⟨s, hrun, hcurrent⟩ := Sample.played_overtaken
  obtain ⟨h, hlin, hnonces⟩ := resync_linearizable (System.path_of_run hrun)
  have hqueue : s.queue = ⟨8⟩ := by
    cases hq : s.queue
    rw [hq] at hcurrent
    cases hcurrent
    rfl
  rw [hqueue] at hlin
  exact ⟨h, hlin, hnonces⟩

/-! ## While the counter only goes forward -/

/-- A store puts the counter forward, or leaves it, and an add does not wrap it around. -/
def forward (s : State) : Action → Bool
  | .add _ => s.queue.current < 0xffffffffffffffff
  | .store g =>
    match s.stand g with
    | .fetched n => s.queue.current ≤ n
    | _ => true
  | _ => true

/-- The nonce a goroutine has been given and not yet returned. -/
def Stand.nonce? : Stand → Option UInt64
  | .added sum => some (sum - 1)
  | .subtracted nonce => some nonce
  | _ => none

/-- Everything handed out lies below the counter, and is different. -/
structure Handed (tr : List Event) (s : State) : Prop where
  below : ∀ n ∈ nonces tr, n < s.queue.current
  held : ∀ g n, (s.stand g).nonce? = some n → n < s.queue.current ∧ n ∉ nonces tr
  apart : ∀ g g' n, (s.stand g).nonce? = some n → (s.stand g').nonce? = some n → g = g'
  distinct : (nonces tr).Nodup

namespace Handed

variable {tr : List Event} {s : State} {g : Goroutine}

theorem start (q : NonceQueue) : Handed [] (.start q) where
  below := by simp [nonces]
  held := by intro g n h; cases h
  apart := by intro g g' n h; cases h
  distinct := List.nodup_nil

/-- A goroutine's nonce after one of them has moved on. -/
theorem nonce_move {a : Stand} {g' : Goroutine} {n : UInt64}
    (h : ((s.move g a).stand g').nonce? = some n) :
    g' = g ∧ a.nonce? = some n ∨ g' ≠ g ∧ (s.stand g').nonce? = some n := by
  by_cases hg : g' = g
  · subst hg
    rw [State.stand_move] at h
    exact .inl ⟨rfl, h⟩
  · simp only [State.move, Function.update_of_ne hg] at h
    exact .inr ⟨hg, h⟩

/-- A goroutine that moves on without getting or returning a nonce. -/
theorem keep {a : Stand} {tr' : List Event} {n : UInt64} (h : Handed tr s)
    (same : ∀ n, a.nonce? = some n → (s.stand g).nonce? = some n)
    (quiet : nonces tr' = nonces tr) (ahead : s.queue.current ≤ n) :
    Handed tr' ((s.write n).move g a) where
  below m hm := UInt64.lt_of_lt_of_le (h.below m (quiet ▸ hm)) ahead
  held g' m hm := by
    rw [quiet]
    have hm' : (s.stand g').nonce? = some m := by
      rcases nonce_move hm with ⟨rfl, ha⟩ | ⟨_, hold⟩
      · exact same m ha
      · exact hold
    obtain ⟨hlt, hnot⟩ := h.held g' m hm'
    exact ⟨UInt64.lt_of_lt_of_le hlt ahead, hnot⟩
  apart g₁ g₂ m h₁ h₂ := by
    have hold : ∀ g', (((s.write n).move g a).stand g').nonce? = some m →
        (s.stand g').nonce? = some m := by
      intro g' hm
      rcases nonce_move hm with ⟨rfl, ha⟩ | ⟨_, hm⟩
      · exact same m ha
      · exact hm
    exact h.apart g₁ g₂ m (hold g₁ h₁) (hold g₂ h₂)
  distinct := by rw [quiet]; exact h.distinct

/-- An add that does not wrap hands out what the counter was. -/
theorem add {tr : List Event} {s : State} {g : Goroutine} (h : Handed tr s)
    (room : s.queue.current < 0xffffffffffffffff) :
    Handed tr ((s.write (s.queue.current + 1)).move g (.added (s.queue.current + 1))) := by
  have hnew : (Stand.added (s.queue.current + 1)).nonce? = some s.queue.current := by
    rw [Stand.nonce?, UInt64.add_sub_cancel]
  have hlt : s.queue.current < s.queue.current + 1 := UInt64.lt_add_one (UInt64.ne_of_lt room)
  have hup : ∀ n, n < s.queue.current → n < s.queue.current + 1 := fun n hn =>
    UInt64.lt_trans hn hlt
  refine ⟨fun n hn => hup n (h.below n hn), ?_, ?_, h.distinct⟩
  · intro g' n hn
    rcases nonce_move hn with ⟨_, hn⟩ | ⟨_, hn⟩
    · rw [hnew] at hn
      cases hn
      exact ⟨hlt, fun hmem => UInt64.lt_irrefl _ (h.below _ hmem)⟩
    · obtain ⟨hlt, hnot⟩ := h.held g' n hn
      exact ⟨hup n hlt, hnot⟩
  · -- the others hold what lies below the counter
    intro g₁ g₂ n h₁ h₂
    rcases nonce_move h₁ with ⟨rfl, hn₁⟩ | ⟨_, hn₁⟩ <;>
      rcases nonce_move h₂ with ⟨rfl, hn₂⟩ | ⟨_, hn₂⟩
    · rfl
    · rw [hnew] at hn₁
      cases hn₁
      exact absurd (h.held g₂ _ hn₂).1 (UInt64.lt_irrefl _)
    · rw [hnew] at hn₂
      cases hn₂
      exact absurd (h.held g₁ _ hn₁).1 (UInt64.lt_irrefl _)
    · exact h.apart g₁ g₂ n hn₁ hn₂

theorem nonces_append (tr tr' : List Event) : nonces (tr ++ tr') = nonces tr ++ nonces tr' :=
  List.filterMap_append

/-- A return hands over the goroutine's nonce. -/
theorem giveBack {tr : List Event} {s : State} {g : Goroutine} {nonce : UInt64} (h : Handed tr s)
    (subtracted : s.stand g = .subtracted nonce) :
    Handed (tr ++ [.nextReturned g nonce]) (s.move g .idle) := by
  have hheld : (s.stand g).nonce? = some nonce := by rw [subtracted]; rfl
  obtain ⟨hlt, hnot⟩ := h.held g nonce hheld
  have hnonces : nonces (tr ++ [.nextReturned g nonce]) = nonces tr ++ [nonce] := nonces_append ..
  refine ⟨?_, ?_, ?_, ?_⟩
  · intro n hn
    rw [hnonces, List.mem_append, List.mem_singleton] at hn
    rcases hn with hn | rfl
    · exact h.below n hn
    · exact hlt
  · intro g' n hn
    rcases nonce_move hn with ⟨_, hn⟩ | ⟨hne, hn⟩
    · cases hn
    · obtain ⟨hlt', hnot'⟩ := h.held g' n hn
      refine ⟨hlt', ?_⟩
      rw [hnonces, List.mem_append, List.mem_singleton]
      rintro (hmem | rfl)
      · exact hnot' hmem
      · exact hne (h.apart g' g n hn hheld)
  · intro g₁ g₂ n h₁ h₂
    rcases nonce_move h₁ with ⟨_, hn₁⟩ | ⟨_, hn₁⟩
    · cases hn₁
    · rcases nonce_move h₂ with ⟨_, hn₂⟩ | ⟨_, hn₂⟩
      · cases hn₂
      · exact h.apart g₁ g₂ n hn₁ hn₂
  · rw [hnonces, List.nodup_append_comm]
    exact List.nodup_cons.mpr ⟨hnot, h.distinct⟩

/-- **A step that does not put the counter back keeps the nonces apart.** -/
theorem step {tr : List Event} {s s' : State} {a : Action} {o : Option Event} (h : Handed tr s)
    (guard : forward s a = true) (step : Step s a s' o) : Handed (tr ++ o.toList) s' := by
  have hquiet : ∀ e : Event, e.nonce? = none → nonces (tr ++ [e]) = nonces tr := by
    intro e he
    have hnone : nonces [e] = [] := List.filterMap_cons_none he
    rw [nonces_append, hnone, List.append_nil]
  have hrefl := UInt64.le_refl s.queue.current
  cases step with
  | callNext idle => exact h.keep (by intro n hn; cases hn) (hquiet _ rfl) hrefl
  | add entered =>
    rw [Option.toList_none, List.append_nil]
    exact h.add (of_decide_eq_true guard)
  | subtract added =>
    refine h.keep ?_ (by rw [Option.toList_none, List.append_nil]) hrefl
    intro n hn
    rw [added]
    exact hn
  | returnNext subtracted => exact h.giveBack subtracted
  | callResync idle => exact h.keep (by intro n hn; cases hn) (hquiet _ rfl) hrefl
  | fail asking =>
    exact h.keep (by intro n hn; cases hn) (by rw [Option.toList_none, List.append_nil]) hrefl
  | fetch asking =>
    exact h.keep (by intro n hn; cases hn) (by rw [Option.toList_none, List.append_nil]) hrefl
  | store fetched =>
    simp only [forward, fetched, decide_eq_true_eq] at guard
    exact h.keep (by intro n hn; cases hn) (by rw [Option.toList_none, List.append_nil]) guard
  | returnResync resynced => exact h.keep (by intro n hn; cases hn) (hquiet _ rfl) hrefl

end Handed

/-- What is handed out along a run that never puts the counter back. -/
theorem handed {q : NonceQueue} {tr : List Event} {s : State}
    (run : sharing.PathOn (fun s a => forward s a = true) (.start q) tr s) : Handed tr s := by
  induction run with
  | nil => exact .start q
  | snoc _ guard hnext ih => exact ih.step guard (step_cases hnext)

/-! ### Calls that do not overlap -/

/-- The counter has reached `c`, and what goroutine `g` gets, or has got, is not below `c`. -/
def Ahead (c : UInt64) (g : Goroutine) (s : State) : Prop :=
  c ≤ s.queue.current ∧
    (s.stand g = .entered ∨ ∃ n, (s.stand g).nonce? = some n ∧ c ≤ n)

namespace Ahead

variable {c : UInt64} {g g' : Goroutine} {s s' : State}

/-- Another goroutine moves on, and the counter goes forward or stays. -/
theorem other {n : UInt64} {b : Stand} (h : Ahead c g s) (hne : g ≠ g')
    (on : s.queue.current ≤ n) : Ahead c g ((s.write n).move g' b) := by
  have hstand : ((s.write n).move g' b).stand g = s.stand g := Function.update_of_ne hne _ _
  exact ⟨UInt64.le_trans h.1 on, by rw [hstand]; exact h.2⟩

/-- The goroutine is in `Next`. -/
theorem inNext {b : Stand} (h : Ahead c g s) (stands : s.stand g = b) (outside : b ≠ .entered) :
    ∃ n, b.nonce? = some n ∧ c ≤ n := by
  rcases h.2 with he | hn
  · exact absurd (stands.symm.trans he) outside
  · rwa [stands] at hn

/-- A goroutine that is not in `Next` moves on. -/
theorem elsewhere {n : UInt64} {a b : Stand} (h : Ahead c g s) (stands : s.stand g' = b)
    (outside : b ≠ .entered) (empty : b.nonce? = none) (on : s.queue.current ≤ n) :
    Ahead c g ((s.write n).move g' a) := by
  refine h.other ?_ on
  rintro rfl
  obtain ⟨_, hn, _⟩ := h.inNext stands outside
  rw [empty] at hn
  cases hn

theorem step {a : Action} {o : Option Event} (h : Ahead c g s) (guard : forward s a = true)
    (step : Step s a s' o) (quiet : ∀ m, o ≠ some (.nextReturned g m)) : Ahead c g s' := by
  have hrefl := UInt64.le_refl s.queue.current
  cases step with
  | callNext idle => exact h.elsewhere idle (by simp) rfl hrefl
  | @add g' entered =>
    have hlt : s.queue.current < s.queue.current + 1 :=
      UInt64.lt_add_one (UInt64.ne_of_lt (of_decide_eq_true guard))
    have hle := UInt64.le_of_lt hlt
    by_cases hg : g = g'
    · subst hg
      refine ⟨UInt64.le_trans h.1 hle, .inr ⟨s.queue.current, ?_, h.1⟩⟩
      rw [State.stand_move, Stand.nonce?, UInt64.add_sub_cancel]
    · exact h.other hg hle
  | @subtract g' sum added =>
    by_cases hg : g = g'
    · subst hg
      obtain ⟨n, hn, hle⟩ := h.inNext added (by simp)
      refine ⟨h.1, .inr ⟨n, ?_, hle⟩⟩
      rw [State.stand_move]
      exact hn
    · exact h.other hg hrefl
  | @returnNext g' nonce subtracted =>
    by_cases hg : g = g'
    · subst hg
      exact absurd rfl (quiet nonce)
    · exact h.other hg hrefl
  | callResync idle => exact h.elsewhere idle (by simp) rfl hrefl
  | fail asking => exact h.elsewhere asking (by simp) rfl hrefl
  | fetch asking => exact h.elsewhere asking (by simp) rfl hrefl
  | store fetched =>
    simp only [forward, fetched, decide_eq_true_eq] at guard
    exact h.elsewhere fetched (by simp) rfl guard
  | returnResync resynced => exact h.elsewhere resynced (by simp) rfl hrefl

/-- The goroutine stays ahead until it returns. -/
theorem path {tr : List Event}
    (run : sharing.PathOn (fun s a => forward s a = true) s tr s')
    (quiet : ∀ m, .nextReturned g m ∉ tr) (h : Ahead c g s) : Ahead c g s' := by
  induction run with
  | nil => exact h
  | @snoc tr s₁ s₂ a o _ guard hnext ih =>
    refine (ih fun m hm => quiet m (List.mem_append_left _ hm)).step guard (step_cases hnext) ?_
    rintro m rfl
    exact quiet m (List.mem_append_right _ List.mem_cons_self)

end Ahead

/-- **No nonce is handed out twice while the counter only goes forward.** Along every run in which
no `Resync` stores a value below the counter, and no add wraps it around: all nonces returned are
different, they lie below the counter, and a `Next` that is called after another one has returned
gets a higher nonce. -/
theorem nonces_distinct {q : NonceQueue} {tr : List Event} {s : State}
    (run : sharing.PathOn (fun s a => forward s a = true) (.start q) tr s) :
    (nonces tr).Nodup ∧ (∀ n ∈ nonces tr, n < s.queue.current) ∧
      ∀ (xs ys zs ws : List Event) (g h : Goroutine) (n m : UInt64),
        tr = xs ++ Event.nextReturned g n ::
          (ys ++ Event.nextCalled h :: (zs ++ Event.nextReturned h m :: ws)) →
        (∀ m', Event.nextReturned h m' ∉ zs) → n < m := by
  refine ⟨(handed run).distinct, (handed run).below, ?_⟩
  rintro xs ys zs ws g h n m rfl first
  -- the state in which the later call begins
  rw [← List.cons_append, ← List.append_assoc] at run
  obtain ⟨s₁, a, s₂, hbefore, _, hcall, hafter⟩ := run.at_event
  have hbelow : n < s₁.queue.current := by
    refine (handed hbefore).below n ?_
    rw [Handed.nonces_append]
    exact List.mem_append_right _ List.mem_cons_self
  have hahead : Ahead s₁.queue.current h s₂ := by
    generalize ho : some (Event.nextCalled h) = o at hcall
    cases step_cases hcall with
    | callNext _ =>
      cases ho
      exact ⟨UInt64.le_refl _, .inl (State.stand_move ..)⟩
    | _ => cases ho
  -- and the one in which it returns
  obtain ⟨s₃, b, s₄, hduring, _, hreturn, _⟩ := hafter.at_event
  have hahead' := hahead.path hduring first
  generalize ho : some (Event.nextReturned h m) = o at hreturn
  cases step_cases hreturn with
  | returnNext subtracted =>
    cases ho
    obtain ⟨k, hk, hle⟩ := hahead'.inNext subtracted (by simp)
    cases hk
    exact UInt64.lt_of_lt_of_le hbelow hle
  | _ => cases ho

namespace Sample

/-- A `Next`, a `Resync` that puts the counter forward, and another `Next`. -/
def forwarded : List Action :=
  [.callNext 1, .add 1, .callResync 0 (VynxRelayer.Sample.address 9), .subtract 1, .returnNext 1,
    .fetch 0 (.ok 9), .store 0, .callNext 2, .add 2, .returnResync 0, .subtract 2, .returnNext 2]

def wentForward : List Event :=
  [.nextCalled 1, .resyncCalled 0 (VynxRelayer.Sample.address 9), .nextReturned 1 7, .nextCalled 2,
    .resyncReturned 0 none, .nextReturned 2 9]

theorem played_forwarded : ∃ s, sharing.run (.start ⟨7⟩) forwarded = some (s, wentForward) := by
  refine ⟨?_, ?played⟩
  case played =>
    simp only [forwarded, System.run, sharing, next, State.start, State.move, State.write]
    rfl

end Sample

/-- The second `Next` begins after the first one has returned. -/
theorem nonces_distinct_forwarded :
    (nonces Sample.wentForward).Nodup ∧ nonces Sample.wentForward = [7, 9] ∧ (7 : UInt64) < 9 := by
  obtain ⟨s, hrun⟩ := Sample.played_forwarded
  have hpath := System.pathOn_of_run (p := forward) hrun rfl
  obtain ⟨hnodup, _, hordered⟩ := nonces_distinct hpath
  exact ⟨hnodup, rfl, hordered
    [.nextCalled 1, .resyncCalled 0 (VynxRelayer.Sample.address 9)] [] [.resyncReturned 0 none] [] 1 2
    _ _ rfl (by simp)⟩

end VynxRelayer.TxManager.Sharing
