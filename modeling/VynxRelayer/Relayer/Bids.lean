import Mathlib.Data.List.Nodup
import VynxRelayer.Ingress.Parsing
import VynxRelayer.Relayer.Courses

/-!
# From a solver's messages to `SubmitBid`

Each connection has its `readPump`, which turns the messages that ask for a bid into bids and tries
to push them onto `bidCh`; one dispatcher takes them off and calls `SubmitBid`. `bid_streams` is what
becomes of them along every schedule: the bids of one connection that reach `SubmitBid` are, in
order and each once, among those its messages ask for, and the others wait in `bidCh` or found it
full. A message that asks for no bid changes nothing: the schedule without it leads to the same
state and shows the same events. And what reaches `SubmitBid` has its amounts.

Bids are followed by their numbers, of which every bid that was read has its own
(`numbers_of_reads`), so two equal offers are two bids.
-/

namespace VynxRelayer.Relayer

open Lib Auction Ingress TxManager

/-! ## What is asked for -/

/-- The bids that messages ask for, in order. -/
inductive Denoted (intake : Intake) : List Bytes → List Bid → Prop
  | nil : Denoted intake [] []
  | valid {msg req bid msgs bids} (decoded : intake.decodeBid msg = some req)
      (asks : BidOf intake.hexToAddress req bid) (more : Denoted intake msgs bids) :
      Denoted intake (msg :: msgs) (bid :: bids)
  | invalid {msg msgs bids}
      (none : ∀ req bid, intake.decodeBid msg = some req → ¬ BidOf intake.hexToAddress req bid)
      (more : Denoted intake msgs bids) : Denoted intake (msg :: msgs) bids

theorem readBid_eq_none_iff {intake : Intake} {msg : Bytes} :
    readBid intake msg = none ↔
      ∀ req bid, intake.decodeBid msg = some req → ¬ BidOf intake.hexToAddress req bid := by
  rw [Option.eq_none_iff_forall_ne_some]
  simp only [ne_eq, readBid_eq_some_iff, not_exists, not_and]
  exact forall_comm

/-- `readPump` builds what is asked for. -/
theorem denoted_filterMap (intake : Intake) (msgs : List Bytes) :
    Denoted intake msgs (msgs.filterMap (readBid intake)) := by
  induction msgs with
  | nil => exact .nil
  | cons msg msgs ih =>
    cases h : readBid intake msg with
    | none =>
      rw [List.filterMap_cons_none h]
      exact .invalid (readBid_eq_none_iff.mp h) ih
    | some bid =>
      obtain ⟨req, hdecoded, hasks⟩ := readBid_eq_some_iff.mp h
      rw [List.filterMap_cons_some h]
      exact .valid hdecoded hasks ih

/-! ## What is read -/

/-- A message of solver `k`. -/
def Action.message? (k : ClientId) : Action → Option Bytes
  | .message k' msg => if k' = k then some msg else none
  | _ => none

/-- The messages of solver `k`, in the order its `readPump` reads them. -/
def messages (k : ClientId) (as : List Action) : List Bytes := as.filterMap (Action.message? k)

namespace Event

/-- The bid that was read, with the connection it came from. -/
def read? : Event → Option (ClientId × Ref Bid)
  | .bidRead k bid => some (k, bid)
  | .bidDropped k bid => some (k, bid)
  | _ => none

/-- The bid that was read from connection `k`. -/
def bidOf? (k : ClientId) (e : Event) : Option (Ref Bid) :=
  match e.read? with
  | some (k', bid) => if k' = k then some bid else none
  | none => none

/-- The bid that was put onto `bidCh`. -/
def pushed? : Event → Option (Ref Bid)
  | .bidRead _ bid => some bid
  | _ => none

/-- The bid that `SubmitBid` is called with. -/
def reached? : Event → Option (Ref Bid)
  | .engine (.bidInvoked c bid) => some ⟨c, bid⟩
  | _ => none

end Event

theorem bidOf?_eq_some {k : ClientId} {e : Event} {b : Ref Bid} :
    e.bidOf? k = some b ↔ e = .bidRead k b ∨ e = .bidDropped k b := by
  cases e <;> simp [Event.bidOf?, Event.read?]

theorem reached?_eq_some {e : Event} {b : Ref Bid} :
    e.reached? = some b ↔ ∃ c bid, e = .engine (.bidInvoked c bid) ∧ ⟨c, bid⟩ = b := by
  constructor
  · intro h
    cases e with
    | engine e => cases e <;> cases h; exact ⟨_, _, rfl, rfl⟩
    | _ => cases h
  · rintro ⟨c, bid, rfl, rfl⟩
    rfl

/-- The bids of connection `k` that reached `SubmitBid`. -/
def reachedFrom (k : ClientId) (tr : List Event) : List (Ref Bid) :=
  (tr.filterMap Event.reached?).filter fun b => decide (Event.bidRead k b ∈ tr)

variable {p : Platform} {buf : Buffers} {q : NonceQueue} {tr : List Event} {s s' : State}
  {as : List Action}

/-- Bids are numbered in the order they are read. -/
theorem numbers_of_reads (h : (system p).Path (.init buf q) tr s) :
    (tr.filterMap Event.read?).map (fun r => r.2.addr) = List.range s.bidCount := by
  induction h with
  | nil => rfl
  | @snoc tr s s' a o _ _ step ih =>
    have hstep := next_cases step
    cases hstep with
    | readBid _ _ _ | dropBid _ _ _ =>
      rw [filterMap_shows (by rfl), List.map_append, ih, List.range_succ]
      rfl
    | ignore _ _ => rw [filterMap_silent (by rintro _ ⟨⟩; rfl), ih]
    | engine _ _ | hub _ => rw [filterMap_silent (shown_map fun _ => rfl), ih]
    | refuse _ _ | accept _ _ | push _ _ | atCapacity _ _ | replyAccepted _ _ | replyError _
    | dispatchIntent _ _ _ | parkIntent _ _ | returnIntent _ _ | dispatchBid _ _ _ | parkBid _ _
    | returnBid _ _ | receive _ _ | parkExecutor _ _ | settle _ _ _ | fail _ _ _ | notify _ _
    | notifyDropped _ _ | drain _ | parkDrain _ =>
      exact (congrArg _ (filterMap_silent (by intro e he; cases he <;> rfl))).trans ih

/-- A bid was read once, from one connection. -/
theorem read_unique {e e' : Event} {k k' : ClientId} {b b' : Ref Bid}
    (h : (system p).Path (.init buf q) tr s) (he : e ∈ tr) (he' : e' ∈ tr)
    (read : e.read? = some (k, b)) (read' : e'.read? = some (k', b')) (same : b.addr = b'.addr) :
    k = k' ∧ b = b' := by
  have hnodup : ((tr.filterMap Event.read?).map (fun r => r.2.addr)).Nodup := by
    rw [numbers_of_reads h]
    exact List.nodup_range
  have heq := List.inj_on_of_nodup_map hnodup (List.mem_filterMap.mpr ⟨e, he, read⟩)
    (List.mem_filterMap.mpr ⟨e', he', read'⟩) same
  exact Prod.mk.injEq .. ▸ heq

/-- The engine's own goroutines do not call `SubmitBid`. -/
theorem internal_reached {b : Auction.Action} {e e' : Auction.State} {o : Option Auction.Event}
    (inside : internal b = true) (step : Auction.next e b = some (e', o)) :
    ∀ ev, o.map Event.engine = some ev → ev.pushed? = none ∧ ev.reached? = none := by
  intro ev shown
  obtain ⟨f, rfl, rfl⟩ := Option.map_eq_some_iff.mp shown
  cases Auction.next_cases step with
  | invokeStart _ | returnStart _ | invokeBid _ | returnBid _ | receive _ => cases inside
  | refuse _ _ | register _ _ | miss _ _ _ | append _ | select _ _ _ | noBids _ | emit _ _
  | drop _ _ | cleanup _ => exact ⟨rfl, rfl⟩

/-- No bid is read twice from a connection. -/
theorem bidsOf_nodup (h : (system p).Path (.init buf q) tr s) (k : ClientId) :
    (tr.filterMap (Event.bidOf? k)).Nodup := by
  have hall : ((tr.filterMap Event.read?).map Prod.snd).Nodup := by
    refine List.Nodup.of_map Ref.addr ?_
    rw [List.map_map]
    exact (numbers_of_reads h).symm ▸ List.nodup_range
  rw [List.map_filterMap] at hall
  refine hall.sublist (filterMap_sublist fun e _ b hb => ?_)
  rcases bidOf?_eq_some.mp hb with rfl | rfl <;> rfl

/-- **The flow of bids**, through `bidCh`. -/
theorem bidFlow (h : (system p).Path (.init buf q) tr s) :
    Fifo Event.pushed? Event.reached? s.bidCh.pending tr := by
  induction h with
  | nil => exact .nil
  | snoc _ _ step ih =>
    cases next_cases step with
    | readBid _ _ sent => exact ih.send rfl rfl (Chan.pending_trySend sent).1
    | dispatchBid _ taken _ => exact ih.take rfl rfl (Chan.pending_take taken).1
    | parkBid _ parked => exact ih.silent (Chan.pending_park parked).1 (by intro e he; cases he)
    | engine inside move => exact ih.silent rfl (internal_reached inside move)
    | hub _ => exact ih.silent rfl (shown_map fun _ => ⟨rfl, rfl⟩)
    | refuse _ _ | accept _ _ | push _ _ | atCapacity _ _ | replyAccepted _ _ | replyError _
    | ignore _ _ | dropBid _ _ _ | dispatchIntent _ _ _ | parkIntent _ _ | returnIntent _ _
    | returnBid _ _ | receive _ _ | parkExecutor _ _ | settle _ _ _ | fail _ _ _ | notify _ _
    | notifyDropped _ _ | drain _ | parkDrain _ =>
      exact ih.silent rfl (by intro e he; cases he <;> exact ⟨rfl, rfl⟩)

/-! ## The streams -/

/-- The pushes of bids that were read from connection `k` are among its bids, in order. -/
theorem filter_pushed_sublist (h : (system p).Path (.init buf q) tr s) (k : ClientId) :
    ((tr.filterMap Event.pushed?).filter fun b => decide (Event.bidRead k b ∈ tr)).Sublist
      (tr.filterMap (Event.bidOf? k)) := by
  rw [List.filter_filterMap]
  refine filterMap_sublist fun e he b hb => ?_
  obtain ⟨hpushed, hread⟩ := Option.filter_eq_some_iff.mp hb
  have hread : Event.bidRead k b ∈ tr := of_decide_eq_true hread
  cases e <;> cases hpushed
  -- the bid has one number, so it was read from one connection
  obtain ⟨rfl, _⟩ := read_unique h he hread rfl rfl rfl
  exact bidOf?_eq_some.mpr (.inl rfl)

/-- **Messages become bids one by one.** What was read from a connection, whether there was room for
it or not, is what its messages asked for. -/
theorem bids_of_messages (played : (system p).run (.init buf q) as = some (s, tr)) (k : ClientId) :
    (tr.filterMap (Event.bidOf? k)).map Ref.val =
      (messages k as).filterMap (readBid p.intake) := by
  refine System.run_induction (I := fun as _ tr => (tr.filterMap (Event.bidOf? k)).map Ref.val =
    (messages k as).filterMap (readBid p.intake)) played rfl ?_
  intro as t tr a t' o _ ih step
  rw [messages, List.filterMap_append, List.filterMap_append, List.map_append, ih, ← messages,
    List.filterMap_append]
  refine congrArg _ ?_
  cases next_cases step with
  | @ignore k' msg _ invalid =>
    by_cases hk : k' = k <;> simp [Event.bidOf?, Event.read?, Action.message?, hk, invalid]
  | @readBid k' msg bid _ _ valid _ | @dropBid k' msg bid _ valid _ =>
    by_cases hk : k' = k <;> simp [Event.bidOf?, Event.read?, Action.message?, hk, valid]
  | @engine _ _ o _ _ | @hub _ _ o _ => cases o <;> rfl
  | refuse _ _ | accept _ _ | push _ _ | atCapacity _ _ | replyAccepted _ _ | replyError _
  | dispatchIntent _ _ _ | parkIntent _ _ | returnIntent _ _ | dispatchBid _ _ _ | parkBid _ _
  | returnBid _ _ | receive _ _ | parkExecutor _ _ | settle _ _ _ | fail _ _ _ | notify _ _
  | notifyDropped _ _ | drain _ | parkDrain _ => rfl

/-- **A message that asks for no bid changes nothing.** Without it, the schedule leads to the same
state and shows the same events. -/
theorem run_without_invalid {xs ys : List Action} {k : ClientId} {msg : Bytes}
    (played : (system p).run s (xs ++ .message k msg :: ys) = some (s', tr))
    (invalid : readBid p.intake msg = none) :
    ∃ tr₁ tr₂, tr = tr₁ ++ .bidIgnored k :: tr₂ ∧
      (system p).run s (xs ++ ys) = some (s', tr₁ ++ tr₂) := by
  obtain ⟨t, tr₁, _, hfirst, hrest, rfl⟩ := System.run_append_eq_some.mp played
  obtain ⟨t', o, tr₂, hn, hafter, rfl⟩ := System.run_cons_eq_some.mp hrest
  have hstep : Step p t (.message k msg) t' o := next_cases hn
  cases hstep with
  | ignore _ _ =>
    exact ⟨tr₁, tr₂, rfl, System.run_append_eq_some.mpr ⟨t, tr₁, tr₂, hfirst, hafter, rfl⟩⟩
  | readBid _ valid _ | dropBid _ valid _ => rw [invalid] at valid; cases valid

/-- What is dropped was offered to a full channel. -/
theorem dropped_full {k : ClientId} {b : Ref Bid} {xs ys : List Event}
    (h : (system p).Path (.init buf q) (xs ++ .bidDropped k b :: ys) s) :
    ∃ s₁, (system p).Path (.init buf q) xs s₁ ∧ s₁.bidCh.trySend b = none := by
  obtain ⟨s₁, a, s₂, hpre, _, hnext, _⟩ := h.at_event
  refine ⟨s₁, hpre, ?_⟩
  generalize ho : some (Event.bidDropped k b) = o at hnext
  cases next_cases hnext with
  | dropBid _ _ full => cases ho; exact full
  | engine _ _ | hub _ => obtain ⟨f, _, hf⟩ := Option.map_eq_some_iff.mp ho.symm; cases hf
  | _ => cases ho

/-- What was pushed was asked for by a message. -/
theorem pushed_denoted {k : ClientId} {b : Ref Bid} (h : (system p).Path (.init buf q) tr s)
    (pushed : .bidRead k b ∈ tr) : ∃ msg, readBid p.intake msg = some b.val := by
  obtain ⟨xs, ys, s₁, a, s₂, rfl, _, _, hnext, _⟩ := h.at_mem pushed
  generalize ho : some (Event.bidRead k b) = o at hnext
  cases next_cases hnext with
  | @readBid _ msg _ _ _ valid _ => cases ho; exact ⟨msg, valid⟩
  | engine _ _ | hub _ => obtain ⟨f, _, hf⟩ := Option.map_eq_some_iff.mp ho.symm; cases hf
  | _ => cases ho

/-- What reaches `SubmitBid` was pushed by a connection. -/
theorem reached_pushed {c : CallId} {bid : Bid} (h : (system p).Path (.init buf q) tr s)
    (reached : .engine (.bidInvoked c bid) ∈ tr) : ∃ k, .bidRead k ⟨c, bid⟩ ∈ tr := by
  obtain ⟨e, he, hpushed⟩ := (bidFlow h).mem_sent reached rfl
  cases e <;> cases hpushed
  exact ⟨_, he⟩

/-- What reaches `SubmitBid` has positive amounts. -/
theorem reached_positive {c : CallId} {bid : Bid} (h : (system p).Path (.init buf q) tr s)
    (reached : .engine (.bidInvoked c bid) ∈ tr) :
    ∃ amountOut gasPrice, bid.amountOut = some amountOut ∧ 0 < amountOut ∧
      bid.gasPrice = some gasPrice ∧ 0 < gasPrice := by
  obtain ⟨k, hpushed⟩ := reached_pushed h reached
  obtain ⟨msg, hmsg⟩ := pushed_denoted h hpushed
  obtain ⟨req, _, hasks⟩ := readBid_eq_some_iff.mp hmsg
  obtain ⟨amountOut, _, hout, heq⟩ := hasks.amountOut
  obtain ⟨gasPrice, _, hgas, heq'⟩ := hasks.gasPrice
  exact ⟨amountOut, gasPrice, heq, hout, heq', hgas⟩

/-- `SubmitBid` never finds an amount missing. -/
theorem returned_ne_nil {c : CallId} {err : EngineError} (h : (system p).Path (.init buf q) tr s)
    (returned : .engine (.bidReturned c (some err)) ∈ tr) (id : IntentID) :
    err ≠ .amountOutNil id ∧ err ≠ .gasPriceNil id := by
  have hengine := engine_path h
  obtain ⟨bid, l, hv, hl⟩ := returned_course hengine (mem_engineTrace.mpr returned)
  have hcheck : ∀ err', err = err' → Verdict c bid (some err') l → (∀ id, err' ≠ .notFound id) →
      False := by
    intro err' _ hv hne
    obtain ⟨hbad, rfl⟩ : checkBid bid = some err' ∧ l = [.bidInvoked c bid] := by
      cases err' with
      | notFound id => exact absurd rfl (hne id)
      | alreadyActive _ | amountOutNil _ | gasPriceNil _ => exact hv
    have hmem : .bidInvoked c bid ∈ course c (engineTrace tr) := by
      rw [hl]
      exact List.mem_append_left _ List.mem_cons_self
    obtain ⟨amountOut, gasPrice, hout, _, hgas, _⟩ :=
      reached_positive h (mem_engineTrace.mp (mem_journal.mp hmem).1)
    simp [checkBid, hout, hgas] at hbad
  constructor <;> (rintro rfl; exact hcheck _ rfl hv (by simp))

/-- What becomes of the solvers' messages along a schedule. -/
structure BidStreams (p : Platform) (buf : Buffers) (q : NonceQueue) (as : List Action)
    (tr : List Event) (s : State) : Prop where
  /-- the bids read from a connection are those its messages ask for, one by one -/
  denoted : ∀ k, Denoted p.intake (messages k as)
    ((tr.filterMap (Event.bidOf? k)).map Ref.val)
  /-- no bid is read twice -/
  once : ∀ k, (tr.filterMap (Event.bidOf? k)).Nodup
  /-- those that reach `SubmitBid` are among them, in order -/
  inOrder : ∀ k, (reachedFrom k tr).Sublist (tr.filterMap (Event.bidOf? k))
  /-- the others wait in `bidCh`, or found it full -/
  omitted : ∀ k, ∀ b ∈ tr.filterMap (Event.bidOf? k), b ∉ reachedFrom k tr →
    b ∈ s.bidCh.pending ∨ ∃ xs ys s₁, tr = xs ++ .bidDropped k b :: ys ∧
      (system p).Path (.init buf q) xs s₁ ∧ s₁.bidCh.trySend b = none
  /-- nothing else reaches `SubmitBid` -/
  owned : ∀ b ∈ tr.filterMap Event.reached?, ∃ k, b ∈ reachedFrom k tr
  /-- a message that asks for no bid can be left out -/
  inert : ∀ xs k msg ys, as = xs ++ .message k msg :: ys →
    (∀ req bid, p.intake.decodeBid msg = some req → ¬ BidOf p.intake.hexToAddress req bid) →
    ∃ tr₁ tr₂, tr = tr₁ ++ .bidIgnored k :: tr₂ ∧
      (system p).run (.init buf q) (xs ++ ys) = some (s, tr₁ ++ tr₂)
  /-- what reaches `SubmitBid` has positive amounts -/
  positive : ∀ c bid, .engine (.bidInvoked c bid) ∈ tr →
    ∃ amountOut gasPrice, bid.amountOut = some amountOut ∧ 0 < amountOut ∧
      bid.gasPrice = some gasPrice ∧ 0 < gasPrice
  /-- so `SubmitBid` never returns one of its errors about them -/
  noNil : ∀ c err id, .engine (.bidReturned c (some err)) ∈ tr →
    err ≠ .amountOutNil id ∧ err ≠ .gasPriceNil id

/-- **Bid stream fidelity.** For every schedule of the relayer, whatever the solvers send. -/
theorem bid_streams (played : (system p).run (.init buf q) as = some (s, tr)) :
    BidStreams p buf q as tr s := by
  have hpath := System.path_of_run played
  have hflow := bidFlow hpath
  refine ⟨?_, ?_, ?_, ?_, ?_, ?_, ?_, ?_⟩
  · intro k
    rw [bids_of_messages played k]
    exact denoted_filterMap _ _
  · exact bidsOf_nodup hpath
  · intro k
    refine List.Sublist.trans (List.Sublist.filter _ ?_) (filter_pushed_sublist hpath k)
    rw [show tr.filterMap Event.pushed? = _ from hflow]
    exact List.sublist_append_left _ _
  · intro k b hb hnot
    obtain ⟨e, he, hof⟩ := List.mem_filterMap.mp hb
    rcases bidOf?_eq_some.mp hof with rfl | rfl
    · left
      have hpushed : b ∈ tr.filterMap Event.pushed? := List.mem_filterMap.mpr ⟨_, he, rfl⟩
      rw [show tr.filterMap Event.pushed? = _ from hflow] at hpushed
      refine (List.mem_append.mp hpushed).resolve_left fun hreached => hnot ?_
      exact List.mem_filter.mpr ⟨hreached, decide_eq_true he⟩
    · right
      obtain ⟨xs, ys, rfl⟩ := List.append_of_mem he
      obtain ⟨s₁, hpre, hfull⟩ := dropped_full hpath
      exact ⟨xs, ys, s₁, rfl, hpre, hfull⟩
  · intro b hb
    obtain ⟨e, he, hreached⟩ := List.mem_filterMap.mp hb
    obtain ⟨c, bid, rfl, rfl⟩ := reached?_eq_some.mp hreached
    obtain ⟨k, hk⟩ := reached_pushed hpath he
    exact ⟨k, List.mem_filter.mpr ⟨hb, decide_eq_true hk⟩⟩
  · rintro xs k msg ys rfl hnone
    exact run_without_invalid played (readBid_eq_none_iff.mpr hnone)
  · exact fun c bid => reached_positive hpath
  · exact fun c err id returned => returned_ne_nil hpath returned id

namespace Sample

/-- Solvers 0 and 1 connect; solver 0 sends a bid and a message that is none, solver 1 a bid for
which there is no room; then the dispatcher takes the first bid. -/
def crowd : List Action :=
  [.hub (.serve 0), .hub (.serve 1), .message 0 (message 51 54 [1]),
    .message 0 (message 51 45 [1]), .message 1 (message 52 57 [1]), .dispatchBid]

def crowded : List Event :=
  [.hub (.joined 0), .hub (.joined 1), .bidRead 0 ⟨0, bid 51 6 [1]⟩, .bidIgnored 0,
    .bidDropped 1 ⟨1, bid 52 9 [1]⟩, .engine (.bidInvoked 0 (bid 51 6 [1]))]

end Sample

/-- Two solvers, a message that asks for no bid, and a full channel. -/
theorem bid_streams_crowd : ∃ s,
    (system Sample.platform).run (.init Sample.buffers ⟨0⟩) Sample.crowd =
      some (s, Sample.crowded) ∧
    BidStreams Sample.platform Sample.buffers ⟨0⟩ Sample.crowd Sample.crowded s := by
  have hplay : ((system Sample.platform).run (.init Sample.buffers ⟨0⟩) Sample.crowd).map
      Prod.snd = some Sample.crowded := by decide +kernel
  obtain ⟨⟨s, tr⟩, hrun, rfl⟩ := Option.map_eq_some_iff.mp hplay
  exact ⟨s, hrun, bid_streams hrun⟩

end VynxRelayer.Relayer
