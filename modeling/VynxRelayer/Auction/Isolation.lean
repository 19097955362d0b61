import VynxRelayer.Auction.Lifecycle
import VynxRelayer.Lib.Unwinding

/-!
# Auctions do not interfere

The engine keeps the auctions of all intents in one map, behind one lock, and sends their vouchers on
one channel. An auction is none the wiser: from any run, the steps that do not concern an ID can be
deleted, and what is left is a run in which the calls for the ID return what they returned, its
goroutines select what they selected, and its place in the map goes through the same states. The
channel is the exception, and only in whether a voucher found room (`blur`).

`Agrees` is one ID's part of two engines. It survives the steps of the other IDs on one side
(`Agrees.skip`), its own steps are answered on the other (`Agrees.answer`), and the consumer of the
channel can do as it likes: the conditions of `VynxRelayer.Lib.Unwinding`.
-/

namespace VynxRelayer.Auction

open Lib

/-! ## What concerns an ID -/

/-- The call is about `x`; one that has returned is about nothing any more. -/
def StartCall.isFor (x : IntentID) : StartCall → Bool
  | .entered intent => intent.val.id == x
  | .registered intent => intent.val.id == x
  | .finished intent _ => intent.val.id == x
  | .returned => false

def BidCall.isFor (x : IntentID) : BidCall → Bool
  | .entered bid => bid.intentID == x
  | .located bid _ => bid.intentID == x
  | .finished bid _ => bid.intentID == x
  | .returned => false

def Task.isFor (x : IntentID) (task : Task) : Bool := task.intent.val.id == x

def AuctionEntry.isFor (x : IntentID) (entry : AuctionEntry) : Bool := entry.intent.val.id == x

/-- The step is one of `StartAuction`, `SubmitBid` or `runAuction` for `x`. -/
def concerns (x : IntentID) (s : State) : Action → Bool
  | .invokeStart _ intent => intent.val.id == x
  | .register c => (s.starts c).any (·.isFor x)
  | .launch c => (s.starts c).any (·.isFor x)
  | .returnStart c => (s.starts c).any (·.isFor x)
  | .invokeBid _ bid => bid.intentID == x
  | .lookupBid c => (s.bids c).any (·.isFor x)
  | .appendBid c => (s.bids c).any (·.isFor x)
  | .returnBid c => (s.bids c).any (·.isFor x)
  | .fireTimer g => (s.tasks g).any (·.isFor x)
  | .lookupWinner g => (s.tasks g).any (·.isFor x)
  | .selectWinner g => (s.tasks g).any (·.isFor x)
  | .publish g => (s.tasks g).any (·.isFor x)
  | .cleanup g => (s.tasks g).any (·.isFor x)
  | .receive => false
  | .park => false

/-- The step is the consumer's. -/
def Action.isConsumer : Action → Bool
  | .receive => true
  | .park => true
  | _ => false

/-- An event, but for whether a voucher was sent or dropped. -/
def blur : Event → Event
  | .dropped g v => .emitted g v
  | e => e

/-- The place of `x` in the map: the pointer, and the entry it leads to. -/
def place (x : IntentID) (s : State) : Option EntryPtr × Option AuctionEntry :=
  (s.engine.auctions x, (s.engine.auctions x).bind s.engine.entries)

/-! ## One ID's part of the engine -/

/-- `x`'s part of `s` is also in `t`. -/
structure Agrees (x : IntentID) (s t : State) : Prop where
  listed : t.engine.auctions x = s.engine.auctions x
  entries : AgreeOn (AuctionEntry.isFor x) s.engine.entries t.engine.entries
  starts : AgreeOn (StartCall.isFor x) s.starts t.starts
  bids : AgreeOn (BidCall.isFor x) s.bids t.bids
  tasks : AgreeOn (Task.isFor x) s.tasks t.tasks

variable {x : IntentID} {s s' t : State} {a : Action} {o : Option Event}

/-- What concerns the ID does so on both sides. -/
theorem Agrees.concerns (h : Agrees x s t) (own : concerns x s a = true) : concerns x t a = true := by
  cases a with
  | invokeStart _ _ | invokeBid _ _ => exact own
  | register _ | launch _ | returnStart _ => exact h.starts.any own
  | lookupBid _ | appendBid _ | returnBid _ => exact h.bids.any own
  | fireTimer _ | lookupWinner _ | selectWinner _ | publish _ | cleanup _ => exact h.tasks.any own
  | receive | park => cases own

/-- The append of a bid is a store, where the pointer leads to an entry. -/
theorem entries_appendBid {e : Engine} {p : EntryPtr} {bid : Bid} {entry : AuctionEntry}
    (object : e.entries p = some entry) :
    (e.appendBid p bid).entries =
      Function.update e.entries p (some { entry with bids := entry.bids ++ [bid] }) := by
  simp [Engine.appendBid, object]

/-- **A step that does not concern the ID goes unnoticed.** -/
theorem Agrees.skip (h : Agrees x s t) (hc : Consistent s) (step : Step s a s' o)
    (other : Auction.concerns x s a = false) : Agrees x s' t := by
  cases step with
  | invokeStart _ => exact { h with starts := h.starts.store other }
  | refuse call _ =>
    rw [Auction.concerns, call] at other
    exact { h with starts := h.starts.store other }
  | @register c intent call _ =>
    rw [Auction.concerns, call] at other
    have hne : x ≠ intent.val.id := fun heq => by simp [StartCall.isFor, heq] at other
    exact
      { listed := h.listed.trans (Function.update_of_ne hne _ _).symm
        entries := h.entries.store other
        starts := h.starts.store other
        bids := h.bids
        tasks := h.tasks.store other }
  | launch call =>
    rw [Auction.concerns, call] at other
    exact { h with starts := h.starts.store other, tasks := h.tasks.store other }
  | returnStart _ => exact { h with starts := h.starts.store rfl }
  | invokeBid _ => exact { h with bids := h.bids.store other }
  | checkFails call _ | miss call _ _ | locate call _ _ =>
    rw [Auction.concerns, call] at other
    exact { h with bids := h.bids.store other }
  | @append c bid p call =>
    obtain ⟨_, entry, hentry, hid⟩ := hc.held c bid p call
    rw [Auction.concerns, call] at other
    have hforeign : AuctionEntry.isFor x { entry with bids := entry.bids ++ [bid] } = false := by
      rw [AuctionEntry.isFor, hid]
      exact other
    refine { h with entries := ?_, bids := h.bids.store other }
    show AgreeOn _ (s.engine.appendBid p bid).entries t.engine.entries
    rw [entries_appendBid hentry]
    exact h.entries.store hforeign
  | returnBid _ => exact { h with bids := h.bids.store rfl }
  | fireTimer task | lookupWinner task | selectNil task | select task _ _ | selectPanics task _ _
  | noBids task | emit task _ | drop task _ =>
    rw [Auction.concerns, task] at other
    exact { h with tasks := h.tasks.store other }
  | @cleanup g intent task =>
    rw [Auction.concerns, task] at other
    have hne : x ≠ intent.val.id := fun heq => by simp [Task.isFor, heq] at other
    exact
      { h with
        listed := h.listed.trans (Function.update_of_ne hne _ _).symm
        tasks := h.tasks.store other }
  | receive _ | park _ => exact { h with }

/-! ### The same write on both sides -/

theorem Agrees.setStart (h : Agrees x s t) (c : CallId) (call : StartCall) :
    Agrees x (s.setStart c call) (t.setStart c call) :=
  { h with starts := h.starts.both c call }

theorem Agrees.setBid (h : Agrees x s t) (c : CallId) (call : BidCall) :
    Agrees x (s.setBid c call) (t.setBid c call) :=
  { h with bids := h.bids.both c call }

theorem Agrees.setTask (h : Agrees x s t) (g : CallId) (intent : Ref Intent) (phase : Phase) :
    Agrees x (s.setTask g intent phase) (t.setTask g intent phase) :=
  { h with tasks := h.tasks.both g _ }

theorem Agrees.insert (h : Agrees x s t) (c : CallId) {intent : Ref Intent}
    (own : intent.val.id = x) :
    Agrees x (s.setEngine (s.engine.insert c intent)) (t.setEngine (t.engine.insert c intent)) := by
  subst own
  refine { h with listed := ?_, entries := h.entries.both c _ }
  simp [State.setEngine, Engine.insert]

theorem Agrees.appendBid (h : Agrees x s t) {p : EntryPtr} {bid : Bid} {entry : AuctionEntry}
    (object : s.engine.entries p = some entry) (own : entry.intent.val.id = x) :
    Agrees x (s.setEngine (s.engine.appendBid p bid)) (t.setEngine (t.engine.appendBid p bid)) := by
  have hobject := h.entries.same p entry object (beq_iff_eq.mpr own)
  refine { h with entries := ?_ }
  show AgreeOn _ (s.engine.appendBid p bid).entries (t.engine.appendBid p bid).entries
  rw [entries_appendBid object, entries_appendBid hobject]
  exact h.entries.both p _

theorem Agrees.cleanup (h : Agrees x s t) {intent : Ref Intent} (own : intent.val.id = x) :
    Agrees x (s.setEngine (s.engine.cleanup intent.val.id))
      (t.setEngine (t.engine.cleanup intent.val.id)) := by
  subst own
  refine { h with listed := ?_ }
  simp [State.setEngine, Engine.cleanup]

/-- What a goroutine selects from stands on both sides. -/
theorem Agrees.selected (h : Agrees x s t) (hc : Consistent s) {g : CallId} {intent : Ref Intent}
    {p : EntryPtr} {entry : AuctionEntry} (task : s.tasks g = some ⟨intent, .located (some p)⟩)
    (object : s.engine.entries p = some entry) (own : intent.val.id = x) :
    t.engine.entries p = some entry := by
  cases hc.own g intent _ task
  obtain ⟨entry', hentry', hintent⟩ := hc.object g _ task
  rw [object] at hentry'
  cases hentry'
  refine h.entries.same g entry object (beq_iff_eq.mpr ?_)
  rw [hintent]
  exact own

/-- The channel is nobody's part. -/
theorem Agrees.setChan (h : Agrees x s t) (ch : Chan Voucher) : Agrees x s (t.setChan ch) :=
  { h with }

/-- A voucher is sent on one side, and sent or dropped on the other. -/
theorem Agrees.publish (h : Agrees x s t) {g : CallId} {intent : Ref Intent} {winner : Bid}
    (task : t.tasks g = some ⟨intent, .chosen (some winner)⟩) :
    ∃ t' o', next t (.publish g) = some (t', o') ∧ Agrees x (s.setTask g intent .closing) t' ∧
      o'.map blur = some (.emitted g (voucherFor intent winner)) := by
  cases hsend : t.engine.voucherCh.trySend (voucherFor intent winner) with
  | some ch =>
    exact ⟨_, some (.emitted g (voucherFor intent winner)), by simp only [next, task, hsend],
      (h.setChan ch).setTask g intent .closing, rfl⟩
  | none =>
    exact ⟨_, some (.dropped g (voucherFor intent winner)), by simp only [next, task, hsend],
      h.setTask g intent .closing, rfl⟩

/-- **A step that concerns the ID is answered by the same step**, which shows the same, but for
whether a voucher found room. -/
theorem Agrees.answer (h : Agrees x s t) (hc : Consistent s) (step : Step s a s' o)
    (own : Auction.concerns x s a = true) :
    ∃ t' o', next t a = some (t', o') ∧ Agrees x s' t' ∧ o'.map blur = o.map blur := by
  -- a call, a goroutine and a place in the map that are the ID's stand on both sides
  have hstart : ∀ c call, s.starts c = some call → (s.starts c).any (·.isFor x) = true →
      call.isFor x = true ∧ t.starts c = some call := by
    intro c call hcall hown
    rw [hcall] at hown
    exact ⟨hown, h.starts.same c call hcall hown⟩
  have hbid : ∀ c call, s.bids c = some call → (s.bids c).any (·.isFor x) = true →
      call.isFor x = true ∧ t.bids c = some call := by
    intro c call hcall hown
    rw [hcall] at hown
    exact ⟨hown, h.bids.same c call hcall hown⟩
  have htask : ∀ g task, s.tasks g = some task → (s.tasks g).any (·.isFor x) = true →
      task.intent.val.id = x ∧ t.tasks g = some task := by
    intro g task hg hown
    rw [hg] at hown
    exact ⟨beq_iff_eq.mp hown, h.tasks.same g task hg hown⟩
  have hplace : ∀ id, (id == x) = true → t.engine.auctions id = s.engine.auctions id := by
    intro id hid
    rw [beq_iff_eq.mp hid]
    exact h.listed
  cases step with
  | @invokeStart c intent fresh =>
    exact ⟨_, _, by simp only [next, h.starts.empty c fresh], h.setStart c _, rfl⟩
  | @refuse c intent p call active =>
    obtain ⟨hx, hcall⟩ := hstart c _ call own
    exact ⟨_, _, by simp only [next, hcall, Engine.register, hplace _ hx, active],
      h.setStart c _, rfl⟩
  | @register c intent call free =>
    obtain ⟨hx, hcall⟩ := hstart c _ call own
    exact ⟨_, _, by simp only [next, hcall, Engine.register, hplace _ hx, free],
      ((h.insert c (beq_iff_eq.mp hx)).setTask c intent .launching).setStart c _, rfl⟩
  | @launch c intent call =>
    obtain ⟨hx, hcall⟩ := hstart c _ call own
    exact ⟨_, _, by simp only [next, hcall], (h.setTask c intent .waiting).setStart c _, rfl⟩
  | @returnStart c intent err call =>
    obtain ⟨hx, hcall⟩ := hstart c _ call own
    exact ⟨_, _, by simp only [next, hcall], h.setStart c _, rfl⟩
  | @invokeBid c bid fresh =>
    exact ⟨_, _, by simp only [next, h.bids.empty c fresh], h.setBid c _, rfl⟩
  | @checkFails c bid err call bad =>
    obtain ⟨hx, hcall⟩ := hbid c _ call own
    exact ⟨_, _, by simp only [next, hcall, bad], h.setBid c _, rfl⟩
  | @miss c bid call priced absent =>
    obtain ⟨hx, hcall⟩ := hbid c _ call own
    exact ⟨_, _, by simp only [next, hcall, checkBid_eq_none.mpr priced, Engine.lookup,
      hplace _ hx, absent], h.setBid c _, rfl⟩
  | @locate c bid p call priced found =>
    obtain ⟨hx, hcall⟩ := hbid c _ call own
    exact ⟨_, _, by simp only [next, hcall, checkBid_eq_none.mpr priced, Engine.lookup,
      hplace _ hx, found], h.setBid c _, rfl⟩
  | @append c bid p call =>
    obtain ⟨hx, hcall⟩ := hbid c _ call own
    obtain ⟨_, entry, hentry, hid⟩ := hc.held c bid p call
    exact ⟨_, _, by simp only [next, hcall],
      (h.appendBid hentry (hid.trans (beq_iff_eq.mp hx))).setBid c _, rfl⟩
  | @returnBid c bid err call =>
    obtain ⟨hx, hcall⟩ := hbid c _ call own
    exact ⟨_, _, by simp only [next, hcall], h.setBid c _, rfl⟩
  | @fireTimer g intent task =>
    obtain ⟨_, hg⟩ := htask g _ task own
    exact ⟨_, _, by simp only [next, hg], h.setTask g intent _, rfl⟩
  | @lookupWinner g intent task =>
    obtain ⟨hx, hg⟩ := htask g _ task own
    exact ⟨_, _, by simp only [next, hg, Engine.lookup, hplace _ (beq_iff_eq.mpr hx)],
      h.setTask g intent _, rfl⟩
  | @selectNil g intent task =>
    obtain ⟨_, hg⟩ := htask g _ task own
    exact ⟨_, _, by simp only [next, hg], h.setTask g intent _, rfl⟩
  | @select g intent p entry winner task object loop =>
    obtain ⟨hx, hg⟩ := htask g _ task own
    have hobject := h.selected hc task object hx
    exact ⟨_, _, by simp only [next, hg, hobject, loop], h.setTask g intent _, rfl⟩
  | @selectPanics g intent p entry task object loop =>
    obtain ⟨hx, hg⟩ := htask g _ task own
    have hobject := h.selected hc task object hx
    exact ⟨_, _, by simp only [next, hg, hobject, loop], h.setTask g intent _, rfl⟩
  | @noBids g intent task =>
    obtain ⟨_, hg⟩ := htask g _ task own
    exact ⟨_, _, by simp only [next, hg], h.setTask g intent _, rfl⟩
  | @emit g intent winner ch task _ =>
    obtain ⟨_, hg⟩ := htask g _ task own
    obtain ⟨t', o', hnext, hagrees, hshown⟩ := h.publish hg
    exact ⟨t', o', hnext, { hagrees with }, hshown⟩
  | @drop g intent winner task _ =>
    obtain ⟨_, hg⟩ := htask g _ task own
    exact h.publish hg
  | @cleanup g intent task =>
    obtain ⟨hx, hg⟩ := htask g _ task own
    exact ⟨_, _, by simp only [next, hg], (h.cleanup hx).setTask g intent _, rfl⟩
  | receive _ | park _ => cases own

/-! ## The ID's own run -/

/-- The place in the map is the same on both sides, with the entry it leads to. -/
theorem Agrees.place (h : Agrees x s t) (hc : Consistent s) : place x t = place x s := by
  unfold Auction.place
  rw [h.listed]
  cases hp : s.engine.auctions x with
  | none => rfl
  | some p =>
    obtain ⟨task, htask, _, hid⟩ := hc.owner x p hp
    obtain ⟨entry, hentry, hintent⟩ := hc.object p task htask
    have hown : AuctionEntry.isFor x entry = true := by
      rw [AuctionEntry.isFor, hintent]
      exact beq_iff_eq.mpr hid
    rw [Option.bind_some, Option.bind_some, hentry, h.entries.same p entry hentry hown]

/-- **One ID's part of the engine unwinds.** -/
theorem unwinds (x : IntentID) : system.Unwinds (concerns x) Action.isConsumer (Option.map blur)
    (place x) fun s t => Consistent s ∧ Agrees x s t where
  apart := by
    intro s a own
    cases a <;> first | rfl | cases own
  skip := by
    rintro s t a s' o ⟨hc, h⟩ hnext other
    have step := next_cases hnext
    exact ⟨consistent_step hc step, h.skip hc step other⟩
  answer := by
    rintro s t a s' o ⟨hc, h⟩ hnext own
    have step := next_cases hnext
    obtain ⟨t', o', hnext', hagrees, hshown⟩ := h.answer hc step own
    exact ⟨h.concerns own, t', o', hnext', ⟨consistent_step hc step, hagrees⟩, hshown⟩
  idle := by
    rintro s t a t' o ⟨hc, h⟩ consumer hnext
    have step : Step t a t' o := next_cases hnext
    cases step with
    | receive _ | park _ => exact ⟨hc, h.setChan _⟩
    | invokeStart _ | refuse _ _ | register _ _ | launch _ | returnStart _ | invokeBid _
    | checkFails _ _ | miss _ _ _ | locate _ _ _ | append _ | returnBid _ | fireTimer _
    | lookupWinner _ | selectNil _ | select _ _ _ | selectPanics _ _ _ | noBids _ | emit _ _
    | drop _ _ | cleanup _ => cases consumer
  alike := by
    rintro s t ⟨hc, h⟩
    exact h.place hc

theorem agrees_init (x : IntentID) (cap cap' : Nat) : Agrees x (.init cap) (.init cap') where
  listed := rfl
  entries := .nothing
  starts := .nothing
  bids := .nothing
  tasks := .nothing

/-- The steps of a schedule that concern the ID. -/
def steps (x : IntentID) (cap : Nat) (as : List Action) : List Action :=
  system.project (concerns x) (.init cap) as

/-- Two schedules are the same for an ID: its steps show the same, results and selections included,
and its place in the map goes through the same states. -/
structure SameFor (x : IntentID) (cap : Nat) (as : List Action) (cap' : Nat) (bs : List Action) :
    Prop where
  shown : system.record (concerns x) (Option.map blur) (.init cap') bs =
    system.record (concerns x) (Option.map blur) (.init cap) as
  places : system.passes (place x) (.init cap') bs = system.passes (place x) (.init cap) as

/-- **Auctions do not interfere.** Deleting from a run every step that does not concern an ID leaves a
run that is the same for it; so does any way in which the consumer of the channel takes part in what
is left, whatever the channel's capacity; and two runs with the same steps for the ID are the same
for it. -/
theorem isolation {cap : Nat} {as : List Action} {s : State} {tr : List Event} (x : IntentID)
    (played : system.run (.init cap) as = some (s, tr)) :
    (∃ t tr', system.run (.init cap) (steps x cap as) = some (t, tr') ∧
      SameFor x cap as cap (steps x cap as)) ∧
    (∀ cap' bs, bs.filter (fun a => !a.isConsumer) = steps x cap as →
      system.enabled Action.isConsumer (.init cap') bs = true →
      ∃ t tr', system.run (.init cap') bs = some (t, tr') ∧ SameFor x cap as cap' bs) ∧
    ∀ cap' bs t tr', system.run (.init cap') bs = some (t, tr') →
      steps x cap' bs = steps x cap as → SameFor x cap as cap' bs := by
  have hinit : ∀ cap cap', Consistent (.init cap) ∧ Agrees x (.init cap) (.init cap') :=
    fun cap cap' => ⟨consistent_init cap, agrees_init x cap cap'⟩
  refine ⟨?_, ?_, ?_⟩
  · obtain ⟨t, tr', hrun, hshown, hplaces⟩ := (unwinds x).run_project (hinit cap cap) played
    exact ⟨t, tr', hrun, hshown, hplaces⟩
  · intro cap' bs hown hable
    obtain ⟨t, tr', hrun, _, hshown, hplaces⟩ :=
      (unwinds x).replay (hinit cap cap') played hown hable
    exact ⟨t, tr', hrun, hshown, hplaces⟩
  · intro cap' bs t tr' hrun hsame
    obtain ⟨hshown, hplaces⟩ :=
      (unwinds x).determined (hinit cap cap) (hinit cap' cap) played hrun hsame
    exact ⟨hshown, hplaces⟩

namespace Sample

open VynxRelayer.Sample

/-- An intent with another ID, and a bid for it. -/
def neighbour : Ref Intent := ⟨5, { intent.val with id := ⟨[2]⟩ }⟩

def offer : Bid := { low with intentID := ⟨[2]⟩ }

/-- The neighbour's auction begins before the opening and ends before the closing, and its voucher
takes the channel's only place. -/
def beside : List Action :=
  [.invokeStart 5 neighbour, .register 5, .launch 5] ++ opening ++
    [.invokeBid 6 offer, .lookupBid 6, .appendBid 6, .fireTimer 5, .lookupWinner 5, .selectWinner 5,
      .publish 5] ++ closing

end Sample

/-- Beside a neighbour the voucher is dropped, and alone it is sent; all else is the same. -/
theorem isolation_beside : ∃ s tr t,
    system.run (.init 1) Sample.beside = some (s, tr) ∧
    .dropped 0 (voucherFor Sample.intent Sample.low) ∈ tr ∧
    system.run (.init 1) (Sample.opening ++ Sample.closing) =
      some (t, Sample.opened ++ Sample.closed) ∧
    .emitted 0 (voucherFor Sample.intent Sample.low) ∈ Sample.opened ++ Sample.closed ∧
    SameFor Sample.intent.val.id 1 Sample.beside 1 (Sample.opening ++ Sample.closing) := by
  have hplay : ((system.run (.init 1) Sample.beside).any fun r =>
      r.2.contains (.dropped 0 (voucherFor Sample.intent Sample.low))) = true := by
    decide +kernel
  have halone : (system.run (.init 1) (Sample.opening ++ Sample.closing)).map Prod.snd =
      some (Sample.opened ++ Sample.closed) := by decide +kernel
  obtain ⟨⟨s, tr⟩, hrun, hdropped⟩ := Option.any_eq_true _ _ |>.mp hplay
  obtain ⟨⟨t, _⟩, hrun', rfl⟩ := Option.map_eq_some_iff.mp halone
  exact ⟨s, tr, t, hrun, List.contains_iff_mem.mp hdropped, hrun', by decide +kernel,
    (isolation Sample.intent.val.id hrun).2.2 1 _ t _ hrun' (by decide +kernel)⟩

end VynxRelayer.Auction
