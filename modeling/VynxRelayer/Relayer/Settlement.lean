import VynxRelayer.Relayer.Courses
import VynxRelayer.Lib.Padding

/-!
# What is settled

Three questions about the contract calls of a run, from the requests that started it to the
executor.

* **Which escrow?** `execute` copies the intent's ID into 32 bytes. Two IDs name two escrows exactly
  when they differ in their first 32 bytes up to trailing zeros (`escrows_differ_iff`). The ingress
  admits any non-empty ID, and two UUIDs of 36 characters can agree in 32 (`escrows_coincide`).
* **For how much?** No stage compares a bid with the intent's floor. A voucher pays at least the
  floor when every selection had a bid to choose from that does (`floors_kept`), and an auction
  whose only bid is below it settles that bid (`floor_ignored`).
* **How often?** `StartAuction` refuses an ID only while an auction for it is live. Vouchers for one
  ID are those of different requests whose auctions took turns (`settled_in_turn`), and a request
  that repeats an ID after its auction is settled once more (`settled_twice`).
-/

namespace VynxRelayer.Relayer

open Lib Auction Ingress TxManager

variable {p : Platform} {buf : Buffers} {q : NonceQueue} {tr : List Event} {s : State}

/-! ## Escrows -/

/-- What 32 bytes can hold of an ID: its first 32 bytes, without zeros at the end. -/
def escrowName (id : IntentID) : Bytes := strip 0 (id.bytes.take 32)

/-- Two IDs are copied to the same identifier exactly when they have the same escrow name. -/
theorem intentIDBytes_eq_iff (id id' : IntentID) :
    intentIDBytes id = intentIDBytes id' ↔ escrowName id = escrowName id' := by
  rw [escrowName, escrowName, ← pad_eq_pad_iff]
  constructor
  · intro h
    exact congrArg FixedBytes.bytes h
  · intro h
    unfold intentIDBytes copyBytes
    congr 1

/-- A contract call of a run is that of an execution with some answers of the outside world. -/
theorem executed_execute {P : State → Action → Prop} {v : Voucher} {a : Attempt}
    {err : Option ExecuteError} (h : (system p).PathOn P (.init buf q) tr s)
    (executed : .executed v (some a) err ∈ tr) :
    ∃ s₁ out, P s₁ (.execute out) ∧ (execute p.setup out s₁.nonceQueue v).attempt = some a := by
  obtain ⟨xs, ys, s₁, act, s₂, rfl, _, guard, hnext, _⟩ := h.at_mem executed
  generalize ho : some (Event.executed v (some a) err) = o at hnext
  cases next_cases hnext with
  | settle _ run _ | fail _ run _ =>
    simp only [Option.some.injEq, Event.executed.injEq] at ho
    obtain ⟨rfl, hattempt, _⟩ := ho
    rw [← run] at hattempt
    exact ⟨s₁, _, guard, hattempt.symm⟩
  | hub _ | engine _ _ => obtain ⟨f, _, hf⟩ := Option.map_eq_some_iff.mp ho.symm; cases hf
  | _ => cases ho

/-- A contract call of a run names the escrow of its voucher's ID. -/
theorem executed_call {v : Voucher} {a : Attempt} {err : Option ExecuteError}
    (h : (system p).Path (.init buf q) tr s) (executed : .executed v (some a) err ∈ tr) :
    a.call.intentId = intentIDBytes v.intentID ∧ a.call.solver = v.winningSolver := by
  obtain ⟨g, hemitted⟩ := executed_emitted h executed
  obtain ⟨s₁, out, _, hattempt⟩ := executed_execute h executed
  obtain ⟨hid, hsolver, _⟩ := execute_attempt hattempt
  rw [(emitted_registered (engine_path h) hemitted).2]
  exact ⟨hid, hsolver⟩

/-- **Distinct escrows**: the contract calls for two vouchers name different escrows exactly when
the IDs of the vouchers differ in their first 32 bytes, up to zeros at the end. -/
theorem escrows_differ_iff {v₁ v₂ : Voucher} {a₁ a₂ : Attempt} {e₁ e₂ : Option ExecuteError}
    (h : (system p).Path (.init buf q) tr s) (first : .executed v₁ (some a₁) e₁ ∈ tr)
    (second : .executed v₂ (some a₂) e₂ ∈ tr) :
    a₁.call.intentId ≠ a₂.call.intentId ↔ escrowName v₁.intentID ≠ escrowName v₂.intentID := by
  rw [(executed_call h first).1, (executed_call h second).1, ne_eq, ne_eq, intentIDBytes_eq_iff]

/-- What two requests show that are settled one after the other. -/
def twoRounds (bid bid' : Bid) : List Event :=
  .hub (.joined 0) :: (Sample.rounded 0 7 bid ++ Sample.rounded 1 8 bid')

/-- Two intents with short IDs. -/
theorem escrows_differ_short :
    ∃ s, (system Sample.platform).Path (.init Sample.buffers ⟨7⟩)
      (twoRounds (Sample.bid 51 6 [1]) (Sample.bid 51 6 [2])) s ∧
    (Sample.call 7 (Sample.bid 51 6 [1])).intentId ≠
      (Sample.call 8 (Sample.bid 51 6 [2])).intentId := by
  have hrun : ((system Sample.platform).run (.init Sample.buffers ⟨7⟩)
      (Sample.connect ++ Sample.round 0 [1] 51 54 ++ Sample.round 1 [2] 51 54)).map Prod.snd =
        some (twoRounds (Sample.bid 51 6 [1]) (Sample.bid 51 6 [2])) := by
    decide +kernel
  obtain ⟨s, hpath⟩ := System.exists_path_of_run hrun
  have hfirst : Sample.executed 0 7 (Sample.bid 51 6 [1]) ∈
      twoRounds (Sample.bid 51 6 [1]) (Sample.bid 51 6 [2]) := by decide +kernel
  have hsecond : Sample.executed 1 8 (Sample.bid 51 6 [2]) ∈
      twoRounds (Sample.bid 51 6 [1]) (Sample.bid 51 6 [2]) := by decide +kernel
  exact ⟨s, hpath, (escrows_differ_iff hpath hfirst hsecond).mpr (by decide +kernel)⟩

namespace Sample

/-- Two UUIDs that differ in their last character. -/
def uuid : Bytes := ascii "3f2b8a9e-7c41-4d5e-9a6b-0c1d2e3f4a50"

def uuid' : Bytes := ascii "3f2b8a9e-7c41-4d5e-9a6b-0c1d2e3f4a51"

end Sample

/-- **Two intents, one escrow**: two accepted requests with different UUIDs are settled by contract
calls that name the same escrow. -/
theorem escrows_coincide : ∃ tr s,
    tr = twoRounds (Sample.bid 51 6 Sample.uuid) (Sample.bid 51 6 Sample.uuid') ∧
    (system Sample.platform).Path (.init Sample.buffers ⟨7⟩) tr s ∧
    Sample.uuid ≠ Sample.uuid' ∧
    .replied 0 (.accepted Sample.uuid) ∈ tr ∧ .replied 1 (.accepted Sample.uuid') ∈ tr ∧
    Sample.executed 0 7 (Sample.bid 51 6 Sample.uuid) ∈ tr ∧
    Sample.executed 1 8 (Sample.bid 51 6 Sample.uuid') ∈ tr ∧
    (Sample.call 7 (Sample.bid 51 6 Sample.uuid)).intentId =
      (Sample.call 8 (Sample.bid 51 6 Sample.uuid')).intentId := by
  have hrun : ((system Sample.platform).run (.init Sample.buffers ⟨7⟩)
      (Sample.connect ++ Sample.round 0 Sample.uuid 51 54 ++
        Sample.round 1 Sample.uuid' 51 54)).map Prod.snd =
      some (twoRounds (Sample.bid 51 6 Sample.uuid) (Sample.bid 51 6 Sample.uuid')) := by
    decide +kernel
  obtain ⟨s, hpath⟩ := System.exists_path_of_run hrun
  refine ⟨_, s, rfl, hpath, ?_⟩
  decide +kernel

/-! ## Floors -/

/-- The step lets no auction choose among bids that are all below its intent's floor. -/
def floored (e : Auction.State) : Auction.Action → Bool
  | .selectWinner g =>
    match e.tasks g with
    | some ⟨intent, .located (some ptr)⟩ =>
      (bidsAt e ptr).isEmpty || (bidsAt e ptr).any (·.meets intent.val.minAmountOut)
    | _ => true
  | _ => true

/-- The guard on the engine's own steps, for the relayer. -/
def floorKept (s : State) : Action → Bool
  | .engine a => floored s.engine a
  | _ => true

/-- An auction that chose among bids of which one meets the floor pays at least the floor. -/
theorem emitted_meetsFloor {cap : Nat} {tr : List Auction.Event} {e : Auction.State} {g : CallId}
    {v : Voucher} (h : Auction.system.PathOn (fun e a => floored e a = true) (.init cap) tr e)
    (emitted : .emitted g v ∈ tr) : v.meetsFloor = true := by
  obtain ⟨intent, bids, w, rest, hw, rfl, _, hl⟩ := emitted_story h.path emitted
  have hsel : .selected g g bids (some w) ∈ tr := by
    have hmem : .selected g g bids (some w) ∈ life g tr := by rw [hl]; simp
    exact (mem_journal.mp hmem).1
  have hreg := (emitted_registered h.path emitted).1
  obtain ⟨xs, ys, s₁, a, s₂, rfl, hpre, guard, hnext, _⟩ := h.at_mem hsel
  cases Auction.next_cases hnext with
  | @select _ i _ entry _ task object _ =>
    -- the goroutine selects for the intent that its voucher is for
    have hi : i = intent := by
      obtain ⟨_, htask, _⟩ := registered_task h.path hreg
      obtain ⟨_, htask', _⟩ := registered_task h.path
        (List.mem_append_left _ (registered_mem hpre.path task))
      rw [htask] at htask'
      cases htask'
      rfl
    subst hi
    have hwin : w ∈ entry.bids := List.argmax_mem hw.symm
    have hfloor : ∃ b ∈ entry.bids, b.meets i.val.minAmountOut = true := by
      simp only [floored, task, bidsAt, object, Option.map_some, Option.getD_some,
        Bool.or_eq_true, List.isEmpty_iff, List.any_eq_true] at guard
      rcases guard with hnil | hsome
      · rw [hnil] at hwin
        cases hwin
      · exact hsome
    obtain ⟨b, hb, hmet⟩ := hfloor
    have hpriced := ((consistent hpre.path).sorted g entry object w hwin).1
    exact Bid.meets_of_rank_le (List.le_of_mem_argmax hb hw.symm) hpriced hmet

/-- **The user's floor is honoured**: every voucher emitted, and every one for which the contract is
called, pays at least the floor of its intent. -/
def FloorHonoured (tr : List Event) : Prop :=
  (∀ g v, .engine (.emitted g v) ∈ tr → v.meetsFloor = true) ∧
    ∀ v attempt err, .executed v (some attempt) err ∈ tr → v.meetsFloor = true

/-- **Floors are kept in every run whose auctions have a bid to choose that meets the floor**,
unless they have none at all. -/
theorem floors_kept (h : (system p).PathOn (fun s a => floorKept s a = true) (.init buf q) tr s) :
    FloorHonoured tr := by
  have hengine : Auction.system.PathOn (fun e a => floored e a = true) (.init buf.voucherBuf)
      (engineTrace tr) s.engine := by
    refine engine_pathOn h (fun s a guard => guard) ?_
    intro e a houtside
    cases a <;> first | rfl | cases houtside
  refine ⟨?_, ?_⟩
  · intro g v hemitted
    exact emitted_meetsFloor hengine (mem_engineTrace.mpr hemitted)
  · intro v attempt err hexecuted
    obtain ⟨g, hemitted⟩ := executed_emitted h.path hexecuted
    exact emitted_meetsFloor hengine hemitted

/-- Bids of 4, 6 and 6 over a floor of 5, and another intent with a bid of 7. -/
theorem floors_kept_above :
    ∃ s, (system Sample.platform).PathOn (fun s a => floorKept s a = true)
      (.init Sample.buffers ⟨7⟩) Sample.contested s ∧
    .engine (.selected 0 0 Sample.contestedBids (some (Sample.bid 52 6 [1]))) ∈ Sample.contested ∧
    FloorHonoured Sample.contested := by
  have hrun : ((system Sample.platform).run (.init Sample.buffers ⟨7⟩) Sample.contest).map Prod.snd =
      some Sample.contested := by
    decide +kernel
  have hmeets : (system Sample.platform).meets floorKept (.init Sample.buffers ⟨7⟩)
      Sample.contest = true := by
    decide +kernel
  obtain ⟨s, hpath⟩ := System.exists_pathOn_of_run hrun hmeets
  exact ⟨s, hpath, by decide +kernel, floors_kept hpath⟩

/-- **A bid below the floor is settled** when it is the only one: the intent asks for at least 5,
and the contract is called for 4. -/
theorem floor_ignored : ∃ tr s,
    tr = .hub (.joined 0) :: Sample.rounded 0 7 (Sample.bid 51 4 [1]) ∧
    (system Sample.platform).Path (.init Sample.buffers ⟨7⟩) tr s ∧
    (Sample.voucher 0 (Sample.bid 51 4 [1])).intent.val.minAmountOut = 5 ∧
    (Sample.voucher 0 (Sample.bid 51 4 [1])).amountOut = some 4 ∧
    Sample.executed 0 7 (Sample.bid 51 4 [1]) ∈ tr ∧ ¬ FloorHonoured tr := by
  have hrun : ((system Sample.platform).run (.init Sample.buffers ⟨7⟩)
      (Sample.connect ++ Sample.round 0 [1] 51 52)).map Prod.snd =
        some (.hub (.joined 0) :: Sample.rounded 0 7 (Sample.bid 51 4 [1])) := by
    decide +kernel
  obtain ⟨s, hpath⟩ := System.exists_path_of_run hrun
  have hexecuted : Sample.executed 0 7 (Sample.bid 51 4 [1]) ∈
      .hub (.joined 0) :: Sample.rounded 0 7 (Sample.bid 51 4 [1]) := by decide +kernel
  refine ⟨_, s, rfl, hpath, rfl, rfl, hexecuted, ?_⟩
  intro hfloor
  exact absurd (hfloor.2 _ _ _ hexecuted) (by decide)

/-! ## Repeated IDs -/

/-- **Settlements of one ID take turns.** -/
structure SettledInTurn (tr : List Event) : Prop where
  /-- Two vouchers for one ID are one and the same, emitted once; or they are those of two requests
  with that ID, of which one was registered after the other's auction had closed. -/
  vouchers : ∀ g g' v v', .engine (.emitted g v) ∈ tr → .engine (.emitted g' v') ∈ tr →
    v.intentID = v'.intentID →
    (g = g' ∧ v = v' ∧ fateCount .emitted g (engineTrace tr) = 1) ∨
    (g ≠ g' ∧ .enqueued g v.intent ∈ tr ∧ .enqueued g' v'.intent ∈ tr ∧
      v.intent.val.id = v'.intent.val.id ∧
      (InTurn (engineTrace tr) g v g' v' ∨ InTurn (engineTrace tr) g' v' g v))
  /-- Two executions for one ID that name different solvers are for such vouchers. -/
  executions : ∀ v v' a a' e e', .executed v a e ∈ tr → .executed v' a' e' ∈ tr →
    v.intentID = v'.intentID → v.winningSolver ≠ v'.winningSolver →
    ∃ g g', g ≠ g' ∧ .enqueued g v.intent ∈ tr ∧ .enqueued g' v'.intent ∈ tr ∧
      (InTurn (engineTrace tr) g v g' v' ∨ InTurn (engineTrace tr) g' v' g v)

/-- An emitted voucher is counted once for its instance. -/
theorem fateCount_emitted {cap : Nat} {tr : List Auction.Event} {e : Auction.State} {g : CallId}
    {v : Voucher} (h : Auction.system.Path (.init cap) tr e) (emitted : .emitted g v ∈ tr) :
    fateCount .emitted g tr = 1 := by
  have hpos : 0 < fateCount .emitted g tr :=
    List.countP_pos_iff.mpr ⟨.emitted g v, emitted, beq_iff_eq.mpr rfl⟩
  have hfates := fates h g
  split at hfates <;> omega

/-- **One voucher for each request, and those of one ID in turn**, in every run. -/
theorem settled_in_turn (h : (system p).Path (.init buf q) tr s) : SettledInTurn tr := by
  have hengine := engine_path h
  have hvouchers : ∀ g g' v v', .emitted g v ∈ engineTrace tr → .emitted g' v' ∈ engineTrace tr →
      v.intentID = v'.intentID → g ≠ g' →
      .enqueued g v.intent ∈ tr ∧ .enqueued g' v'.intent ∈ tr ∧
      (InTurn (engineTrace tr) g v g' v' ∨ InTurn (engineTrace tr) g' v' g v) := by
    intro g g' v v' hv hv' hid hne
    have hreg := (emitted_registered hengine hv).1
    have hreg' := (emitted_registered hengine hv').1
    exact ⟨invoked_enqueued h (registered_invoked hengine hreg),
      invoked_enqueued h (registered_invoked hengine hreg'), emitted_inTurn hengine hv hv' hid hne⟩
  constructor
  · intro g g' v v' hv hv' hid
    have hv := mem_engineTrace.mpr hv
    have hv' := mem_engineTrace.mpr hv'
    by_cases hg : g = g'
    · subst hg
      exact .inl ⟨rfl, emitted_unique hengine hv hv', fateCount_emitted hengine hv⟩
    · obtain ⟨henq, henq', hturn⟩ := hvouchers g g' v v' hv hv' hid hg
      have hsame : v.intent.val.id = v'.intent.val.id := by
        rw [← (emitted_registered hengine hv).2, ← (emitted_registered hengine hv').2, hid]
      exact .inr ⟨hg, henq, henq', hsame, hturn⟩
  · intro v v' a a' e e' hex hex' hid hsolver
    obtain ⟨g, hv⟩ := executed_emitted h hex
    obtain ⟨g', hv'⟩ := executed_emitted h hex'
    have hg : g ≠ g' := by
      rintro rfl
      rw [emitted_unique hengine hv hv'] at hsolver
      exact hsolver rfl
    exact ⟨g, g', hg, hvouchers g g' v v' hv hv' hid hg⟩

/-- Two requests with one ID, the second after the first. -/
theorem settled_in_turn_repeated :
    SettledInTurn (twoRounds (Sample.bid 51 6 [1]) (Sample.bid 52 7 [1])) := by
  have hrun : ((system Sample.platform).run (.init Sample.buffers ⟨7⟩)
      (Sample.connect ++ Sample.round 0 [1] 51 54 ++ Sample.round 1 [1] 52 55)).map Prod.snd =
        some (twoRounds (Sample.bid 51 6 [1]) (Sample.bid 52 7 [1])) := by
    decide +kernel
  obtain ⟨s, hpath⟩ := System.exists_path_of_run hrun
  exact settled_in_turn hpath

/-- **One ID, two settlements**: a request that repeats an ID after its auction is settled again,
for another solver, and both contract calls name the same escrow. -/
theorem settled_twice : ∃ tr s,
    tr = twoRounds (Sample.bid 51 6 [1]) (Sample.bid 52 7 [1]) ∧
    (system Sample.platform).Path (.init Sample.buffers ⟨7⟩) tr s ∧
    .engine (.emitted 0 (Sample.voucher 0 (Sample.bid 51 6 [1]))) ∈ tr ∧
    .engine (.emitted 1 (Sample.voucher 1 (Sample.bid 52 7 [1]))) ∈ tr ∧
    (Sample.voucher 0 (Sample.bid 51 6 [1])).intentID =
      (Sample.voucher 1 (Sample.bid 52 7 [1])).intentID ∧
    Sample.executed 0 7 (Sample.bid 51 6 [1]) ∈ tr ∧
    Sample.executed 1 8 (Sample.bid 52 7 [1]) ∈ tr ∧
    (Sample.call 7 (Sample.bid 51 6 [1])).intentId =
      (Sample.call 8 (Sample.bid 52 7 [1])).intentId ∧
    (Sample.call 7 (Sample.bid 51 6 [1])).solver ≠
      (Sample.call 8 (Sample.bid 52 7 [1])).solver := by
  have hrun : ((system Sample.platform).run (.init Sample.buffers ⟨7⟩)
      (Sample.connect ++ Sample.round 0 [1] 51 54 ++ Sample.round 1 [1] 52 55)).map Prod.snd =
        some (twoRounds (Sample.bid 51 6 [1]) (Sample.bid 52 7 [1])) := by
    decide +kernel
  obtain ⟨s, hpath⟩ := System.exists_path_of_run hrun
  refine ⟨_, s, rfl, hpath, ?_⟩
  decide +kernel

end VynxRelayer.Relayer
