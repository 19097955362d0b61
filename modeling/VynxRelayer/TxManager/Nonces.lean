import VynxRelayer.TxManager.Executor

/-!
# Nonces against the node

The executor handles one voucher after another, so the contract calls of a run form one sequence.
Each of them is kept with the answers it met (`Exchange`): whether `ClaimFunds` failed and with
which text, and what the node said to a `Resync`. A call is made at the counter the one before it
left (`chained_settleAll`): one past its own nonce, or the node's pending nonce after a
resynchronisation.

The **node** has taken the transactions whose call returned no error, and its pending nonce is the
first one, from the seed on, that it has not taken. While every call was taken, or refused over its
nonce and resynchronised, counter and node agree, and the transactions taken are a gapless block. A
call that fails in any other way leaves its nonce unused and the counter one past it, which the
source logs as `nonce gap introduced`; the next call is then made past the pending nonce. So all
calls of a run are made at the pending nonce exactly when each of them but the last was taken, or
was refused over its nonce with a node that answered (`nonces_in_step_iff`).
-/

namespace VynxRelayer.TxManager

/-- A contract call, and what the outside world answers while its voucher is executed. -/
structure Exchange where
  call : ClaimCall
  out : Outside

/-- The loop of `Run` over the vouchers it receives, each with the answers it meets: the counter at
the end and the contract calls on the way. -/
def settleAll (env : Setup) : NonceQueue → List (Voucher × Outside) → NonceQueue × List Exchange
  | q, [] => (q, [])
  | q, (v, out) :: rest =>
    let report := execute env out q v
    let (q', exchanges) := settleAll env report.queue rest
    (q', (report.attempt.map fun a => ⟨a.call, out⟩).toList ++ exchanges)

namespace Exchange

/-- `ClaimFunds` returned no error, so the node took the transaction. -/
def taken (e : Exchange) : Bool :=
  match e.out.claimFunds e.call with
  | .ok () => true
  | .error _ => false

/-- The value of a successful `Resync`, which is made after a nonce error only. -/
def resynced? (e : Exchange) : Option UInt64 :=
  match e.out.claimFunds e.call with
  | .ok () => none
  | .error text => if isNonceError text then e.out.pendingNonceAt.toOption else none

/-- **The call did no harm to the counter**: it succeeded, or it failed with a nonce error and the
node answered the `Resync`. -/
def Settled (e : Exchange) : Prop :=
  e.out.claimFunds e.call = .ok () ∨
    ∃ text p, e.out.claimFunds e.call = .error text ∧ isNonceError text = true ∧
      e.out.pendingNonceAt = .ok p

/-- The counter a call leaves behind. -/
def leaves (e : Exchange) : UInt64 := e.resynced?.getD (e.call.nonce + 1)

variable {e : Exchange}

theorem taken_iff : e.taken = true ↔ e.out.claimFunds e.call = .ok () := by
  unfold taken
  split <;> simp_all

theorem resynced?_eq_some_iff {p : UInt64} :
    e.resynced? = some p ↔ ∃ text, e.out.claimFunds e.call = .error text ∧
      isNonceError text = true ∧ e.out.pendingNonceAt = .ok p := by
  unfold resynced?
  cases e.out.claimFunds e.call with
  | ok _ => simp
  | error text => cases e.out.pendingNonceAt <;> simp [Except.toOption]

theorem settled_iff : e.Settled ↔ e.taken = true ∨ ∃ p, e.resynced? = some p := by
  simp only [Settled, taken_iff, resynced?_eq_some_iff]
  rw [exists_comm]

/-- A call that was taken was not resynchronised. -/
theorem not_resynced_of_taken (h : e.taken = true) : e.resynced? = none := by
  rw [resynced?, taken_iff.mp h]

theorem leaves_of_resynced {p : UInt64} (h : e.resynced? = some p) : e.leaves = p := by
  rw [leaves, h, Option.getD_some]

theorem leaves_of_not_resynced (h : e.resynced? = none) : e.leaves = e.call.nonce + 1 := by
  rw [leaves, h, Option.getD_none]

end Exchange

/-- Each call is made at the counter that the one before it left. -/
def Chained : UInt64 → List Exchange → Prop
  | _, [] => True
  | counter, e :: rest => e.call.nonce = counter ∧ Chained e.leaves rest

/-- What one execution does to the counter. -/
theorem execute_counter (env : Setup) (out : Outside) (q : NonceQueue) (v : Voucher) :
    match (execute env out q v).attempt with
    | none => (execute env out q v).queue = q
    | some a => a.call.nonce = q.current ∧
        (execute env out q v).queue = ⟨Exchange.leaves ⟨a.call, out⟩⟩ := by
  generalize hr : execute env out q v = report
  have h := execute_cases env out q v
  rw [hr] at h
  cases h with
  | unsigned _ => rfl
  | untipped _ => rfl
  | settled call =>
    exact ⟨rfl, by rw [Exchange.leaves_of_not_resynced (by simp [Exchange.resynced?, call])]; rfl⟩
  | resynced call nonce node =>
    exact ⟨rfl, by
      rw [Exchange.leaves_of_resynced (Exchange.resynced?_eq_some_iff.mpr ⟨_, call, nonce, node⟩)]⟩
  | unsynced call nonce node =>
    exact ⟨rfl, by
      rw [Exchange.leaves_of_not_resynced
        (by simp [Exchange.resynced?, call, node, Except.toOption])]; rfl⟩
  | failed call other =>
    exact ⟨rfl, by
      rw [Exchange.leaves_of_not_resynced (by simp [Exchange.resynced?, call, other])]; rfl⟩

/-- **The calls of a run are chained**, from the counter the run starts with. -/
theorem chained_settleAll (env : Setup) (q : NonceQueue) (jobs : List (Voucher × Outside)) :
    Chained q.current (settleAll env q jobs).2 := by
  induction jobs generalizing q with
  | nil => trivial
  | cons job rest ih =>
    obtain ⟨v, out⟩ := job
    have hcount := execute_counter env out q v
    simp only [settleAll]
    cases hatt : (execute env out q v).attempt with
    | none =>
      rw [hatt] at hcount
      simp only [Option.map_none, Option.toList_none, List.nil_append]
      rw [show (execute env out q v).queue = q from hcount]
      exact ih q
    | some a =>
      rw [hatt] at hcount
      obtain ⟨hnonce, hqueue⟩ := hcount
      refine ⟨hnonce, ?_⟩
      rw [hqueue]
      exact ih ⟨_⟩

/-! ## The node -/

/-- The node, as far as it concerns this account: the nonce it started at, and those of the
transactions it has taken since. -/
structure Node where
  seed : UInt64
  taken : List UInt64

namespace Node

/-- The pending nonce: the first from the seed on that is not taken. -/
def pending (n : Node) : UInt64 :=
  n.seed + UInt64.ofNat (((List.range n.taken.length).find? fun k =>
    decide (n.seed + UInt64.ofNat k ∉ n.taken)).getD n.taken.length)

/-- The node after a call: it takes a transaction exactly when the call returns no error. -/
def after (n : Node) (e : Exchange) : Node :=
  if e.taken then { n with taken := n.taken ++ [e.call.nonce] } else n

/-- The node has taken a gapless block of `m` transactions. -/
def Gapless (n : Node) (m : Nat) : Prop :=
  n.taken = (List.range m).map fun k => n.seed + UInt64.ofNat k

theorem Gapless.pending {n : Node} {m : Nat} (h : n.Gapless m) :
    n.pending = n.seed + UInt64.ofNat m := by
  have hnone : (List.range n.taken.length).find? (fun k =>
      decide (n.seed + UInt64.ofNat k ∉ n.taken)) = none := by
    rw [List.find?_eq_none]
    intro k hk
    rw [h, List.length_map, List.length_range] at hk
    simp only [decide_eq_true_eq, not_not]
    rw [h]
    exact List.mem_map.mpr ⟨k, hk, rfl⟩
  rw [Node.pending, hnone, Option.getD_none, h, List.length_map, List.length_range]

/-- The node takes the transaction that comes next. -/
theorem Gapless.taken {n : Node} {m : Nat} {e : Exchange} (h : n.Gapless m)
    (taken : e.taken = true) (nonce : e.call.nonce = n.seed + UInt64.ofNat m) :
    (n.after e).Gapless (m + 1) := by
  simp only [after, taken, if_true, Gapless]
  rw [h, nonce, List.range_succ, List.map_append]
  rfl

theorem after_seed (n : Node) (e : Exchange) : (n.after e).seed = n.seed := by
  unfold after
  split <;> rfl

end Node

/-- Where a `Resync` succeeded, the node had answered with its pending nonce. -/
def Truthful : Node → List Exchange → Prop
  | _, [] => True
  | node, e :: rest =>
    (∀ p, e.resynced? = some p → p = node.pending) ∧ Truthful (node.after e) rest

/-- The transactions taken in a sequence of calls. -/
def takenCount (exchanges : List Exchange) : Nat := exchanges.countP (·.taken)

theorem takenCount_append (xs ys : List Exchange) :
    takenCount (xs ++ ys) = takenCount xs + takenCount ys :=
  List.countP_append

/-- A call at its place in a run is made at the node's pending nonce, which is the seed plus the
number of transactions taken before. -/
def InStep (seed : UInt64) (before : List Exchange) (e : Exchange) : Prop :=
  e.call.nonce = seed + UInt64.ofNat (takenCount before) ∧
    e.call.nonce = (before.foldl Node.after ⟨seed, []⟩).pending

/-- Counter and node agree after `m` transactions. -/
structure Agree (node : Node) (m : Nat) (counter : UInt64) : Prop where
  gapless : node.Gapless m
  counter_eq : counter = node.seed + UInt64.ofNat m

/-- While counter and node agree, a settled call keeps them so. -/
theorem Agree.step {node : Node} {m : Nat} {counter : UInt64} {e : Exchange}
    (h : Agree node m counter) (nonce : e.call.nonce = counter)
    (truthful : ∀ p, e.resynced? = some p → p = node.pending) (settled : e.Settled) :
    Agree (node.after e) (m + takenCount [e]) e.leaves := by
  cases htaken : e.taken with
  | true =>
    have hcount : takenCount [e] = 1 := by simp [takenCount, htaken]
    rw [hcount, Exchange.leaves_of_not_resynced (Exchange.not_resynced_of_taken htaken)]
    refine ⟨h.gapless.taken htaken (nonce.trans h.counter_eq), ?_⟩
    rw [node.after_seed, nonce, h.counter_eq, UInt64.ofNat_add]
    exact UInt64.add_assoc ..
  | false =>
    -- the call was resynchronised: the node has not moved, and the counter is where the node is
    have hcount : takenCount [e] = 0 := by simp [takenCount, htaken]
    have hstill : node.after e = node := by simp [Node.after, htaken]
    obtain ⟨p, hp⟩ := (Exchange.settled_iff.mp settled).resolve_left (by simp [htaken])
    rw [hcount, hstill, Exchange.leaves_of_resynced hp]
    exact ⟨h.gapless, (truthful p hp).trans h.gapless.pending⟩

/-- A call whose predecessors were all settled is in step. -/
theorem in_step_of_settled {before after : List Exchange} {e : Exchange} :
    ∀ {node : Node} {m : Nat} {counter : UInt64}, Agree node m counter →
      Chained counter (before ++ e :: after) → Truthful node (before ++ e :: after) →
      (∀ b ∈ before, b.Settled) →
      e.call.nonce = node.seed + UInt64.ofNat (m + takenCount before) ∧
        e.call.nonce = (before.foldl Node.after node).pending := by
  induction before with
  | nil =>
    intro node m counter agree chained _ _
    have hnonce : e.call.nonce = node.seed + UInt64.ofNat m := chained.1.trans agree.counter_eq
    exact ⟨hnonce, by rw [List.foldl_nil, agree.gapless.pending, hnonce]⟩
  | cons b before ih =>
    intro node m counter agree chained truthful settled
    have hstep := agree.step chained.1 truthful.1 (settled b List.mem_cons_self)
    have hrest := ih hstep chained.2 truthful.2
      fun c hc => settled c (List.mem_cons_of_mem _ hc)
    rw [← List.singleton_append, takenCount_append, ← Nat.add_assoc, ← node.after_seed b]
    exact hrest

/-- A call that was not settled has the next one made one past its nonce. -/
theorem chained_unsettled {before after : List Exchange} {a b : Exchange} :
    ∀ {counter : UInt64}, Chained counter (before ++ a :: b :: after) → ¬ a.Settled →
      b.call.nonce = a.call.nonce + 1 := by
  induction before with
  | nil =>
    intro counter chained unsettled
    rw [chained.2.1, Exchange.leaves_of_not_resynced]
    by_contra hresynced
    obtain ⟨p, hp⟩ := Option.ne_none_iff_exists'.mp hresynced
    exact unsettled (Exchange.settled_iff.mpr (.inr ⟨p, hp⟩))
  | cons c before ih =>
    intro counter chained unsettled
    exact ih chained.2 unsettled

theorem takenCount_unsettled {e : Exchange} (h : ¬ e.Settled) : takenCount [e] = 0 := by
  have htaken : ¬ e.taken = true := fun htaken => h (Exchange.settled_iff.mpr (.inl htaken))
  simp [takenCount, htaken]

/-- A member of a list that is not its last one is followed by another. -/
theorem exists_next_of_mem_dropLast {l : List Exchange} {a : Exchange} (h : a ∈ l.dropLast) :
    ∃ before b after, l = before ++ a :: b :: after := by
  have hne : l ≠ [] := by rintro rfl; cases h
  obtain ⟨before, mid, hsplit⟩ := List.append_of_mem h
  have hl : l = before ++ a :: (mid ++ [l.getLast hne]) := by
    conv_lhs => rw [← List.dropLast_append_getLast hne, hsplit]
    simp
  cases mid with
  | nil => exact ⟨before, l.getLast hne, [], hl⟩
  | cons b rest => exact ⟨before, b, rest ++ [l.getLast hne], hl⟩

/-- **Nonces in step**: a run seeded with the node's pending nonce makes all its contract calls at
the node's pending nonce, the seed plus the number of transactions taken before, exactly when every
call but the last returned no error, or failed with a nonce error after which the node answered the
`Resync`. -/
theorem nonces_in_step_iff (env : Setup) (seed : UInt64) (jobs : List (Voucher × Outside))
    (truthful : Truthful ⟨seed, []⟩ (settleAll env ⟨seed⟩ jobs).2) :
    (∀ before e after, (settleAll env ⟨seed⟩ jobs).2 = before ++ e :: after →
      InStep seed before e) ↔
      ∀ e ∈ (settleAll env ⟨seed⟩ jobs).2.dropLast, e.Settled := by
  have chained := chained_settleAll env ⟨seed⟩ jobs
  generalize (settleAll env ⟨seed⟩ jobs).2 = exchanges at *
  constructor
  · intro h a ha
    by_contra hunsettled
    -- the call after an unsettled one is made one past it, with nothing taken in between
    obtain ⟨before, b, after, rfl⟩ := exists_next_of_mem_dropLast ha
    have hnext := chained_unsettled chained hunsettled
    have ha' : a.call.nonce = seed + UInt64.ofNat (takenCount before) :=
      (h before a (b :: after) rfl).1
    have hb' : b.call.nonce = seed + UInt64.ofNat (takenCount (before ++ [a])) :=
      (h (before ++ [a]) b after (by simp)).1
    rw [takenCount_append, takenCount_unsettled hunsettled, Nat.add_zero, ← ha', hnext] at hb'
    simp at hb'
  · intro settled before a after hsplit
    subst hsplit
    have agree : Agree ⟨seed, []⟩ 0 seed := ⟨rfl, by simp⟩
    have hstep := in_step_of_settled agree chained truthful ?_
    · rwa [Nat.zero_add] at hstep
    · intro b hb
      refine settled b ?_
      rw [List.dropLast_append_cons]
      exact List.mem_append_left _ hb

/-- A refusal that has nothing to do with nonces. -/
theorem isNonceError_reverted : isNonceError (ascii "execution reverted") = false := by
  decide +kernel

/-- A refusal over the nonce. -/
theorem isNonceError_tooLow : isNonceError (ascii "nonce too low") = true := by
  decide +kernel

namespace Sample

/-- The exchange of the sample voucher at a nonce. -/
def exchange (nonce : UInt64) (out : Outside) : Exchange :=
  ⟨claimCall setup ⟨nonce⟩ VynxRelayer.Sample.voucher rawSignature 1, out⟩

end Sample

/-- The first call is refused over its nonce and the node answers 7; the second one settles. -/
theorem nonces_in_step_resynced : ∃ first second,
    (settleAll Sample.setup ⟨7⟩
      [(Sample.voucher, Sample.outside (.error (ascii "nonce too low")) (.ok 7)),
        (Sample.voucher, Sample.outside (.ok ()) (.ok 0))]).2 = [first] ++ second :: [] ∧
    InStep 7 [first] second := by
  have hrun : (settleAll Sample.setup ⟨7⟩
      [(Sample.voucher, Sample.outside (.error (ascii "nonce too low")) (.ok 7)),
        (Sample.voucher, Sample.outside (.ok ()) (.ok 0))]).2 =
      [Sample.exchange 7 (Sample.outside (.error (ascii "nonce too low")) (.ok 7))] ++
      Sample.exchange 7 (Sample.outside (.ok ()) (.ok 0)) :: [] := by
    simp [settleAll, execute, Sample.outside, Sample.exchange, isNonceError_tooLow,
      NonceQueue.next_eq, claimCall, NonceQueue.resync]
  refine ⟨_, _, hrun, (nonces_in_step_iff Sample.setup 7 _ ?_).mpr ?_ _ _ _ hrun⟩
  · rw [hrun]
    simp [Truthful, Node.pending, Node.after, Exchange.taken, Exchange.resynced?, Sample.exchange,
      Sample.outside, isNonceError_tooLow, Except.toOption]
  · rw [hrun]
    simp [Exchange.Settled, Sample.exchange, Sample.outside, isNonceError_tooLow]

/-- **A gap**: the first call is refused for another reason, and the second one, with nothing taken
before it, is made one past the pending nonce and taken by the node. -/
theorem nonces_gap : ∃ first second,
    (settleAll Sample.setup ⟨7⟩
      [(Sample.voucher, Sample.outside (.error (ascii "execution reverted")) (.ok 7)),
        (Sample.voucher, Sample.outside (.ok ()) (.ok 0))]).2 = [first] ++ second :: [] ∧
    Truthful ⟨7, []⟩ ([first] ++ second :: []) ∧ second.taken = true ∧
    second.call.nonce = 8 ∧ ([first].foldl Node.after ⟨7, []⟩).pending = 7 ∧
    ¬ InStep 7 [first] second := by
  refine ⟨Sample.exchange 7 (Sample.outside (.error (ascii "execution reverted")) (.ok 7)),
    Sample.exchange 8 (Sample.outside (.ok ()) (.ok 0)), ?_, ⟨?_, ?_, trivial⟩, rfl, rfl, rfl, ?_⟩
  · simp [settleAll, execute, Sample.outside, Sample.exchange, isNonceError_reverted,
      NonceQueue.next_eq, claimCall]
  · intro p h
    simp [Exchange.resynced?, Sample.exchange, Sample.outside, isNonceError_reverted] at h
  · intro p h
    cases h
  · intro h
    exact absurd h.1 (by decide)

end VynxRelayer.TxManager
