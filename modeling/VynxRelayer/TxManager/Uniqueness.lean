import VynxRelayer.TxManager.Nonces

/-!
# No nonce is accepted twice

Between two synchronisations of the counter the contract calls of a run carry consecutive nonces,
from the value the counter was set to; a voucher that fails before its call takes none. The counter
can jump back when it is resynchronised, so that the nonces the node accepted never repeat rests on
what the node answers: as long as each answer lies above everything accepted so far, and the counter
does not wrap, the counter itself lies above everything accepted, and the accepted nonces increase
over the whole run (`nonce_accounting`).
-/

namespace VynxRelayer.TxManager

/-! ## Consecutive nonces -/

/-- The last value the counter was set to, after the calls `before`: the seed, or that of the call
which was resynchronised last. -/
def LastSync (seed : UInt64) (before : List Exchange) (p : UInt64) : Prop :=
  before = [] ∧ p = seed ∨ ∃ front e, before = front ++ [e] ∧ e.resynced? = some p

/-- The calls after some others are chained from the counter these left. -/
theorem chained_of_lastSync {seed counter : UInt64} {before rest : List Exchange}
    (chained : Chained seed (before ++ rest)) (sync : LastSync seed before counter) :
    Chained counter rest := by
  rcases sync with ⟨rfl, rfl⟩ | ⟨front, e, rfl, hresync⟩
  · exact chained
  · rw [List.append_assoc, List.singleton_append] at chained
    induction front generalizing seed with
    | nil =>
      rw [← Exchange.leaves_of_resynced hresync]
      exact chained.2
    | cons b front ih => exact ih chained.2

/-- Calls without a resynchronisation among them carry consecutive nonces. -/
theorem chained_consecutive {counter : UInt64} {mid after : List Exchange} {e : Exchange}
    (chained : Chained counter (mid ++ e :: after))
    (steady : ∀ m ∈ mid, m.resynced? = none) :
    e.call.nonce.toNat = (counter.toNat + mid.length) % UInt64.size := by
  induction mid generalizing counter with
  | nil =>
    rw [chained.1, List.length_nil, Nat.add_zero, Nat.mod_eq_of_lt counter.toNat_lt]
  | cons m mid ih =>
    obtain ⟨hnonce, hrest⟩ := chained
    rw [Exchange.leaves_of_not_resynced (steady m List.mem_cons_self), hnonce] at hrest
    rw [ih hrest fun m' hm' => steady m' (List.mem_cons_of_mem _ hm'), List.length_cons,
      UInt64.toNat_add]
    show ((counter.toNat + 1) % UInt64.size + mid.length) % UInt64.size = _
    rw [Nat.mod_add_mod]
    congr 1
    omega

/-! ## Increasing nonces -/

/-- The nonces of the calls that the node accepted. -/
def acceptedNonces (exchanges : List Exchange) : List UInt64 :=
  (exchanges.filter (·.taken)).map (·.call.nonce)

/-- Every answer of the node lies above the nonces it accepted before. -/
def AnswersAbove (exchanges : List Exchange) : Prop :=
  ∀ before e after p, exchanges = before ++ e :: after → e.resynced? = some p →
    ∀ n ∈ acceptedNonces before, n < p

/-- No call is made at the last nonce there is. -/
def NoWrap (exchanges : List Exchange) : Prop :=
  ∀ e ∈ exchanges, e.call.nonce.toNat + 1 < UInt64.size

/-- One past the nonce of a call is above it. -/
theorem NoWrap.lt_succ {exchanges : List Exchange} {e : Exchange} (wrap : NoWrap exchanges)
    (mem : e ∈ exchanges) : e.call.nonce < e.call.nonce + 1 := by
  have hroom := wrap e mem
  refine UInt64.lt_add_one ?_
  intro hlast
  rw [hlast] at hroom
  exact absurd hroom (by decide)

theorem acceptedNonces_append (xs ys : List Exchange) :
    acceptedNonces (xs ++ ys) = acceptedNonces xs ++ acceptedNonces ys := by
  unfold acceptedNonces
  rw [List.filter_append, List.map_append]

theorem eq_of_mem_acceptedNonces {e : Exchange} {n : UInt64} (mem : n ∈ acceptedNonces [e]) :
    n = e.call.nonce := by
  cases htaken : e.taken <;> simp [acceptedNonces, htaken] at mem
  exact mem

/-- The invariant of the run: the accepted nonces increase, and all lie below the counter. -/
theorem accepted_increasing {past rest : List Exchange} {counter : UInt64}
    (chained : Chained counter rest) (answers : AnswersAbove (past ++ rest)) (wrap : NoWrap rest)
    (sorted : (acceptedNonces past).Pairwise (· < ·))
    (below : ∀ n ∈ acceptedNonces past, n < counter) :
    (acceptedNonces (past ++ rest)).Pairwise (· < ·) := by
  induction rest generalizing past counter with
  | nil => rwa [List.append_nil]
  | cons e rest ih =>
    obtain ⟨hnonce, hrest⟩ := chained
    have hsucc : counter < e.call.nonce + 1 := by
      rw [← hnonce]
      exact wrap.lt_succ List.mem_cons_self
    have hwrap : NoWrap rest := fun b hb => wrap b (List.mem_cons_of_mem _ hb)
    rw [← List.singleton_append, ← List.append_assoc] at answers ⊢
    refine ih hrest answers hwrap ?_ ?_
    · rw [acceptedNonces_append, List.pairwise_append]
      refine ⟨sorted, ?_, ?_⟩
      · cases htaken : e.taken <;> simp [acceptedNonces, htaken]
      · intro n hn n' hn'
        rw [eq_of_mem_acceptedNonces hn', hnonce]
        exact below n hn
    · intro n hn
      cases hresync : e.resynced? with
      | none =>
        rw [Exchange.leaves_of_not_resynced hresync]
        rw [acceptedNonces_append, List.mem_append] at hn
        rcases hn with hn | hn
        · exact UInt64.lt_trans (below n hn) hsucc
        · rw [eq_of_mem_acceptedNonces hn]
          exact wrap.lt_succ List.mem_cons_self
      | some p =>
        -- the call was not taken, and the node answered above everything accepted before it
        have hnot : e.taken = false := by
          by_contra htaken
          rw [Exchange.not_resynced_of_taken (by simpa using htaken)] at hresync
          cases hresync
        have hsame : acceptedNonces (past ++ [e]) = acceptedNonces past := by
          rw [acceptedNonces_append]
          simp [acceptedNonces, hnot]
        rw [Exchange.leaves_of_resynced hresync]
        rw [hsame] at hn
        exact answers past e rest p (by simp) hresync n hn

/-! ## The account -/

/-- **What one voucher does to the counter**, by what it meets. -/
structure Accounted (env : Setup) (out : Outside) (q : NonceQueue) (v : Voucher) : Prop where
  /-- A call is made exactly when there are a signature and a tip, and it carries the counter. -/
  called : ∀ call, (execute env out q v).attempt.map Attempt.call = some call ↔
    ∃ raw tip, out.sign (voucherDigest env v) = .ok raw ∧ out.suggestGasTipCap = .ok tip ∧
      call = claimCall env q v raw tip
  /-- A voucher that fails at signing makes no call and takes no nonce, -/
  unsigned : ∀ cause, out.sign (voucherDigest env v) = .error cause →
    (execute env out q v).attempt = none ∧ (execute env out q v).queue = q
  /-- and so does one that fails at the gas tip. -/
  untipped : ∀ cause, out.suggestGasTipCap = .error cause →
    (execute env out q v).attempt = none ∧ (execute env out q v).queue = q
  /-- A call that succeeds leaves the counter one past its nonce, -/
  taken : ∀ call, (execute env out q v).attempt.map Attempt.call = some call →
    out.claimFunds call = .ok () → (execute env out q v).queue.current = call.nonce + 1
  /-- and so does one that fails with another error than a nonce error, -/
  failed : ∀ call text, (execute env out q v).attempt.map Attempt.call = some call →
    out.claimFunds call = .error text → isNonceError text = false →
    (execute env out q v).queue.current = call.nonce + 1
  /-- and one whose `Resync` fails. -/
  unsynced : ∀ call text cause, (execute env out q v).attempt.map Attempt.call = some call →
    out.claimFunds call = .error text → isNonceError text = true →
    out.pendingNonceAt = .error cause → (execute env out q v).queue.current = call.nonce + 1
  /-- A successful `Resync` sets it to the node's answer. -/
  resynced : ∀ call text p, (execute env out q v).attempt.map Attempt.call = some call →
    out.claimFunds call = .error text → isNonceError text = true →
    out.pendingNonceAt = .ok p → (execute env out q v).queue.current = p

theorem accounted (env : Setup) (out : Outside) (q : NonceQueue) (v : Voucher) :
    Accounted env out q v := by
  have hcount := execute_counter env out q v
  have hnone : (execute env out q v).attempt = none →
      (execute env out q v).attempt = none ∧ (execute env out q v).queue = q := by
    intro hnone
    rw [hnone] at hcount
    exact ⟨hnone, hcount⟩
  -- a call leaves the counter that its answers say
  have hsome : ∀ call, (execute env out q v).attempt.map Attempt.call = some call →
      (execute env out q v).queue.current = Exchange.leaves ⟨call, out⟩ := by
    intro call hcall
    obtain ⟨a, hattempt, rfl⟩ := Option.map_eq_some_iff.mp hcall
    rw [hattempt] at hcount
    rw [hcount.2]
  constructor
  · exact fun call => attempt_iff
  · exact fun cause hsign => hnone (by rw [execute_of_unsigned hsign])
  · exact fun cause htip => hnone (attempt_of_untipped htip)
  · intro call hcall hok
    rw [hsome call hcall, Exchange.leaves_of_not_resynced]
    exact Exchange.not_resynced_of_taken (Exchange.taken_iff.mpr hok)
  · intro call text hcall herr hother
    rw [hsome call hcall, Exchange.leaves_of_not_resynced]
    simp [Exchange.resynced?, herr, hother]
  · intro call text cause hcall herr _ hnode
    rw [hsome call hcall, Exchange.leaves_of_not_resynced]
    simp [Exchange.resynced?, herr, hnode, Except.toOption]
  · intro call text p hcall herr hnonce hnode
    rw [hsome call hcall]
    exact Exchange.leaves_of_resynced
      (Exchange.resynced?_eq_some_iff.mpr ⟨text, herr, hnonce, hnode⟩)

/-- **Nonce accounting.** In every run of the executor, whatever its vouchers meet:

* the calls after the last value the counter was set to carry consecutive nonces from it, modulo
  2^64, where only a nonce error with an answer of the node sets it anew;
* each voucher is accounted for: it makes a call exactly when it is signed and has a tip, and what
  the counter is afterwards is said by the answers it met;
* where every answer of the node lies above the nonces it accepted before and the counter does not
  wrap, the accepted nonces increase over the whole run, so no two are the same. -/
theorem nonce_accounting (env : Setup) (seed : UInt64) (jobs : List (Voucher × Outside)) :
    (∀ before mid e after p, (settleAll env ⟨seed⟩ jobs).2 = before ++ (mid ++ e :: after) →
      LastSync seed before p → (∀ m ∈ mid, m.resynced? = none) →
      e.call.nonce.toNat = (p.toNat + mid.length) % UInt64.size) ∧
    (∀ xs v out ys, jobs = xs ++ (v, out) :: ys →
      Accounted env out (settleAll env ⟨seed⟩ xs).1 v) ∧
    (AnswersAbove (settleAll env ⟨seed⟩ jobs).2 → NoWrap (settleAll env ⟨seed⟩ jobs).2 →
      (acceptedNonces (settleAll env ⟨seed⟩ jobs).2).Pairwise (· < ·) ∧
      (acceptedNonces (settleAll env ⟨seed⟩ jobs).2).Nodup) := by
  have chained := chained_settleAll env ⟨seed⟩ jobs
  refine ⟨?_, ?_, ?_⟩
  · intro before mid e after p hsplit sync steady
    rw [hsplit] at chained
    exact chained_consecutive (chained_of_lastSync chained sync) steady
  · intro xs v out ys _
    exact accounted env out _ v
  · intro answers wrap
    have hsorted := @accepted_increasing [] _ _ chained answers wrap List.Pairwise.nil
      (by intro n hn; cases hn)
    refine ⟨hsorted, hsorted.imp ?_⟩
    intro n n' hlt heq
    exact UInt64.lt_irrefl n (heq ▸ hlt)

namespace Sample

/-- An answer to a nonce error, as the node gives it or fails to. -/
def tooLow (pending : Except Bytes UInt64) : Outside :=
  outside (.error (ascii "nonce too low")) pending

def accepting : Outside := outside (.ok ()) (.ok 0)

def reverting : Outside := outside (.error (ascii "execution reverted")) (.ok 0)

/-- A vault that cannot sign. -/
def unsigned : Outside := { accepting with sign := fun _ => .error (ascii "no key") }

/-- A call that is taken; one that is refused over its nonce, with 9 for the node's answer; one that
is taken; one that reverts; a voucher that is not signed; a call that is refused over its nonce,
with no answer; one that is taken. -/
def mixed : List (Voucher × Outside) :=
  [accepting, tooLow (.ok 9), accepting, reverting, unsigned, tooLow (.error (ascii "EOF")),
    accepting].map fun out => (VynxRelayer.Sample.voucher, out)

def mixedExchanges : List Exchange :=
  [exchange 7 accepting, exchange 8 (tooLow (.ok 9)), exchange 9 accepting, exchange 10 reverting,
    exchange 11 (tooLow (.error (ascii "EOF"))), exchange 12 accepting]

end Sample

theorem nonce_accounting_mixed :
    (settleAll Sample.setup ⟨7⟩ Sample.mixed).2 = Sample.mixedExchanges ∧
    acceptedNonces Sample.mixedExchanges = [7, 9, 12] ∧
    (acceptedNonces Sample.mixedExchanges).Pairwise (· < ·) := by
  have hrun : (settleAll Sample.setup ⟨7⟩ Sample.mixed).2 = Sample.mixedExchanges := by
    simp [settleAll, Sample.mixed, Sample.mixedExchanges, Sample.exchange, execute, Sample.outside,
      Sample.tooLow, Sample.accepting, Sample.reverting, Sample.unsigned, isNonceError_tooLow,
      isNonceError_reverted, NonceQueue.next_eq, NonceQueue.resync, claimCall]
  have hresynced : Sample.mixedExchanges.map Exchange.resynced? =
      [none, some 9, none, none, none, none] := by
    simp [Sample.mixedExchanges, Exchange.resynced?, Sample.exchange, Sample.outside, Sample.tooLow,
      Sample.accepting, Sample.reverting, isNonceError_tooLow, isNonceError_reverted,
      Except.toOption]
  have hanswers : AnswersAbove (settleAll Sample.setup ⟨7⟩ Sample.mixed).2 := by
    rw [hrun]
    intro before e after p hsplit hresync
    -- only the second call was resynchronised
    rw [hsplit, List.map_append, List.map_cons, hresync] at hresynced
    rcases before with _ | ⟨first, _ | ⟨_, before⟩⟩
    · cases hresynced
    · have hfirst : first.call.nonce = 7 := by
        rw [← (List.cons.inj hsplit).1]
        rfl
      have hp : p = 9 := by
        simp only [List.map_cons, List.map_nil, List.singleton_append, List.cons.injEq,
          Option.some.injEq] at hresynced
        exact hresynced.2.1
      intro n hn
      have hn : n = 7 := by
        simp only [acceptedNonces, List.filter_cons, List.filter_nil] at hn
        split at hn <;> simp_all
      rw [hn, hp]
      decide
    · have hmem : some p ∈ [none, none, none, none] := by
        have htail := congrArg (List.drop 2) hresynced
        rw [show [none, none, none, none] = _ from htail.symm]
        simp
      simp at hmem
  have hwrap : NoWrap (settleAll Sample.setup ⟨7⟩ Sample.mixed).2 := by
    rw [hrun]
    unfold NoWrap
    decide
  have hsorted := ((nonce_accounting Sample.setup 7 Sample.mixed).2.2 hanswers hwrap).1
  rw [hrun] at hsorted
  exact ⟨hrun, rfl, hsorted⟩

end VynxRelayer.TxManager
