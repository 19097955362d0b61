import VynxRelayer.Relayer.Bids
import VynxRelayer.Relayer.Settlement

/-!
# Whose address it is

Four strings of a request or a solver's message stand for addresses, and none of them is checked:
`common.HexToAddress` makes an address of any string. What the relayer stores is what was written
exactly when an address was written (`addresses_kept_iff`), and it is the stored solver that
`ClaimFunds` pays.
-/

namespace VynxRelayer.Relayer

open Lib Lib.Json Auction Ingress TxManager

/-- The addresses of an intent are those its request wrote. -/
def KeepsAddresses (req : IntentRequest) (intent : Intent) : Prop :=
  Denotes req.sender intent.sender ∧ Denotes req.tokenIn intent.tokenIn ∧
    Denotes req.tokenOut intent.tokenOut

/-- The request has an address in each place for one. -/
def WritesAddresses (req : IntentRequest) : Prop :=
  IsAddress req.sender ∧ IsAddress req.tokenIn ∧ IsAddress req.tokenOut

theorem keepsAddresses_iff {hexToAddress : Bytes → Address} (reads : ReadsAddresses hexToAddress)
    {now : Int} {req : IntentRequest} {intent : Intent}
    (asks : IntentOf hexToAddress now req intent) :
    KeepsAddresses req intent ↔ WritesAddresses req := by
  unfold KeepsAddresses WritesAddresses
  rw [asks.sender, asks.tokenIn, asks.tokenOut, reads.denotes_iff, reads.denotes_iff,
    reads.denotes_iff]

/-- What `ClaimFunds` pays is the solver of a bid that a message of some connection asked for. -/
theorem paid_bid {p : Platform} {buf : Buffers} {q : NonceQueue} {as : List Action}
    {tr : List Event} {s : State} {v : Voucher} {a : Attempt} {err : Option ExecuteError}
    (played : (system p).run (.init buf q) as = some (s, tr))
    (executed : .executed v (some a) err ∈ tr) :
    a.call.solver = v.winningBid.solver ∧ ∃ k c msg, .bidRead k ⟨c, v.winningBid⟩ ∈ tr ∧
      msg ∈ messages k as ∧ readBid p.intake msg = some v.winningBid := by
  have h := System.path_of_run played
  obtain ⟨g, hemitted⟩ := executed_emitted h executed
  obtain ⟨hsolver, c, hinvoked⟩ := emitted_invoked (engine_path h) hemitted
  obtain ⟨k, hread⟩ := reached_pushed h (mem_engineTrace.mp hinvoked)
  have hbid : v.winningBid ∈ (messages k as).filterMap (readBid p.intake) := by
    rw [← bids_of_messages played k]
    refine List.mem_map.mpr ⟨⟨c, v.winningBid⟩, List.mem_filterMap.mpr ⟨_, hread, ?_⟩, rfl⟩
    exact bidOf?_eq_some.mpr (.inl rfl)
  obtain ⟨msg, hmsg, hdenoted⟩ := List.mem_filterMap.mp hbid
  exact ⟨(executed_call h executed).2.trans hsolver, k, c, msg, hread, hmsg, hdenoted⟩

/-- **When addresses are the ones that were written.** An accepted intent has the addresses of its
request exactly when the request has an address in each of its three places, and a bid has the
solver of its message exactly when the message has an address there. Every `ClaimFunds` of every run
is for a bid that a message of some connection asked for, and pays the solver that such a message
names exactly when it names one. -/
theorem addresses_kept_iff (p : Platform) (reads : ReadsAddresses p.intake.hexToAddress) :
    (∀ now addr r intent, submitIntent p.intake now addr r = .ok intent →
      ∃ req, p.intake.decodeIntent r.body = .ok req ∧
        (KeepsAddresses req intent.val ↔ WritesAddresses req)) ∧
    (∀ msg bid, readBid p.intake msg = some bid →
      ∃ req, p.intake.decodeBid msg = some req ∧
        (Denotes req.solver bid.solver ↔ IsAddress req.solver)) ∧
    (∀ buf q as tr s v a err, (system p).run (.init buf q) as = some (s, tr) →
      .executed v (some a) err ∈ tr →
      (∃ k c msg, .bidRead k ⟨c, v.winningBid⟩ ∈ tr ∧ msg ∈ messages k as ∧
        readBid p.intake msg = some v.winningBid) ∧
      ∀ msg, readBid p.intake msg = some v.winningBid → ∃ req, p.intake.decodeBid msg = some req ∧
        (Denotes req.solver a.call.solver ↔ IsAddress req.solver)) := by
  have hbid : ∀ msg bid, readBid p.intake msg = some bid →
      ∃ req, p.intake.decodeBid msg = some req ∧
        (Denotes req.solver bid.solver ↔ IsAddress req.solver) := by
    intro msg bid hread
    obtain ⟨req, hreq, hasks⟩ := readBid_eq_some_iff.mp hread
    exact ⟨req, hreq, by rw [hasks.solver, reads.denotes_iff]⟩
  refine ⟨?_, hbid, ?_⟩
  · intro now addr r intent accepted
    obtain ⟨_, req, hreq, _, hasks⟩ := submitIntent_eq_ok_iff.mp accepted
    exact ⟨req, hreq, keepsAddresses_iff reads hasks⟩
  · intro buf q as tr s v a err played executed
    obtain ⟨hpaid, hmessage⟩ := paid_bid played executed
    rw [hpaid]
    exact ⟨hmessage, fun msg => hbid msg _⟩

namespace Sample

/-- Addresses, as they are written. -/
def written : Bytes := ascii "0x" ++ List.replicate 40 51

def writtenUpper : Bytes := ascii "0X" ++ List.replicate 40 51

/-- A request with an address in each place for one. -/
def namedRequest : IntentRequest :=
  { request (ascii "5") [1] with sender := written, tokenIn := writtenUpper, tokenOut := written }

def namedIntent : Ref Intent where
  addr := 0
  val :=
    { (intent 0 [1]).val with
      sender := VynxRelayer.Sample.address 0x33
      tokenIn := VynxRelayer.Sample.address 0x33
      tokenOut := VynxRelayer.Sample.address 0x33 }

/-- A message with an address for its solver. -/
def namedBidRequest : BidRequest where
  intentID := [1]
  solver := writtenUpper
  amountOut := ascii "6"
  gasPrice := ascii "1"

def namedBid : Bid := ⟨⟨[1]⟩, VynxRelayer.Sample.address 0x33, some 6, some 1⟩

/-- The request is settled for that bid. -/
def naming : List Action :=
  connect ++ post 0 (intentRequestJson.print namedRequest) ++ start 0 ++
    offer 0 (bidRequestJson.print namedBidRequest) ++ finish 0

def namedExecuted : Event :=
  .executed (voucherFor namedIntent namedBid) (some ⟨call 7 namedBid, .taken⟩) none

end Sample

/-- A user and a solver that named themselves: the intent has the user's addresses, and the solver
is paid. -/
theorem addresses_kept_iff_named : ∃ tr s,
    (system Sample.platform).run (.init Sample.buffers ⟨7⟩) Sample.naming = some (s, tr) ∧
    .enqueued 0 Sample.namedIntent ∈ tr ∧ Sample.namedExecuted ∈ tr ∧
    KeepsAddresses Sample.namedRequest Sample.namedIntent.val ∧
    Denotes Sample.namedBidRequest.solver (Sample.call 7 Sample.namedBid).solver := by
  have hrun : (((system Sample.platform).run (.init Sample.buffers ⟨7⟩) Sample.naming).any
      fun r => r.2.contains (.enqueued 0 Sample.namedIntent) &&
        r.2.contains Sample.namedExecuted) = true := by
    decide +kernel
  obtain ⟨⟨s, tr⟩, hplay, hany⟩ := Option.any_eq_true _ _ |>.mp hrun
  rw [Bool.and_eq_true, List.contains_iff_mem, List.contains_iff_mem] at hany
  obtain ⟨hintent, -, hclaim⟩ :=
    addresses_kept_iff Sample.platform Ingress.Sample.readsAddresses
  refine ⟨tr, s, hplay, hany.1, hany.2, ?_, ?_⟩
  · obtain ⟨req, hreq, hiff⟩ := hintent 0 0
      ⟨ascii "POST", intentRequestJson.print Sample.namedRequest⟩ Sample.namedIntent
      (by decide +kernel)
    have hbody : Sample.platform.intake.decodeIntent (intentRequestJson.print Sample.namedRequest) =
        .ok Sample.namedRequest := by decide +kernel
    cases hbody.symm.trans hreq
    exact hiff.mpr (by unfold WritesAddresses; decide +kernel)
  · obtain ⟨req, hreq, hiff⟩ := (hclaim _ _ _ tr s _ _ _ hplay hany.2).2
      (bidRequestJson.print Sample.namedBidRequest) (by decide +kernel)
    have hbody : Sample.platform.intake.decodeBid (bidRequestJson.print Sample.namedBidRequest) =
        some Sample.namedBidRequest := by decide +kernel
    cases hbody.symm.trans hreq
    exact hiff.mpr (by decide +kernel)

/-- **Addresses made up**: a request without a sender is accepted, and its intent has one; a solver
that writes the digit 3 for its address is paid at the address that ends in it. -/
theorem addresses_made_up : ∃ tr s,
    tr = .hub (.joined 0) :: Sample.rounded 0 7 (Sample.bid 51 6 [1]) ∧
    (system Sample.platform).Path (.init Sample.buffers ⟨7⟩) tr s ∧
    .replied 0 (.accepted [1]) ∈ tr ∧ .enqueued 0 (Sample.intent 0 [1]) ∈ tr ∧
    (∃ req, Sample.platform.intake.decodeIntent (Sample.body [1]) = .ok req ∧ req.sender = [] ∧
      (Sample.intent 0 [1]).val.sender = VynxRelayer.Sample.address 0 ∧
      ¬ Denotes req.sender (Sample.intent 0 [1]).val.sender) ∧
    (∃ req, Sample.platform.intake.decodeBid (Sample.message 51 54 [1]) = some req ∧
      req.solver = ascii "3" ∧ .bidRead 0 ⟨0, Sample.bid 51 6 [1]⟩ ∈ tr ∧
      Sample.executed 0 7 (Sample.bid 51 6 [1]) ∈ tr ∧
      ¬ Denotes req.solver (Sample.call 7 (Sample.bid 51 6 [1])).solver) := by
  have hrun : ((system Sample.platform).run (.init Sample.buffers ⟨7⟩)
      (Sample.connect ++ Sample.round 0 [1] 51 54)).map Prod.snd =
        some (.hub (.joined 0) :: Sample.rounded 0 7 (Sample.bid 51 6 [1])) := by
    decide +kernel
  obtain ⟨s, hpath⟩ := System.exists_path_of_run hrun
  have hsender : ¬ IsAddress [] := by decide
  have hsolver : ¬ IsAddress [51] := by decide
  have hbody : Sample.platform.intake.decodeIntent (Sample.body [1]) =
      .ok (Sample.request (ascii "5") [1]) := by decide +kernel
  have hmessage : Sample.platform.intake.decodeBid (Sample.message 51 54 [1]) =
      some ⟨[1], [51], [54], ascii "1"⟩ := by decide +kernel
  refine ⟨_, s, rfl, hpath, by decide +kernel, by decide +kernel,
    ⟨_, hbody, rfl, by decide, fun h => hsender h.isAddress⟩,
    ⟨_, hmessage, rfl, by decide +kernel, by decide +kernel, fun h => hsolver h.isAddress⟩⟩

end VynxRelayer.Relayer
