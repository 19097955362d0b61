import VynxRelayer.Relayer.Addresses
import VynxRelayer.Simulate.Driver

/-!
# Simulated runs

The relayer with any number of the driver's users and solvers around it, and nobody else: every
request is a posted intent, every message an answer to the broadcast of one, in any order and at any
speed.

Every `ClaimFunds` of such a run is for an intent that some user posted and names a solver that bid
on it, and the escrow is the one which that user locked exactly when making the ID UTF-8 changes
nothing in the first 32 bytes of it (`simulated_claims`). A user whose ID is not UTF-8 may wait for
its escrow in vain.
-/

namespace VynxRelayer.Simulate

open Lib Lib.Json Auction Ingress Relayer TxManager

/-! ## From a contract call back to a request -/

section

variable {p : Platform} {buf : Buffers} {q : NonceQueue} {as : List Relayer.Action}
  {tr : List Relayer.Event} {s : Relayer.State}

/-- Handler `h` was posted a request for the intent. -/
def Posted (p : Platform) (as : List Relayer.Action) (h : HandlerId) (intent : Ref Intent) : Prop :=
  ∃ r now, .post h r now ∈ as ∧ submitIntent p.intake now h r = .ok intent

theorem Posted.snoc {h : HandlerId} {intent : Ref Intent} (posted : Posted p as h intent)
    (a : Relayer.Action) : Posted p (as ++ [a]) h intent := by
  obtain ⟨r, now, hmem, hvalid⟩ := posted
  exact ⟨r, now, List.mem_append_left _ hmem, hvalid⟩

/-- What is about to be pushed, and what was, was posted. -/
theorem posted_of_run (played : (system p).run (.init buf q) as = some (s, tr)) :
    (∀ h intent, s.handlers h = some (.ready intent) → Posted p as h intent) ∧
      ∀ h intent, .enqueued h intent ∈ tr → Posted p as h intent := by
  refine System.run_induction (I := fun as s tr =>
    (∀ h intent, s.handlers h = some (.ready intent) → Posted p as h intent) ∧
      ∀ h intent, .enqueued h intent ∈ tr → Posted p as h intent) played
    ⟨fun _ _ h => (nomatch h), fun _ _ h => (nomatch h)⟩ ?_
  rintro as t tr a t' o _ ⟨hready, henqueued⟩ step
  -- a step that leaves the handlers alone and pushes nothing
  have hquiet : t'.handlers = t.handlers → (∀ h intent, o ≠ some (.enqueued h intent)) →
      (∀ h intent, t'.handlers h = some (.ready intent) → Posted p (as ++ [a]) h intent) ∧
        ∀ h intent, .enqueued h intent ∈ tr ++ o.toList → Posted p (as ++ [a]) h intent := by
    intro hsame hnone
    refine ⟨fun h intent hh => (hready h intent (hsame ▸ hh)).snoc a, fun h intent hmem => ?_⟩
    rcases List.mem_append.mp hmem with hmem | hmem
    · exact (henqueued h intent hmem).snoc a
    · exact absurd (Option.mem_toList.mp hmem) (hnone h intent)
  -- a handler that moves on, and is not ready afterwards
  have hmoved : ∀ h' handler, (∀ intent, handler ≠ .ready intent) →
      ∀ h intent, (t.setHandler h' handler).handlers h = some (.ready intent) →
        Posted p (as ++ [a]) h intent := by
    intro h' handler hnot h intent hh
    rcases update_some_eq_some.mp hh with ⟨_, heq⟩ | ⟨_, hh⟩
    · exact absurd heq (hnot intent)
    · exact (hready h intent hh).snoc a
  have hkept : ∀ h intent, .enqueued h intent ∈ tr → Posted p (as ++ [a]) h intent :=
    fun h intent hmem => (henqueued h intent hmem).snoc a
  cases next_cases step with
  | @accept h r now intent _ valid =>
    refine ⟨fun h' intent' hh => ?_, by simpa using hkept⟩
    rcases update_some_eq_some.mp hh with ⟨rfl, heq⟩ | ⟨_, hh⟩
    · cases heq
      exact ⟨r, now, List.mem_append_right _ List.mem_cons_self, valid⟩
    · exact (hready h' intent' hh).snoc _
  | @push h intent _ ready _ =>
    refine ⟨hmoved h _ fun _ hne => (nomatch hne), fun h' intent' hmem => ?_⟩
    rcases List.mem_append.mp hmem with hmem | hmem
    · exact hkept h' intent' hmem
    · cases Option.some.inj (Option.mem_toList.mp hmem)
      exact (hready h intent ready).snoc _
  | refuse _ _ | atCapacity _ _ | replyAccepted _ _ | replyError _ =>
    exact ⟨hmoved _ _ fun _ hne => (nomatch hne), by simpa using hkept⟩
  | hub _ | engine _ _ =>
    refine hquiet rfl fun h intent ho => ?_
    obtain ⟨f, _, hf⟩ := Option.map_eq_some_iff.mp ho
    cases hf
  | _ => exact hquiet rfl fun _ _ ho => by cases ho

/-- An emitted voucher pays its winning bid, which is for its intent. -/
theorem emitted_bid {cap : Nat} {tr : List Auction.Event} {e : Auction.State} {g : CallId}
    {v : Voucher} (h : Auction.system.Path (.init cap) tr e) (emitted : .emitted g v ∈ tr) :
    v.winningBid.intentID = v.intent.val.id ∧ v.amountOut = v.winningBid.amountOut := by
  obtain ⟨intent, bids, w, rest, hw, rfl, hrest, hl⟩ := emitted_story h emitted
  have hlife : life g tr = .registered g intent :: .selected g g bids (some w) ::
      .emitted g (voucherFor intent w) :: rest := hl
  have hsel : .selected g g bids (some w) ∈ life g tr := by rw [hlife]; simp
  obtain ⟨pre, post, rfl⟩ := List.append_of_mem (mem_journal.mp hsel).1
  obtain ⟨intent', hl', _, _, _, hall⟩ := selected_justified h
  have hreg : .registered g intent' ∈ life g (pre ++ .selected g g bids (some w) :: post) := by
    have hmem : .registered g intent' ∈ life g pre := by rw [hl']; exact List.mem_cons_self
    obtain ⟨hpre, howner⟩ := mem_journal.mp hmem
    exact mem_journal.mpr ⟨List.mem_append_left _ hpre, howner⟩
  have hsame : intent' = intent := by
    rw [hlife] at hreg
    rcases hrest with rfl | rfl <;> simpa using hreg
  exact ⟨hsame ▸ (hall w (List.argmax_mem hw.symm)).2, rfl⟩

/-- A contract call is for an intent that was posted, and pays a bid that a message of some
connection asked for. -/
theorem claim_origin {v : Voucher} {a : Attempt} {err : Option ExecuteError}
    (played : (system p).run (.init buf q) as = some (s, tr))
    (executed : .executed v (some a) err ∈ tr) :
    Posted p as v.intent.addr v.intent ∧ a.call.intentId = intentIDBytes v.intent.val.id ∧
      a.call.solver = v.winningBid.solver ∧ v.winningBid.intentID = v.intent.val.id ∧
      v.amountOut = v.winningBid.amountOut ∧
      ∃ k msg, msg ∈ messages k as ∧ readBid p.intake msg = some v.winningBid := by
  have hpath := System.path_of_run played
  have hengine := engine_path hpath
  obtain ⟨g, hemitted⟩ := executed_emitted hpath executed
  obtain ⟨hregistered, hid⟩ := emitted_registered hengine hemitted
  have hinvoked := registered_invoked hengine hregistered
  have haddr : v.intent.addr = g := addressed hpath g v.intent hinvoked
  obtain ⟨hsolver, k, _, msg, _, hmsg, hread⟩ := paid_bid played executed
  obtain ⟨hbid, hamount⟩ := emitted_bid hengine hemitted
  refine ⟨?_, ?_, hsolver, hbid, hamount, k, msg, hmsg, hread⟩
  · rw [haddr]
    exact (posted_of_run played).2 g v.intent (invoked_enqueued hpath hinvoked)
  · rw [(executed_call hpath executed).1, hid]

end

/-! ## The driver's parties -/

/-- Only the driver's users and solvers take part. -/
structure Simulated (codecs : Codecs) (as : List Relayer.Action) : Prop where
  posts : ∀ h r now, .post h r now ∈ as → ∃ intent, r = postReq codecs.hex intent
  answers : ∀ k msg, .message k msg ∈ as → ∃ solver intent,
    answer codecs.hex codecs.decodeBroadcast solver (broadcastText codecs.hex intent) = some msg

theorem mem_messages {k : ClientId} {msg : Bytes} {as : List Relayer.Action} :
    msg ∈ messages k as ↔ .message k msg ∈ as := by
  constructor
  · intro h
    obtain ⟨a, ha, hmsg⟩ := List.mem_filterMap.mp h
    unfold Action.message? at hmsg
    split at hmsg
    · split at hmsg <;> cases hmsg
      rename_i heq
      exact heq ▸ ha
    · cases hmsg
  · intro h
    exact List.mem_filterMap.mpr ⟨_, h, if_pos rfl⟩

/-- **What simulated runs settle.** Whatever the interleaving, a `ClaimFunds` is for an intent that
a user posted, its voucher is for the bid of a solver that answered a broadcast of its ID, and it
names the escrow that the user locked exactly when that ID and the posted one have the same escrow
name. -/
theorem simulated_claims {codecs : Codecs} (padding : Padding) {p : Platform}
    (wired : p.intake = codecs.toIntake) {buf : Buffers} {q : NonceQueue}
    {as : List Relayer.Action} {tr : List Relayer.Event} {s : Relayer.State}
    (simulated : Simulated codecs as)
    (played : (system p).run (.init buf q) as = some (s, tr)) {v : Voucher} {a : Attempt}
    {err : Option ExecuteError} (executed : .executed v (some a) err ∈ tr) :
    v.amountOut = some 950000000000000000 ∧
    ∃ r now k offered, .post v.intent.addr r now ∈ as ∧
      .message k (bidRequestJson.print (bidRequest codecs.hex a.call.solver offered)) ∈ as ∧
      (∃ intent, r = postReq codecs.hex intent) ∧
      ∀ intent, r = postReq codecs.hex intent →
        v.intent.val = valid intent ∧ toValid offered = toValid intent.id.bytes ∧
        ((readLockIntent (lock padding intent)).map Prod.fst = some a.call.intentId ↔
          escrowName intent.id = escrowName (valid intent).id) := by
  obtain ⟨⟨r, now, hpost, hvalid⟩, hclaim, hsolver, hbid, hamount, k, msg, hmsg, hread⟩ :=
    claim_origin played executed
  rw [wired] at hvalid hread
  obtain ⟨solver, other, hanswer⟩ := simulated.answers _ _ (mem_messages.mp hmsg)
  rw [answer_broadcastText] at hanswer
  obtain rfl := Option.some.inj hanswer
  rw [readBid_bidRequest] at hread
  have hwon : v.winningBid = bidFor solver ⟨toValid (toValid other.id.bytes)⟩ :=
    (Option.some.inj hread).symm
  refine ⟨by rw [hamount, hwon]; rfl, r, now, k, toValid other.id.bytes, hpost, ?_,
    simulated.posts _ _ _ hpost, ?_⟩
  · rw [hsolver, hwon]
    exact mem_messages.mp hmsg
  · rintro intent rfl
    have hval : v.intent.val = valid intent :=
      congrArg Ref.val ((submitIntent_postReq_iff codecs).mp hvalid).1
    refine ⟨hval, ?_, ?_⟩
    · rw [hwon, hval] at hbid
      exact congrArg IntentID.bytes hbid
    · rw [lock, readLockIntent_callLockIntent, Option.map_some, Option.some.injEq, hclaim, hval]
      exact intentIDBytes_eq_iff intent.id (valid intent).id

namespace Sample

def padding : Padding := ⟨fun b n => leftPad n b, fun _ _ => rfl⟩

/-- An intent as the driver makes it. -/
def intent : Intent where
  id := ⟨ascii "sim-1"⟩
  sender := VynxRelayer.Sample.address 1
  tokenIn := VynxRelayer.Sample.address 2
  tokenOut := VynxRelayer.Sample.address 2
  amountIn := 1000000000000000000
  minAmountOut := 900000000000000000
  deadline := 1
  nonce := 1
  signature := [7]

/-- One user and one solver: the intent is posted, broadcast, bid on and settled. -/
def schedule : List Relayer.Action :=
  Relayer.Sample.connect ++ Relayer.Sample.post 0 (postReq readers.hex intent).body ++
    Relayer.Sample.start 0 ++
    Relayer.Sample.offer 0 (bidRequestJson.print
      (bidRequest readers.hex (VynxRelayer.Sample.address 17) intent.id.bytes)) ++
    Relayer.Sample.finish 0

theorem eq_of_post {h : HandlerId} {r : Request} {now : Int} (mem : .post h r now ∈ schedule) :
    r = postReq readers.hex intent := by
  simp only [schedule, Relayer.Sample.connect, Relayer.Sample.post, Relayer.Sample.start,
    Relayer.Sample.offer, Relayer.Sample.finish, List.mem_append, List.mem_cons, reduceCtorEq,
    List.not_mem_nil, or_false, false_or, Action.post.injEq] at mem
  exact mem.2.1

theorem simulated : Simulated readers schedule where
  posts _ _ _ hmem := ⟨intent, eq_of_post hmem⟩
  answers k msg hmem := by
    simp only [schedule, Relayer.Sample.connect, Relayer.Sample.post, Relayer.Sample.start,
      Relayer.Sample.offer, Relayer.Sample.finish, List.mem_append, List.mem_cons, reduceCtorEq,
      List.not_mem_nil, or_false, false_or, Action.message.injEq] at hmem
    have hid : Utf8 intent.id.bytes := utf8_of_ascii (by decide +kernel)
    refine ⟨VynxRelayer.Sample.address 17, intent, ?_⟩
    rw [answer_broadcastText, hid.toValid, hmem.2]

/-- Some contract call is among the events. -/
def paid? : Relayer.Event → Bool
  | .executed _ (some _) _ => true
  | _ => false

end Sample

/-- One round of the driver: the escrow that was locked is claimed. -/
theorem simulated_claims_round : ∃ tr s v a err,
    (system Relayer.Sample.platform).run (.init Relayer.Sample.buffers ⟨7⟩) Sample.schedule =
      some (s, tr) ∧
    .executed v (some a) err ∈ tr ∧ v.intent.val = valid Sample.intent ∧
    v.amountOut = some 950000000000000000 ∧
    (readLockIntent (lock Sample.padding Sample.intent)).map Prod.fst = some a.call.intentId := by
  have hrun : (((system Relayer.Sample.platform).run (.init Relayer.Sample.buffers ⟨7⟩)
      Sample.schedule).any fun r => r.2.any Sample.paid?) = true := by
    decide +kernel
  obtain ⟨⟨s, tr⟩, hplay, hany⟩ := Option.any_eq_true _ _ |>.mp hrun
  obtain ⟨e, hmem, hpaid⟩ := List.any_eq_true.mp hany
  unfold Sample.paid? at hpaid
  split at hpaid
  · rename_i v a err
    obtain ⟨hamount, r, now, _, _, hpost, _, _, hposted⟩ :=
      simulated_claims Sample.padding rfl Sample.simulated hplay hmem
    obtain ⟨hval, _, hescrow⟩ := hposted Sample.intent (Sample.eq_of_post hpost)
    exact ⟨tr, s, v, a, err, hplay, hmem, hval, hamount, hescrow.mpr (by decide +kernel)⟩
  · cases hpaid

/-- An ID that is not UTF-8: the escrow the relayer would claim is another one. -/
example : escrowName ⟨[0xFF]⟩ ≠ escrowName ⟨toValid [0xFF]⟩ := by decide

end VynxRelayer.Simulate
