import VynxRelayer.Ingress.Wire
import VynxRelayer.Lib.Words
import VynxRelayer.TxManager.Executor

/-!
# The simulation driver

`cmd/simulate/main.go` plays both parties around the relayer: a user that locks an escrow on chain
and posts the intent, and a solver that answers the broadcast with a bid. Its calls to the contracts
are packed by hand, a selector and padded words (`callMint`, `callApprove`, `callLockIntent`); its
HTTP body and its bid are JSON.

A contract reads the arguments of such a call as they were meant exactly when the amount fits a word
(`calldata_exact`). A posted intent is accepted when its amounts, its ID and its deadline are in
order, and then it is the posted one, its ID made UTF-8; the solver's answer to its broadcast is
read as a bid for that ID (`posted_answered`).
-/

namespace VynxRelayer.Simulate

open Lib Lib.Json Ingress TxManager

/-! ## Calls to the contracts -/

/-- A selector and the words of the arguments. -/
def pack (selector : Bytes) (words : List Bytes) : Bytes := selector ++ words.flatten

/-- `common.LeftPadBytes`, and what is relied on of it: zeros in front up to a length, and nothing
done to what is longer. -/
structure Padding where
  leftPadBytes : Bytes → Nat → Bytes
  pads : ∀ b n, leftPadBytes b n = leftPad n b

section

variable (padding : Padding)

/-- The word of an address. -/
def addressWord (a : Address) : Bytes := padding.leftPadBytes a.bytes 32

/-- The word of an amount: `Bytes` is of the absolute value. -/
def amountWord (n : Int) : Bytes := padding.leftPadBytes (shortest n.natAbs) 32

/-- The data of `callMint`. -/
def callMint (receiver : Address) (amount : Int) : Bytes :=
  pack [0x40, 0xc1, 0x0f, 0x19] [addressWord padding receiver, amountWord padding amount]

/-- The data of `callApprove`. -/
def callApprove (spender : Address) (amount : Int) : Bytes :=
  pack [0x09, 0x5e, 0xa7, 0xb3] [addressWord padding spender, amountWord padding amount]

/-- The data of `callLockIntent`. -/
def callLockIntent (intentID : FixedBytes 32) (token : Address) (amount : Int) : Bytes :=
  pack [0x47, 0x64, 0x31, 0x64]
    [intentID.bytes, addressWord padding token, amountWord padding amount]

end

/-! A contract's view of a call: Solidity's decoder takes argument `i` from word `i` behind the
selector, and refuses a call that is too short or has an address with anything in its upper bytes.
-/

/-- Argument `i` of a call. -/
def argument (data : Bytes) (i : Nat) : Bytes := wordAt 4 32 data i

/-- A word as an address. -/
def wordAddress (w : Bytes) : Option Address :=
  if h : w.take 12 = List.replicate 12 0 ∧ (w.drop 12).length = 20 then some ⟨w.drop 12, h.2⟩
  else none

/-- `(address, uint256)` under a selector. -/
def readAddressAmount (selector : Bytes) (data : Bytes) : Option (Address × Nat) :=
  if data.take 4 = selector ∧ 68 ≤ data.length then
    (wordAddress (argument data 0)).map fun a => (a, valueOf (argument data 1))
  else none

/-- `lockIntent(bytes32, address, uint256)`. -/
def readLockIntent (data : Bytes) : Option (FixedBytes 32 × Address × Nat) :=
  if data.take 4 = [0x47, 0x64, 0x31, 0x64] ∧ 100 ≤ data.length then
    (wordAddress (argument data 1)).map fun token =>
      (copyBytes 32 (argument data 0), token, valueOf (argument data 2))
  else none

section

variable (padding : Padding)

theorem addressWord_eq (a : Address) :
    addressWord padding a = List.replicate 12 0 ++ a.bytes := by
  rw [addressWord, padding.pads, leftPad, a.size]

theorem length_addressWord (a : Address) : (addressWord padding a).length = 32 := by
  rw [addressWord_eq, List.length_append, List.length_replicate, a.size]

theorem le_length_amountWord (n : Int) : 32 ≤ (amountWord padding n).length := by
  rw [amountWord, padding.pads]
  exact le_length_leftPad _ _

theorem wordAddress_addressWord (a : Address) :
    wordAddress ((addressWord padding a).take 32) = some a := by
  have hdrop : (List.replicate 12 0 ++ a.bytes).drop 12 = a.bytes :=
    List.drop_left' List.length_replicate
  have hword : (List.replicate 12 0 ++ a.bytes).take 12 = List.replicate 12 0 ∧
      ((List.replicate 12 0 ++ a.bytes).drop 12).length = 20 := by
    rw [hdrop]
    exact ⟨List.take_left' List.length_replicate, a.size⟩
  rw [List.take_of_length_le (length_addressWord padding a).le, addressWord_eq, wordAddress,
    dif_pos hword]
  exact congrArg some (FixedBytes.eq_of_bytes hdrop)

/-- The number a contract reads for an amount. -/
def readAmount (n : Int) : Nat := valueOf ((amountWord padding n).take 32)

/-- The contract reads the amount exactly when it is an unsigned number of 256 bits. -/
theorem readAmount_eq_iff {n : Int} : (readAmount padding n : Int) = n ↔ 0 ≤ n ∧ n < 2 ^ 256 := by
  have hlt : readAmount padding n < 256 ^ 32 := by
    have h := valueOf_lt ((amountWord padding n).take 32)
    rwa [List.length_take_of_le (le_length_amountWord padding n)] at h
  have hsize : (256 : Nat) ^ 32 = 2 ^ 256 := by decide
  constructor
  · intro h
    omega
  · rintro ⟨hnonneg, hfits⟩
    have hfits : n.natAbs < 256 ^ 32 := by omega
    rw [readAmount, amountWord, padding.pads, leftPad_shortest hfits,
      List.take_of_length_le (length_bigEndian 32 _).le, valueOf_bigEndian hfits]
    omega

section

variable {selector : Bytes} (size : selector.length = 4)
include size

theorem take_pack (words : List Bytes) : (pack selector words).take 4 = selector :=
  List.take_left' size

theorem argument_pack (before : List Bytes) (w : Bytes) (after : List Bytes)
    (hbefore : ∀ x ∈ before, x.length = 32) (hw : 32 ≤ w.length) :
    argument (pack selector (before ++ w :: after)) before.length = w.take 32 := by
  rw [pack, List.flatten_append, List.flatten_cons]
  exact wordAt_append size hbefore hw

theorem readAddressAmount_pack (a : Address) (n : Int) :
    readAddressAmount selector (pack selector [addressWord padding a, amountWord padding n]) =
      some (a, readAmount padding n) := by
  have hamount := le_length_amountWord padding n
  have hlength : 68 ≤ (pack selector [addressWord padding a, amountWord padding n]).length := by
    simp only [pack, List.flatten_cons, List.flatten_nil, List.length_append, List.length_nil,
      length_addressWord, size]
    omega
  have hfirst : argument (pack selector [addressWord padding a, amountWord padding n]) 0 =
      (addressWord padding a).take 32 :=
    argument_pack size [] _ _ (by simp) (length_addressWord padding a).ge
  have hsecond : argument (pack selector [addressWord padding a, amountWord padding n]) 1 =
      (amountWord padding n).take 32 :=
    argument_pack size [addressWord padding a] _ [] (by simp [length_addressWord]) hamount
  rw [readAddressAmount, if_pos ⟨take_pack size _, hlength⟩, hfirst, hsecond,
    wordAddress_addressWord, Option.map_some, readAmount]

end

theorem copyBytes_bytes (id : FixedBytes 32) : copyBytes 32 (id.bytes.take 32) = id := by
  refine FixedBytes.eq_of_bytes ?_
  change (id.bytes.take 32 ++ List.replicate 32 0).take 32 = id.bytes
  rw [List.take_of_length_le id.size.le, List.take_left' id.size]

theorem readLockIntent_callLockIntent (id : FixedBytes 32) (token : Address) (n : Int) :
    readLockIntent (callLockIntent padding id token n) = some (id, token, readAmount padding n) := by
  have hamount := le_length_amountWord padding n
  have size : ([0x47, 0x64, 0x31, 0x64] : Bytes).length = 4 := rfl
  have hlength : 100 ≤ (callLockIntent padding id token n).length := by
    simp only [callLockIntent, pack, List.flatten_cons, List.flatten_nil, List.length_append,
      List.length_nil, length_addressWord, id.size, size]
    omega
  have hid : argument (callLockIntent padding id token n) 0 = id.bytes.take 32 :=
    argument_pack size [] _ _ (by simp) id.size.ge
  have htoken : argument (callLockIntent padding id token n) 1 =
      (addressWord padding token).take 32 :=
    argument_pack size [id.bytes] _ _ (by simp [id.size]) (length_addressWord padding token).ge
  have hread : argument (callLockIntent padding id token n) 2 = (amountWord padding n).take 32 :=
    argument_pack size [id.bytes, addressWord padding token] _ []
      (by simp [id.size, length_addressWord]) hamount
  rw [readLockIntent, if_pos ⟨take_pack size _, hlength⟩, hid, htoken, hread,
    wordAddress_addressWord, Option.map_some, copyBytes_bytes, readAmount]

end

/-- **What the contracts read.** Each of the three calls is read as that function's, with the escrow
and the addresses it was made for; the amount is read as it was meant exactly when it is an unsigned
number of 256 bits. -/
theorem calldata_exact (padding : Padding) (id : FixedBytes 32) (a : Address) (n : Int) : ∃ read : Nat,
    readAddressAmount [0x40, 0xc1, 0x0f, 0x19] (callMint padding a n) = some (a, read) ∧
    readAddressAmount [0x09, 0x5e, 0xa7, 0xb3] (callApprove padding a n) = some (a, read) ∧
    readLockIntent (callLockIntent padding id a n) = some (id, a, read) ∧
    ((read : Int) = n ↔ 0 ≤ n ∧ n < 2 ^ 256) :=
  ⟨readAmount padding n, readAddressAmount_pack padding rfl a n,
    readAddressAmount_pack padding rfl a n, readLockIntent_callLockIntent padding id a n,
    readAmount_eq_iff padding⟩

/-! ## The user -/

/-- The HTTP body for an intent. -/
def httpBody (hex : Address → Bytes) (intent : Intent) : IntentRequest where
  id := intent.id.bytes
  sender := hex intent.sender
  tokenIn := hex intent.tokenIn
  tokenOut := hex intent.tokenOut
  amountIn := decimalInt intent.amountIn
  minAmountOut := decimalInt intent.minAmountOut
  deadline := intent.deadline
  nonce := intent.nonce
  signature := 48 :: 120 :: hexEncode intent.signature

/-- The request that posts an intent. -/
def postReq (hex : Address → Bytes) (intent : Intent) : Request where
  method := ascii "POST"
  body := intentRequestJson.print (httpBody hex intent)

/-- The escrow that the user locks for an intent. -/
def lock (padding : Padding) (intent : Intent) : Bytes :=
  callLockIntent padding (copyBytes 32 intent.id.bytes) intent.tokenIn intent.amountIn

/-- The intent with its ID made UTF-8. -/
def valid (intent : Intent) : Intent := { intent with id := ⟨toValid intent.id.bytes⟩ }

section

variable (codecs : Codecs)

theorem norm_httpBody (intent : Intent) :
    intentRequestJson.norm (httpBody codecs.hex intent) =
      { httpBody codecs.hex intent with id := toValid intent.id.bytes } := by
  have hsignature : Utf8 (48 :: 120 :: hexEncode intent.signature) :=
    utf8_of_hexPart (hexOf_hexEncode intent.signature).isSome
  change IntentRequest.mk (toValid _) (toValid _) (toValid _) (toValid _) (toValid _) (toValid _) _ _
    (toValid _) = _
  simp only [httpBody, (codecs.utf8_hex _).toValid, (utf8_decimalInt _).toValid,
    hsignature.toValid]

/-- The body of an intent asks for that intent, its ID made UTF-8, and for no other. -/
theorem intentOf_httpBody_iff {now : Int} {intent accepted : Intent} :
    IntentOf codecs.hexToAddress now (intentRequestJson.norm (httpBody codecs.hex intent)) accepted ↔
      accepted = valid intent ∧ intent.id.bytes ≠ [] ∧ 0 < intent.amountIn ∧
        0 ≤ intent.minAmountOut ∧ unixAfter intent.deadline now = true := by
  rw [norm_httpBody, ne_eq, ← toValid_eq_nil_iff]
  have hsignature : HexOf (trim0x (48 :: 120 :: hexEncode intent.signature)) intent.signature :=
    hexOf_hexEncode intent.signature
  constructor
  · intro h
    have hin : accepted.amountIn = intent.amountIn := by
      have hread := setString_eq_some_iff.mpr h.amountIn
      rw [httpBody, setString_decimalInt] at hread
      exact (Option.some.inj hread).symm
    have hout : accepted.minAmountOut = intent.minAmountOut := by
      have hread := setString_eq_some_iff.mpr h.minAmountOut
      rw [httpBody, setString_decimalInt] at hread
      exact (Option.some.inj hread).symm
    have hsig : accepted.signature = intent.signature := by
      have hread := hexDecode_eq_ok_iff.mpr h.signature
      rw [httpBody, hexDecode_eq_ok_iff.mpr hsignature] at hread
      exact (congrArg Prod.fst hread).symm
    refine ⟨?_, h.named, hin ▸ h.amountIn_pos, hout ▸ h.minAmountOut_nonneg, h.future⟩
    have hsender := h.sender
    have htokenIn := h.tokenIn
    have htokenOut := h.tokenOut
    simp only [httpBody, codecs.hexToAddress_hex] at hsender htokenIn htokenOut
    cases accepted
    simp only [valid, Intent.mk.injEq]
    exact ⟨h.id, hsender, htokenIn, htokenOut, hin, hout, h.deadline, h.nonce, hsig⟩
  · rintro ⟨rfl, hnamed, hin, hout, hfuture⟩
    exact
      { named := hnamed, id := rfl
        sender := (codecs.hexToAddress_hex _).symm
        tokenIn := (codecs.hexToAddress_hex _).symm
        tokenOut := (codecs.hexToAddress_hex _).symm
        amountIn := setString_eq_some_iff.mp (setString_decimalInt _), amountIn_pos := hin
        minAmountOut := setString_eq_some_iff.mp (setString_decimalInt _)
        minAmountOut_nonneg := hout
        future := hfuture, deadline := rfl, nonce := rfl, signature := hsignature }

theorem submitIntent_postReq_iff {now : Int} {addr : Nat} {intent : Intent}
    {accepted : Ref Intent} :
    submitIntent codecs.toIntake now addr (postReq codecs.hex intent) = .ok accepted ↔
      accepted = ⟨addr, valid intent⟩ ∧ intent.id.bytes ≠ [] ∧ 0 < intent.amountIn ∧
        0 ≤ intent.minAmountOut ∧ unixAfter intent.deadline now = true := by
  rw [submitIntent_eq_ok_iff]
  constructor
  · rintro ⟨_, req, hreq, haddr, hasks⟩
    have hbody : req = intentRequestJson.norm (httpBody codecs.hex intent) := by
      rw [postReq, codecs.intent_print] at hreq
      exact (Except.ok.inj hreq).symm
    rw [hbody, intentOf_httpBody_iff] at hasks
    obtain ⟨addr', val⟩ := accepted
    obtain rfl : addr' = addr := haddr
    exact ⟨congrArg _ hasks.1, hasks.2⟩
  · rintro ⟨rfl, hvalid⟩
    refine ⟨rfl, _, codecs.intent_print _, rfl, ?_⟩
    exact (intentOf_httpBody_iff codecs).mpr ⟨rfl, hvalid⟩

/-! ## The solver -/

/-- The bid of the driver's solver, as the constants of the driver say it. -/
def bidRequest (hex : Address → Bytes) (solver : Address) (id : Bytes) : BidRequest where
  intentID := id
  solver := hex solver
  amountOut := ascii "950000000000000000"
  gasPrice := ascii "1000000000"

/-- The solver on one message: it answers the broadcast of a new intent with a bid, and goes on past
any other. -/
def answer (hex : Address → Bytes) (decode : Bytes → Option IntentBroadcast) (solver : Address)
    (raw : Bytes) : Option Bytes :=
  match decode raw with
  | none => none
  | some envelope =>
    if envelope.type = ascii "new_intent" then
      some (bidRequestJson.print (bidRequest hex solver envelope.id))
    else none

/-- The bid the relayer makes of an answer. -/
def bidFor (solver : Address) (id : IntentID) : Bid where
  intentID := id
  solver
  amountOut := some 950000000000000000
  gasPrice := some 1000000000

theorem readBid_bidRequest (solver : Address) (id : Bytes) :
    readBid codecs.toIntake (bidRequestJson.print (bidRequest codecs.hex solver id)) =
      some (bidFor solver ⟨toValid id⟩) := by
  have hamount : Utf8 (ascii "950000000000000000") := utf8_of_ascii (by decide +kernel)
  have hgas : Utf8 (ascii "1000000000") := utf8_of_ascii (by decide +kernel)
  have hnorm : bidRequestJson.norm (bidRequest codecs.hex solver id) =
      { bidRequest codecs.hex solver id with intentID := toValid id } := by
    change BidRequest.mk (toValid _) (toValid _) (toValid _) (toValid _) = _
    simp only [bidRequest, (codecs.utf8_hex _).toValid, hamount.toValid, hgas.toValid]
  rw [readBid, codecs.bid_print, hnorm]
  have hamount : (setString (ascii "950000000000000000")).filter (0 < ·) =
      some 950000000000000000 := by decide
  have hgas : (setString (ascii "1000000000")).filter (0 < ·) = some 1000000000 := by decide
  simp only [bidRequest, hamount, hgas, codecs.hexToAddress_hex, bidFor]

/-- The solver answers the broadcast of an intent, and names its ID made UTF-8. -/
theorem answer_broadcastText (solver : Address) (intent : Intent) :
    answer codecs.hex codecs.decodeBroadcast solver (broadcastText codecs.hex intent) =
      some (bidRequestJson.print (bidRequest codecs.hex solver (toValid intent.id.bytes))) := by
  rw [answer, broadcastText, codecs.broadcast_print, norm_intentBroadcast]
  exact if_pos rfl

/-- **The driver's parties are understood.** The relayer accepts what the user posts exactly when
there is an ID, the amounts are in range and the deadline is ahead, and what it accepts is the
posted intent, its ID made UTF-8. What the solver answers to the broadcast of the accepted intent is
read as its bid for the ID of that intent. -/
theorem posted_answered (now : Int) (addr : Nat) (solver : Address)
    (intent : Intent) :
    (∀ accepted, submitIntent codecs.toIntake now addr (postReq codecs.hex intent) = .ok accepted ↔
      accepted = ⟨addr, valid intent⟩ ∧ intent.id.bytes ≠ [] ∧ 0 < intent.amountIn ∧
        0 ≤ intent.minAmountOut ∧ unixAfter intent.deadline now = true) ∧
    (answer codecs.hex codecs.decodeBroadcast solver (broadcastText codecs.hex (valid intent))).bind
      (readBid codecs.toIntake) = some (bidFor solver (valid intent).id) ∧
    (valid intent = intent ↔ Utf8 intent.id.bytes) := by
  refine ⟨fun _ => submitIntent_postReq_iff codecs, ?_, ?_⟩
  · rw [answer_broadcastText, Option.bind_some, readBid_bidRequest, valid, toValid_toValid,
      toValid_toValid]
  · rw [← toValid_eq_self_iff]
    constructor
    · intro h
      exact congrArg (fun i : Intent => i.id.bytes) h
    · intro h
      rw [valid, h]

end

end VynxRelayer.Simulate
