import VynxRelayer.Ingress.Hub
import VynxRelayer.Ingress.Parsing
import VynxRelayer.Lib.Json

/-!
# What goes over the wire

The JSON texts between the relayer and the two parties around it: the request a user posts, the
broadcast of an accepted intent, and the bid a solver answers with. The relayer writes the broadcast
(`broadcastText`) and reads the other two.

A text is read by whoever receives it with a JSON decoder of its own, and an address in it was
written and is read by go-ethereum's `common`. `Codecs` is what is assumed of those: on what
`encoding/json` printed, each decoder returns what was printed, with U+FFFD in the place of bytes
that are not UTF-8, and what is written for an address denotes it. So a solver learns the terms of
an intent from its broadcast (`broadcast_readable`).
-/

namespace VynxRelayer.Ingress

open Lib Lib.Json

/-! ## Strings of a message -/

/-- `hex.EncodeToString`. -/
def hexEncode (bytes : Bytes) : Bytes :=
  bytes.flatMap fun b => [hexLower (b / 16), hexLower (b % 16)]

theorem hexDigit_hexLower {n : UInt8} (h : n < 16) : hexDigit (hexLower n) = some n := by
  have hall : ∀ k < 16, hexDigit (hexLower (UInt8.ofNat k)) = some (UInt8.ofNat k) := by decide
  have := hall n.toNat (UInt8.lt_iff_toNat_lt.mp h)
  rwa [UInt8.ofNat_toNat] at this

theorem div_mul_add_mod (b : UInt8) : b / 16 * 16 + b % 16 = b := by
  have hb := b.toNat_lt
  refine UInt8.toNat_inj.mp ?_
  rw [UInt8.toNat_add, UInt8.toNat_mul, UInt8.toNat_div, UInt8.toNat_mod,
    show (16 : UInt8).toNat = 16 from rfl]
  omega

theorem div_lt_sixteen (b : UInt8) : b / 16 < 16 := by
  rw [UInt8.lt_iff_toNat_lt, UInt8.toNat_div]
  exact Nat.div_lt_of_lt_mul b.toNat_lt

theorem mod_lt_sixteen (b : UInt8) : b % 16 < 16 := by
  rw [UInt8.lt_iff_toNat_lt, UInt8.toNat_mod]
  exact Nat.mod_lt _ (by decide)

theorem hexOf_hexEncode (bytes : Bytes) : HexOf (hexEncode bytes) bytes := by
  induction bytes with
  | nil => exact .nil
  | cons b rest ih =>
    have hcons : HexOf _ ((b / 16 * 16 + b % 16) :: rest) :=
      .cons (hexDigit_hexLower (div_lt_sixteen b)) (hexDigit_hexLower (mod_lt_sixteen b)) ih
    rwa [div_mul_add_mod] at hcons

theorem lt_of_hexDigit {b : UInt8} (h : (hexDigit b).isSome) : b < 0x80 := by
  unfold hexDigit at h
  split_ifs at h with h₁ h₂ h₃
  · exact UInt8.lt_of_le_of_lt h₁.2 (by decide)
  · exact UInt8.lt_of_le_of_lt h₂.2 (by decide)
  · exact UInt8.lt_of_le_of_lt h₃.2 (by decide)
  · cases h

/-- A hex string behind an optional 0x or 0X is of ASCII. -/
theorem utf8_of_hexPart {s : Bytes} (h : ∀ b ∈ hexPart s, (hexDigit b).isSome) : Utf8 s := by
  refine utf8_of_ascii ?_
  unfold hexPart at h
  split at h
  · exact List.forall_mem_cons.mpr ⟨by decide, List.forall_mem_cons.mpr
      ⟨by decide, fun b hb => lt_of_hexDigit (h b hb)⟩⟩
  · exact List.forall_mem_cons.mpr ⟨by decide, List.forall_mem_cons.mpr
      ⟨by decide, fun b hb => lt_of_hexDigit (h b hb)⟩⟩
  · exact fun b hb => lt_of_hexDigit (h b hb)

theorem utf8_decimalInt (n : Int) : Utf8 (decimalInt n) := by
  have hdigits : ∀ b ∈ decimalNat n.natAbs, b < 0x80 := fun b hb =>
    UInt8.lt_of_le_of_lt (isDigit_decimalNat b hb).2 (by decide)
  refine utf8_of_ascii ?_
  unfold decimalInt
  split_ifs
  · exact List.forall_mem_cons.mpr ⟨by decide, hdigits⟩
  · exact hdigits

/-! ## The messages -/

/-- An `int64` as a JSON number. -/
def int64 : Codec Int64 :=
  Codec.int.convert
    (fun n => if -2 ^ 63 ≤ n ∧ n < 2 ^ 63 then some (Int64.ofInt n) else none)
    Int64.toInt id fun n => by
      rw [Codec.int_norm, if_pos ⟨n.le_toInt, n.toInt_lt⟩, Int64.ofInt_toInt, id_eq]

/-- A `uint64` as a JSON number. -/
def uint64 : Codec UInt64 :=
  Codec.int.convert
    (fun n => if 0 ≤ n ∧ n < 2 ^ 64 then some (UInt64.ofNat n.toNat) else none)
    (fun n => n.toNat) id fun n => by
      have hhigh : (n.toNat : Int) < 2 ^ 64 := mod_cast n.toNat_lt
      rw [Codec.int_norm, if_pos ⟨Int.natCast_nonneg _, hhigh⟩, Int.toNat_natCast,
        UInt64.ofNat_toNat, id_eq]

/-- The JSON shape of `intentRequest`. -/
def intentRequestJson : Codec IntentRequest :=
  (Codec.obj
    (.more (ascii "id") .str <| .more (ascii "sender") .str <| .more (ascii "token_in") .str <|
      .more (ascii "token_out") .str <| .more (ascii "amount_in") .str <|
      .more (ascii "min_amount_out") .str <| .more (ascii "deadline") int64 <|
      .more (ascii "nonce") uint64 <| .last (ascii "signature") .str)).convert
    (fun (id, sender, tokenIn, tokenOut, amountIn, minAmountOut, deadline, nonce, signature) =>
      some { id, sender, tokenIn, tokenOut, amountIn, minAmountOut, deadline, nonce, signature })
    (fun r => (r.id, r.sender, r.tokenIn, r.tokenOut, r.amountIn, r.minAmountOut, r.deadline,
      r.nonce, r.signature))
    (fun r =>
      { id := toValid r.id, sender := toValid r.sender, tokenIn := toValid r.tokenIn
        tokenOut := toValid r.tokenOut, amountIn := toValid r.amountIn
        minAmountOut := toValid r.minAmountOut, deadline := r.deadline, nonce := r.nonce
        signature := toValid r.signature })
    fun _ => rfl

/-- The JSON shape of `bidRequest`. -/
def bidRequestJson : Codec BidRequest :=
  (Codec.obj
    (.more (ascii "intent_id") .str <| .more (ascii "solver") .str <|
      .more (ascii "amount_out") .str <| .last (ascii "gas_price") .str)).convert
    (fun (intentID, solver, amountOut, gasPrice) => some { intentID, solver, amountOut, gasPrice })
    (fun r => (r.intentID, r.solver, r.amountOut, r.gasPrice))
    (fun r =>
      { intentID := toValid r.intentID, solver := toValid r.solver
        amountOut := toValid r.amountOut, gasPrice := toValid r.gasPrice })
    fun _ => rfl

/-- `intentBroadcast`, with the members of its `intentPayload`. -/
structure IntentBroadcast where
  type : Bytes
  id : Bytes
  tokenIn : Bytes
  tokenOut : Bytes
  amountIn : Bytes
  minAmountOut : Bytes
  deadline : Int64
  deriving DecidableEq

/-- The JSON shape of `intentBroadcast`. -/
def intentBroadcastJson : Codec IntentBroadcast :=
  (Codec.obj
    (.more (ascii "type") .str <| .last (ascii "intent") <| .obj <|
      .more (ascii "id") .str <| .more (ascii "token_in") .str <| .more (ascii "token_out") .str <|
      .more (ascii "amount_in") .str <| .more (ascii "min_amount_out") .str <|
      .last (ascii "deadline") int64)).convert
    (fun (type, id, tokenIn, tokenOut, amountIn, minAmountOut, deadline) =>
      some { type, id, tokenIn, tokenOut, amountIn, minAmountOut, deadline })
    (fun b => (b.type, b.id, b.tokenIn, b.tokenOut, b.amountIn, b.minAmountOut, b.deadline))
    (fun b =>
      { type := toValid b.type, id := toValid b.id, tokenIn := toValid b.tokenIn
        tokenOut := toValid b.tokenOut, amountIn := toValid b.amountIn
        minAmountOut := toValid b.minAmountOut, deadline := b.deadline })
    fun _ => rfl

/-- The third-party code on both ends of the wire: JSON decoders that read what was printed,
`common.HexToAddress`, and `common.Address.Hex`, which writes an address string for the address. -/
structure Codecs extends Intake where
  decodeBroadcast : Bytes → Option IntentBroadcast
  hex : Address → Bytes
  intent_print : ∀ r, decodeIntent (intentRequestJson.print r) = .ok (intentRequestJson.norm r)
  bid_print : ∀ r, decodeBid (bidRequestJson.print r) = some (bidRequestJson.norm r)
  broadcast_print : ∀ b,
    decodeBroadcast (intentBroadcastJson.print b) = some (intentBroadcastJson.norm b)
  reads : ReadsAddresses hexToAddress
  denotes_hex : ∀ a, Denotes (hex a) a

namespace Codecs

variable (codecs : Codecs)

/-- `HexToAddress` reads back what `Hex` wrote. -/
theorem hexToAddress_hex (a : Address) : codecs.hexToAddress (codecs.hex a) = a :=
  codecs.reads _ _ (codecs.denotes_hex a)

theorem utf8_hex (a : Address) : Utf8 (codecs.hex a) :=
  utf8_of_hexPart (codecs.denotes_hex a).isAddress.2

end Codecs

/-- Such code there is: the readers of the codecs, and hex strings in lower case. -/
def readers : Codecs where
  decodeIntent s :=
    match intentRequestJson.decode s with
    | some r => .ok r
    | none => .error (ascii "invalid character")
  decodeBid := bidRequestJson.decode
  decodeBroadcast := intentBroadcastJson.decode
  hexToAddress := Sample.hexToAddress
  hex a := 48 :: 120 :: hexEncode a.bytes
  intent_print r := by rw [intentRequestJson.decode_print]
  bid_print := bidRequestJson.decode_print
  broadcast_print := intentBroadcastJson.decode_print
  reads := Sample.readsAddresses
  denotes_hex a := hexOf_hexEncode a.bytes

/-! ## The broadcast -/

/-- The message of `BroadcastIntent`. -/
def intentBroadcast (hex : Address → Bytes) (intent : Intent) : IntentBroadcast where
  type := ascii "new_intent"
  id := intent.id.bytes
  tokenIn := hex intent.tokenIn
  tokenOut := hex intent.tokenOut
  amountIn := decimalInt intent.amountIn
  minAmountOut := decimalInt intent.minAmountOut
  deadline := intent.deadline

/-- The text `BroadcastIntent` puts into the queues. -/
def broadcastText (hex : Address → Bytes) (intent : Intent) : Bytes :=
  intentBroadcastJson.print (intentBroadcast hex intent)

/-- What a solver makes of a broadcast: it takes those of new intents, and reads their fields. -/
def understand (hexToAddress : Bytes → Address) (b : IntentBroadcast) : Option IntentPayload :=
  if b.type = ascii "new_intent" then
    match setString b.amountIn, setString b.minAmountOut with
    | some amountIn, some minAmountOut =>
      some
        { id := ⟨b.id⟩
          tokenIn := hexToAddress b.tokenIn
          tokenOut := hexToAddress b.tokenOut
          amountIn
          minAmountOut
          deadline := b.deadline }
    | _, _ => none
  else none

/-- The strings of a broadcast other than the ID are of ASCII. -/
theorem norm_intentBroadcast (codecs : Codecs) (intent : Intent) :
    intentBroadcastJson.norm (intentBroadcast codecs.hex intent) =
      { intentBroadcast codecs.hex intent with id := toValid intent.id.bytes } := by
  have htype : Utf8 (ascii "new_intent") := utf8_of_ascii (by decide +kernel)
  change IntentBroadcast.mk (toValid _) (toValid _) (toValid _) (toValid _) (toValid _) (toValid _) _
    = _
  simp only [intentBroadcast, htype.toValid, (codecs.utf8_hex _).toValid,
    (utf8_decimalInt _).toValid]

/-- **Solvers learn the terms.** What a solver reads in the broadcast of an intent is its payload:
both tokens, both amounts and the deadline as they are, and the ID with U+FFFD in the place of bytes
that are not UTF-8. So the payload is as it was exactly when the ID is UTF-8. -/
theorem broadcast_readable (codecs : Codecs) (intent : Intent) :
    ∃ read, (codecs.decodeBroadcast (broadcastText codecs.hex intent)).bind
        (understand codecs.hexToAddress) = some read ∧
      read = { payload intent with id := ⟨toValid intent.id.bytes⟩ } ∧
      (read = payload intent ↔ Utf8 intent.id.bytes) := by
  refine ⟨_, ?_, rfl, ?_⟩
  · rw [broadcastText, codecs.broadcast_print, norm_intentBroadcast]
    simp only [Option.bind_some, understand, intentBroadcast, if_true, setString_decimalInt,
      codecs.hexToAddress_hex, payload]
  · rw [← toValid_eq_self_iff]
    constructor
    · intro h
      exact congrArg (fun p : IntentPayload => p.id.bytes) h
    · intro h
      rw [h]
      rfl

end VynxRelayer.Ingress
