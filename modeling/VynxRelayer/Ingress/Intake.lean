import VynxRelayer.Core

/-!
# What comes in

The two messages that enter the relayer, and what it makes of them: `SubmitIntent` turns an HTTP
request into an intent or an error response, and `readPump` turns a solver's message into a bid or
drops it. Neither touches shared state before it pushes its result onto a channel, so both are
functions here; the pushes are steps of `VynxRelayer.Relayer.Pipeline`.

JSON decoding and go-ethereum's `common.HexToAddress`, which makes an address of any string and
never fails, are parameters (`Intake`). The decoders of numbers and hex strings are those of
`math/big` and `encoding/hex`, byte by byte.
-/

namespace VynxRelayer.Ingress

/-! ## Numbers and hex strings -/

/-- Decimal digits, most significant first, on top of the value read so far. -/
def digitsFrom (acc : Nat) : Bytes → Option Nat
  | [] => some acc
  | b :: rest => if 48 ≤ b ∧ b ≤ 57 then digitsFrom (acc * 10 + (b - 48).toNat) rest else none

/-- One or more decimal digits. -/
def digits : Bytes → Option Nat
  | [] => none
  | b :: rest => digitsFrom 0 (b :: rest)

/-- `(*big.Int).SetString(s, 10)`: an optional sign and decimal digits, with nothing around them. -/
def setString : Bytes → Option Int
  | 43 :: rest => (digits rest).map Int.ofNat
  | 45 :: rest => (digits rest).map fun n => -Int.ofNat n
  | s => (digits s).map Int.ofNat

/-- The value of a hex digit. -/
def hexDigit (b : UInt8) : Option UInt8 :=
  if 48 ≤ b ∧ b ≤ 57 then some (b - 48)
  else if 97 ≤ b ∧ b ≤ 102 then some (b - 87)
  else if 65 ≤ b ∧ b ≤ 70 then some (b - 55)
  else none

/-- The errors of `encoding/hex`. -/
inductive HexError where
  | invalidByte (b : UInt8)
  | length
  deriving DecidableEq

/-- `hex.DecodeString`: the bytes decoded before the first error, and that error. An odd length is
found last. -/
def hexDecode : Bytes → Bytes × Option HexError
  | [] => ([], none)
  | [p] => ([], some (if (hexDigit p).isSome then .length else .invalidByte p))
  | p :: q :: rest =>
    match hexDigit p, hexDigit q with
    | some a, some b =>
      let (decoded, err) := hexDecode rest
      ((a * 16 + b) :: decoded, err)
    | none, _ => ([], some (.invalidByte p))
    | some _, none => ([], some (.invalidByte q))

/-! ## The messages -/

/-- The JSON body of `POST /v1/intent`. -/
structure IntentRequest where
  id : Bytes
  sender : Bytes
  tokenIn : Bytes
  tokenOut : Bytes
  amountIn : Bytes
  minAmountOut : Bytes
  deadline : Int64
  nonce : UInt64
  signature : Bytes
  deriving DecidableEq

/-- The JSON body of a solver's message. -/
structure BidRequest where
  intentID : Bytes
  solver : Bytes
  amountOut : Bytes
  gasPrice : Bytes
  deriving DecidableEq

/-- The third-party code between the bytes that come in and what the relayer makes of them:
`encoding/json` on the two messages, and `common.HexToAddress`. -/
structure Intake where
  decodeIntent : Bytes → Except Bytes IntentRequest
  decodeBid : Bytes → Option BidRequest
  hexToAddress : Bytes → Address

/-- An HTTP request, as far as `SubmitIntent` reads it. -/
structure Request where
  method : Bytes
  body : Bytes
  deriving DecidableEq

/-- An HTTP response: an error with its status and text, or 202 with the intent's ID, queued. -/
inductive Response where
  | error (status : Nat) (text : Bytes)
  | accepted (intentID : Bytes)
  deriving DecidableEq

/-! ## Intents -/

/-- `strings.TrimPrefix(s, "0x")`. -/
def trim0x : Bytes → Bytes
  | 48 :: 120 :: rest => rest
  | s => s

/-- The optional signature: empty, or hex-encoded. -/
def decodeSignature (s : Bytes) : Option Bytes :=
  if s = [] then some []
  else
    match hexDecode (trim0x s) with
    | (sig, none) => some sig
    | (_, some _) => none

/-- `time.Unix(sec, 0).After(now)`, with `now` in nanoseconds of Unix time. A `time.Time` counts its
seconds from year 1, in an `int64` that wraps: a deadline too far ahead is in the past. -/
def unixAfter (sec : Int64) (now : Int) : Bool :=
  decide (now / 1000000000 + 62135596800 < (sec + 62135596800).toInt)

example : unixAfter Int64.maxValue 0 = false := by decide

/-- `SubmitIntent` up to its push: the intent it builds at `addr`, or the error it responds with.
`now` is in nanoseconds of Unix time. -/
def submitIntent (intake : Intake) (now : Int) (addr : Nat) (r : Request) :
    Except Response (Ref Intent) :=
  if r.method ≠ ascii "POST" then .error (.error 405 (ascii "method not allowed"))
  else
    match intake.decodeIntent r.body with
    | .error err => .error (.error 400 (ascii "invalid request body: " ++ err))
    | .ok req =>
      if req.id = [] then .error (.error 400 (ascii "id is required"))
      else
        match (setString req.amountIn).filter (0 < ·) with
        | none => .error (.error 400 (ascii "amount_in must be a positive decimal integer"))
        | some amountIn =>
          match (setString req.minAmountOut).filter (0 ≤ ·) with
          | none =>
            .error (.error 400 (ascii "min_amount_out must be a non-negative decimal integer"))
          | some minAmountOut =>
            if !unixAfter req.deadline now then
              .error (.error 400 (ascii "deadline must be in the future"))
            else
              match decodeSignature req.signature with
              | none => .error (.error 400 (ascii "signature must be hex-encoded"))
              | some signature =>
                .ok ⟨addr,
                  { id := ⟨req.id⟩
                    sender := intake.hexToAddress req.sender
                    tokenIn := intake.hexToAddress req.tokenIn
                    tokenOut := intake.hexToAddress req.tokenOut
                    amountIn
                    minAmountOut
                    deadline := req.deadline
                    nonce := req.nonce
                    signature }⟩

/-- The response when the intent channel is full. -/
def atCapacity : Response := .error 503 (ascii "auction engine at capacity, please retry")

/-- What an accepted request has: the intent is at its address, has an ID, and its amounts are in
range. -/
theorem submitIntent_ok {intake : Intake} {now : Int} {addr : Nat} {r : Request}
    {intent : Ref Intent} (h : submitIntent intake now addr r = .ok intent) :
    intent.addr = addr ∧ intent.val.id.bytes ≠ [] ∧ 0 < intent.val.amountIn ∧
      0 ≤ intent.val.minAmountOut := by
  unfold submitIntent at h
  split at h
  · cases h
  split at h
  · cases h
  split at h
  · cases h
  rename_i hid
  split at h
  · cases h
  rename_i hin
  split at h
  · cases h
  rename_i hout
  split at h
  · cases h
  split at h
  · cases h
  cases h
  exact ⟨rfl, hid, of_decide_eq_true (Option.filter_eq_some_iff.mp hin).2,
    of_decide_eq_true (Option.filter_eq_some_iff.mp hout).2⟩

/-- A refused request is answered with an error. -/
theorem submitIntent_error {intake : Intake} {now : Int} {addr : Nat} {r : Request}
    {response : Response} (h : submitIntent intake now addr r = .error response) (id : Bytes) :
    response ≠ .accepted id := by
  unfold submitIntent at h
  repeat' split at h
  all_goals
    cases h
    try exact Response.noConfusion

/-! ## Bids -/

/-- `readPump` on one message, up to its push: the bid it builds, or nothing. -/
def readBid (intake : Intake) (msg : Bytes) : Option Bid :=
  match intake.decodeBid msg with
  | none => none
  | some req =>
    match (setString req.amountOut).filter (0 < ·) with
    | none => none
    | some amountOut =>
      match (setString req.gasPrice).filter (0 < ·) with
      | none => none
      | some gasPrice =>
        some
          { intentID := ⟨req.intentID⟩
            solver := intake.hexToAddress req.solver
            amountOut := some amountOut
            gasPrice := some gasPrice }

end VynxRelayer.Ingress
