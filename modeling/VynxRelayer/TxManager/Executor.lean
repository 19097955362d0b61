import VynxRelayer.Core

/-!
# Settlement

`internal/txmanager`: the nonce counter in RAM (`NonceQueue`) and the execution of one voucher
(`execute`): encode the intent's ID, sign the claim, ask for a gas tip, reserve a nonce, call the
contract, and resynchronise the counter when the call was refused over its nonce.

What `execute` asks of the outside world is an argument (`Outside`): the key vault's signature, the
node's gas tip, the contract call's answer, the node's pending nonce. Any of them may fail with any
text. `Executed` lists the six ways an execution can go, and `execute_cases` says that there is no
other one. What is only logged is left out, and so is the signer closure of the transaction options,
which the contract binding calls and not this code.
-/

namespace VynxRelayer.TxManager

/-! ## The nonce counter -/

/-- The relayer's nonce counter: an `atomic.Uint64`. -/
structure NonceQueue where
  current : UInt64
  deriving DecidableEq

namespace NonceQueue

/-- Reserve the next nonce: `current.Add(1) - 1`. -/
def next (q : NonceQueue) : UInt64 × NonceQueue :=
  let sum := q.current + 1
  (sum - 1, { current := sum })

/-- Overwrite the counter with the node's pending nonce, when the node answers. -/
def resync (q : NonceQueue) (pendingNonceAt : Except Bytes UInt64) : NonceQueue :=
  match pendingNonceAt with
  | .ok n => { current := n }
  | .error _ => q

theorem next_eq (q : NonceQueue) : q.next = (q.current, { current := q.current + 1 }) := by
  simp only [next, Prod.mk.injEq, and_true]
  exact UInt64.add_sub_cancel q.current 1

end NonceQueue

/-! ## Errors of the contract call -/

/-- `strings.ToLower`, as far as ASCII text can be found in its result: the upper case letters, and
the two characters outside ASCII whose lower case is in it (the Kelvin sign and the dotted capital
I). What is left of other text stays outside ASCII, and so do its bytes here. -/
def toLower : Bytes → Bytes
  | [] => []
  | 0xe2 :: 0x84 :: 0xaa :: rest => 107 :: toLower rest
  | 0xc4 :: 0xb0 :: rest => 105 :: toLower rest
  | b :: rest => (if 65 ≤ b ∧ b ≤ 90 then b + 32 else b) :: toLower rest

/-- `strings.Contains`. -/
def contains (text pattern : Bytes) : Bool :=
  pattern.isPrefixOf text ||
    match text with
    | [] => false
    | _ :: rest => contains rest pattern

/-- Was the transaction rejected for a stale or duplicate nonce? -/
def isNonceError (text : Bytes) : Bool :=
  let msg := toLower text
  contains msg (ascii "nonce too low") ||
    contains msg (ascii "replacement transaction underpriced") ||
    contains msg (ascii "already known")

/-! ## The claim -/

/-- `copy` into a zeroed `[n]byte`: the first `n` bytes, and zeros behind a shorter source. -/
def copyBytes (n : Nat) (src : Bytes) : FixedBytes n where
  bytes := (src ++ List.replicate n 0).take n
  size := by simp

/-- The digest `claimFunds` verifies, under a hash function. -/
def claimDigest (keccak256 : Bytes → FixedBytes 32) (intentID : FixedBytes 32) (solver : Address) :
    FixedBytes 32 :=
  let messageHash := keccak256 (intentID.bytes ++ solver.bytes)
  keccak256 (0x19 :: ascii "Ethereum Signed Message:\n32" ++ messageHash.bytes)

/-- The recovery byte of a signature as the contract expects it, in {27, 28}. -/
def normalizeV (sig : FixedBytes 65) : FixedBytes 65 where
  bytes := sig.bytes.modify 64 fun v => if v < 27 then v + 27 else v
  size := by rw [List.length_modify]; exact sig.size

/-- One call of the contract's `ClaimFunds`, with the transaction options that matter to it. -/
structure ClaimCall where
  sender : Address
  nonce : UInt64
  gasTipCap : Int
  intentId : FixedBytes 32
  solver : Address
  relayerSignature : FixedBytes 65
  deriving DecidableEq

/-- What the outside world answers to one execution. An error is its text. -/
structure Outside where
  sign : FixedBytes 32 → Except Bytes (FixedBytes 65)
  suggestGasTipCap : Except Bytes Int
  claimFunds : ClaimCall → Except Bytes Unit
  pendingNonceAt : Except Bytes UInt64

/-- How a contract call ended: the node took the transaction, or it did not, and then the counter
was resynchronised or not. -/
inductive Ending where
  | taken
  | failed (text : Bytes) (resync : Option (Except Bytes UInt64))
  deriving DecidableEq

/-- One contract call and how it ended. -/
structure Attempt where
  call : ClaimCall
  ending : Ending
  deriving DecidableEq

/-- The errors of `execute`. -/
inductive ExecuteError where
  | sign (id : IntentID) (cause : Bytes)
  | gasTip (id : IntentID) (cause : Bytes)
  | claim (id : IntentID) (cause : Bytes)
  deriving DecidableEq

def ExecuteError.text : ExecuteError → Bytes
  | .sign id cause =>
    ascii "failed to sign claim digest for intent " ++ id.bytes ++ ascii ": " ++ cause
  | .gasTip id cause =>
    ascii "failed to get gas tip cap for intent " ++ id.bytes ++ ascii ": " ++ cause
  | .claim id cause => ascii "failed to claim funds for intent " ++ id.bytes ++ ascii ": " ++ cause

/-- What does not change from one voucher to the next: the hash function and the vault's address. -/
structure Setup where
  keccak256 : Bytes → FixedBytes 32
  vaultAddr : Address

/-- The bytes32 escrow identifier of an intent. -/
def intentIDBytes (id : IntentID) : FixedBytes 32 := copyBytes 32 id.bytes

/-- What an execution leaves behind: the counter, the contract call if one was made, and the
error. -/
structure Report where
  queue : NonceQueue
  attempt : Option Attempt
  err : Option ExecuteError

/-- Settle one voucher. -/
def execute (env : Setup) (out : Outside) (q : NonceQueue) (v : Voucher) : Report :=
  let escrow := intentIDBytes v.intent.val.id
  let digest := claimDigest env.keccak256 escrow v.winningSolver
  match out.sign digest with
  | .error cause => ⟨q, none, some (.sign v.intentID cause)⟩
  | .ok raw =>
    let sig := normalizeV raw
    match out.suggestGasTipCap with
    | .error cause => ⟨q, none, some (.gasTip v.intentID cause)⟩
    | .ok tip =>
      let (nonce, q) := q.next
      let call : ClaimCall :=
        { sender := env.vaultAddr, nonce, gasTipCap := tip, intentId := escrow,
          solver := v.winningSolver, relayerSignature := sig }
      match out.claimFunds call with
      | .ok () => ⟨q, some ⟨call, .taken⟩, none⟩
      | .error text =>
        if isNonceError text then
          ⟨q.resync out.pendingNonceAt, some ⟨call, .failed text (some out.pendingNonceAt)⟩,
            some (.claim v.intentID text)⟩
        else ⟨q, some ⟨call, .failed text none⟩, some (.claim v.intentID text)⟩

/-- The call an execution makes once it has a signature and a tip. -/
def claimCall (env : Setup) (q : NonceQueue) (v : Voucher) (raw : FixedBytes 65) (tip : Int) :
    ClaimCall where
  sender := env.vaultAddr
  nonce := q.current
  gasTipCap := tip
  intentId := intentIDBytes v.intent.val.id
  solver := v.winningSolver
  relayerSignature := normalizeV raw

/-- **What one execution can do.** -/
inductive Executed (env : Setup) (out : Outside) (q : NonceQueue) (v : Voucher) : Report → Prop
  | unsigned {cause}
      (sign : out.sign (claimDigest env.keccak256 (intentIDBytes v.intent.val.id)
        v.winningSolver) = .error cause) :
      Executed env out q v ⟨q, none, some (.sign v.intentID cause)⟩
  | untipped {cause} (tip : out.suggestGasTipCap = .error cause) :
      Executed env out q v ⟨q, none, some (.gasTip v.intentID cause)⟩
  | settled {raw tip} (call : out.claimFunds (claimCall env q v raw tip) = .ok ()) :
      Executed env out q v ⟨⟨q.current + 1⟩, some ⟨claimCall env q v raw tip, .taken⟩, none⟩
  | resynced {raw tip text p} (call : out.claimFunds (claimCall env q v raw tip) = .error text)
      (nonce : isNonceError text = true) (node : out.pendingNonceAt = .ok p) :
      Executed env out q v ⟨⟨p⟩, some ⟨claimCall env q v raw tip, .failed text (some (.ok p))⟩,
        some (.claim v.intentID text)⟩
  | unsynced {raw tip text cause} (call : out.claimFunds (claimCall env q v raw tip) = .error text)
      (nonce : isNonceError text = true) (node : out.pendingNonceAt = .error cause) :
      Executed env out q v ⟨⟨q.current + 1⟩,
        some ⟨claimCall env q v raw tip, .failed text (some (.error cause))⟩,
        some (.claim v.intentID text)⟩
  | failed {raw tip text} (call : out.claimFunds (claimCall env q v raw tip) = .error text)
      (other : isNonceError text = false) :
      Executed env out q v ⟨⟨q.current + 1⟩, some ⟨claimCall env q v raw tip, .failed text none⟩,
        some (.claim v.intentID text)⟩

/-- **Every execution is one of `Executed`'s.** -/
theorem execute_cases (env : Setup) (out : Outside) (q : NonceQueue) (v : Voucher) :
    Executed env out q v (execute env out q v) := by
  cases hsign : out.sign (claimDigest env.keccak256 (intentIDBytes v.intent.val.id)
      v.winningSolver) with
  | error cause =>
    simp only [execute, hsign]
    exact .unsigned hsign
  | ok raw =>
    cases htip : out.suggestGasTipCap with
    | error cause =>
      simp only [execute, hsign, htip]
      exact .untipped htip
    | ok tip =>
      cases hcall : out.claimFunds (claimCall env q v raw tip) with
      | ok _ =>
        have h := hcall
        simp only [claimCall] at h
        simp only [execute, hsign, htip, NonceQueue.next_eq, h]
        exact .settled hcall
      | error text =>
        have h := hcall
        simp only [claimCall] at h
        simp only [execute, hsign, htip, NonceQueue.next_eq, h]
        cases hnonce : isNonceError text with
        | false => exact .failed hcall hnonce
        | true =>
          cases hnode : out.pendingNonceAt with
          | ok p => exact .resynced hcall hnonce hnode
          | error cause => exact .unsynced hcall hnonce hnode

/-- The digest that is signed for a voucher. -/
def voucherDigest (env : Setup) (v : Voucher) : FixedBytes 32 :=
  claimDigest env.keccak256 (intentIDBytes v.intent.val.id) v.winningSolver

section

variable {env : Setup} {out : Outside} {q : NonceQueue} {v : Voucher}

theorem execute_of_unsigned {cause : Bytes}
    (unsigned : out.sign (voucherDigest env v) = .error cause) :
    execute env out q v = ⟨q, none, some (.sign v.intentID cause)⟩ := by
  rw [voucherDigest] at unsigned
  simp only [execute, unsigned]

theorem attempt_of_untipped {cause : Bytes} (untipped : out.suggestGasTipCap = .error cause) :
    (execute env out q v).attempt = none := by
  simp only [execute, untipped]
  split <;> rfl

/-- With a signature and a tip, a call is made at the counter. -/
theorem attempt_of_signed {raw : FixedBytes 65} {tip : Int}
    (signed : out.sign (voucherDigest env v) = .ok raw) (tipped : out.suggestGasTipCap = .ok tip) :
    (execute env out q v).attempt.map Attempt.call = some (claimCall env q v raw tip) := by
  rw [voucherDigest] at signed
  simp only [execute, signed, tipped, NonceQueue.next_eq]
  split
  · rfl
  · split <;> rfl

/-- **When a call is made**: exactly when there are a signature and a tip. -/
theorem attempt_iff {call : ClaimCall} :
    (execute env out q v).attempt.map Attempt.call = some call ↔
      ∃ raw tip, out.sign (voucherDigest env v) = .ok raw ∧ out.suggestGasTipCap = .ok tip ∧
        call = claimCall env q v raw tip := by
  constructor
  · intro hcall
    cases hsign : out.sign (voucherDigest env v) with
    | error cause =>
      rw [execute_of_unsigned hsign] at hcall
      cases hcall
    | ok raw =>
      cases htip : out.suggestGasTipCap with
      | error cause =>
        rw [attempt_of_untipped htip] at hcall
        cases hcall
      | ok tip =>
        rw [attempt_of_signed hsign htip] at hcall
        exact ⟨raw, tip, rfl, rfl, (Option.some.inj hcall).symm⟩
  · rintro ⟨raw, tip, hsign, htip, rfl⟩
    exact attempt_of_signed hsign htip

/-- A contract call names the voucher's intent and its winner, with the signature of its digest. -/
theorem execute_attempt {a : Attempt} (made : (execute env out q v).attempt = some a) :
    a.call.intentId = intentIDBytes v.intent.val.id ∧ a.call.solver = v.winningSolver ∧
      ∃ raw, out.sign (voucherDigest env v) = .ok raw ∧
        a.call.relayerSignature = normalizeV raw := by
  have hcall : (execute env out q v).attempt.map Attempt.call = some a.call := by
    rw [made, Option.map_some]
  obtain ⟨raw, tip, hsign, -, heq⟩ := attempt_iff.mp hcall
  rw [heq]
  exact ⟨rfl, rfl, raw, hsign, rfl⟩

end

namespace Sample

/-- A relayer with a constant hash function. -/
def setup : Setup where
  keccak256 := fun _ => ⟨List.replicate 32 0, List.length_replicate⟩
  vaultAddr := VynxRelayer.Sample.address 9

/-- What the key vault answers. -/
def rawSignature : FixedBytes 65 := ⟨List.replicate 65 0, List.length_replicate⟩

/-- Everything succeeds but the contract call, which answers `claim`; the node answers
`pending`. -/
def outside (claim : Except Bytes Unit) (pending : Except Bytes UInt64) : Outside where
  sign := fun _ => .ok rawSignature
  suggestGasTipCap := .ok 1
  claimFunds := fun _ => claim
  pendingNonceAt := pending

end Sample

end VynxRelayer.TxManager
