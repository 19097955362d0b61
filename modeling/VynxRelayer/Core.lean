import Mathlib.Data.List.MinMax
import Mathlib.Data.Prod.Lex
import VynxRelayer.Lib.BigEndian

/-!
# The domain types

The plain data that the relayer's slices share (`internal/core`): the intent a user submits, the
bid a solver offers for it, and the voucher an auction hands to settlement.

A Go `string` is a sequence of bytes, and `[n]byte` is one of fixed length, so both are byte lists
here, the second with its length as a field. A `*big.Int` is an `Int`, or an `Option Int` where the
code tests it for `nil`. A `*core.Intent` is followed through four goroutines by its address, so it
is a `Ref`: the address and the object it points to, which nothing changes after it is built.

The time stamps `ReceivedAt`, `CreatedAt` and `startedAt`, and `Bid.Signature`, are written or
declared and read by nothing; they are left out.
-/

namespace VynxRelayer

/-- The bytes of a Go `string` or `[]byte`. -/
abbrev Bytes := List UInt8

/-- The bytes of a text. -/
def ascii (s : String) : Bytes := s.toList.map fun c => UInt8.ofNat c.toNat

/-- Go's `[n]byte`. -/
structure FixedBytes (n : Nat) where
  bytes : Bytes
  size : bytes.length = n
  deriving DecidableEq

theorem FixedBytes.eq_of_bytes {n : Nat} {a b : FixedBytes n} (same : a.bytes = b.bytes) : a = b := by
  cases a
  cases b
  cases same
  rfl

/-- A number as a 32-byte word. -/
def word (n : Nat) : FixedBytes 32 := ⟨Lib.bigEndian 32 n, Lib.length_bigEndian 32 n⟩

/-- `common.Address`. -/
abbrev Address := FixedBytes 20

/-- A pointer to an object that is never written again: its address and its contents. -/
structure Ref (α : Type) where
  addr : Nat
  val : α
  deriving DecidableEq

/-- The identifier of an intent, a named string type. -/
structure IntentID where
  bytes : Bytes
  deriving DecidableEq

/-- A user's swap intent. `deadline` is in Unix seconds. -/
structure Intent where
  id : IntentID
  sender : Address
  tokenIn : Address
  tokenOut : Address
  amountIn : Int
  minAmountOut : Int
  deadline : Int64
  nonce : UInt64
  signature : Bytes
  deriving DecidableEq

/-- A solver's offer for one intent. Both amounts are pointers in the source, and `none` is
`nil`. -/
structure Bid where
  intentID : IntentID
  solver : Address
  amountOut : Option Int
  gasPrice : Option Int
  deriving DecidableEq

/-- The settlement proof an auction emits for its winner. -/
structure Voucher where
  intentID : IntentID
  winningSolver : Address
  amountOut : Option Int
  intent : Ref Intent
  winningBid : Bid
  deriving DecidableEq

/-- An amount out first, a gas price to break ties. -/
def Rank : Type := Int ×ₗ Int

instance : LinearOrder Rank := inferInstanceAs (LinearOrder (Int ×ₗ Int))

namespace Bid

/-- Both amounts are there to be compared. -/
def Priced (b : Bid) : Prop := b.amountOut.isSome ∧ b.gasPrice.isSome

instance (b : Bid) : Decidable b.Priced := inferInstanceAs (Decidable (_ ∧ _))

/-- What an auction compares. -/
def rank (b : Bid) : Rank := toLex (b.amountOut.getD 0, b.gasPrice.getD 0)

theorem rank_lt_rank {b w : Bid} :
    b.rank < w.rank ↔ b.amountOut.getD 0 < w.amountOut.getD 0 ∨
      b.amountOut.getD 0 = w.amountOut.getD 0 ∧ b.gasPrice.getD 0 < w.gasPrice.getD 0 :=
  Prod.Lex.toLex_lt_toLex

/-- The bid offers at least `floor`. -/
def meets (b : Bid) (floor : Int) : Bool := b.amountOut.any fun n => decide (floor ≤ n)

/-- What ranks at least as high as a bid that meets a floor meets it too. -/
theorem meets_of_rank_le {b w : Bid} {floor : Int} (le : b.rank ≤ w.rank) (priced : w.Priced)
    (met : b.meets floor = true) : w.meets floor = true := by
  have hle : b.amountOut.getD 0 ≤ w.amountOut.getD 0 := Prod.Lex.monotone_fst b.rank w.rank le
  obtain ⟨m, hm⟩ := Option.isSome_iff_exists.mp priced.1
  unfold meets at met ⊢
  cases hb : b.amountOut with
  | none => rw [hb] at met; cases met
  | some n =>
    simp only [hb, hm, Option.any_some, decide_eq_true_eq, Option.getD_some] at met hle ⊢
    exact met.trans hle

end Bid

/-- The voucher pays at least what its intent asks for. -/
def Voucher.meetsFloor (v : Voucher) : Bool :=
  v.amountOut.any fun n => decide (v.intent.val.minAmountOut ≤ n)

/-! ## Outlines

Of an intent, an auction and a settlement use the ID. The outline of an intent has that ID and
nothing else of it. -/

/-- The ID of an intent, with every other field blank. -/
def Intent.outline (intent : Intent) : Intent where
  id := intent.id
  sender := ⟨List.replicate 20 0, List.length_replicate⟩
  tokenIn := ⟨List.replicate 20 0, List.length_replicate⟩
  tokenOut := ⟨List.replicate 20 0, List.length_replicate⟩
  amountIn := 0
  minAmountOut := 0
  deadline := 0
  nonce := 0
  signature := []

theorem Intent.outline_eq_iff {i j : Intent} : i.outline = j.outline ↔ i.id = j.id := by
  constructor
  · intro h
    have hid : i.outline.id = j.outline.id := congrArg Intent.id h
    exact hid
  · intro h
    simp only [outline, h]

/-- A pointer to an intent, with the intent outlined. -/
def outlined (intent : Ref Intent) : Ref Intent := ⟨intent.addr, intent.val.outline⟩

@[simp] theorem outlined_addr (intent : Ref Intent) : (outlined intent).addr = intent.addr := rfl

@[simp] theorem outlined_id (intent : Ref Intent) :
    (outlined intent).val.id = intent.val.id := rfl

theorem outlined_eq_iff {i j : Ref Intent} :
    outlined i = outlined j ↔ i.addr = j.addr ∧ i.val.id = j.val.id := by
  rw [← Intent.outline_eq_iff]
  exact ⟨fun h => Ref.mk.inj h, fun h => congrArg₂ Ref.mk h.1 h.2⟩

/-- A voucher, with its intent outlined. -/
def Voucher.outline (v : Voucher) : Voucher := { v with intent := outlined v.intent }

/-! Data to evaluate the model on: one intent with a floor of 5, and two bids for it. -/

namespace Sample

def address (n : UInt8) : Address := ⟨List.replicate 20 n, List.length_replicate⟩

/-- The address of the key that the source gives as an example. -/
def account : Address :=
  ⟨[0xf3, 0x9f, 0xd6, 0xe5, 0x1a, 0xad, 0x88, 0xf6, 0xf4, 0xce, 0x6a, 0xb8, 0x82, 0x72, 0x79, 0xcf,
    0xff, 0xb9, 0x22, 0x66], rfl⟩

def intent : Ref Intent where
  addr := 0
  val :=
    { id := ⟨[1]⟩, sender := address 0, tokenIn := address 1, tokenOut := address 2, amountIn := 10,
      minAmountOut := 5, deadline := 0, nonce := 0, signature := [] }

def low : Bid := ⟨⟨[1]⟩, address 3, some 6, some 1⟩

def high : Bid := ⟨⟨[1]⟩, address 4, some 9, some 1⟩

/-- The voucher of an auction that `high` won. -/
def voucher : Voucher := ⟨⟨[1]⟩, address 4, some 9, intent, high⟩

end Sample

end VynxRelayer
