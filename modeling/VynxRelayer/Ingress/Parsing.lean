import VynxRelayer.Ingress.Intake
import VynxRelayer.Lib.Json

/-!
# What the decoders accept

The byte strings that a decimal number, a hex string, an address and a signature are written as, and
what each of them denotes. The decoders of `VynxRelayer.Ingress.Intake` are measured against these:
`setString` reads exactly the decimal numbers (`setString_eq_some_iff`), and `hexDecode` and
`decodeSignature` read exactly the hex strings. Of `common.HexToAddress` all that is relied on is
that it gives the address that an address string denotes (`ReadsAddresses`); it gives one to every
other string too.
-/

namespace VynxRelayer.Ingress

open Lib.Json

/-! ## Decimal numbers -/

/-- `[0-9]+`, and the number it denotes. -/
def Numeral (s : Bytes) (n : Nat) : Prop :=
  s ≠ [] ∧ (∀ b ∈ s, 48 ≤ b ∧ b ≤ 57) ∧ Nat.ofDigits 10 (s.reverse.map fun b => b.toNat - 48) = n

/-- `[+-]?[0-9]+`, and the number it denotes. -/
def Decimal (s : Bytes) (n : Int) : Prop :=
  ∃ numeral m, Numeral numeral m ∧
    ((s = numeral ∨ s = 43 :: numeral) ∧ n = m ∨ s = 45 :: numeral ∧ n = -m)

theorem digitsFrom_eq_some_iff {acc : Nat} {s : Bytes} {n : Nat} :
    digitsFrom acc s = some n ↔ (∀ b ∈ s, 48 ≤ b ∧ b ≤ 57) ∧
      acc * 10 ^ s.length + Nat.ofDigits 10 (s.reverse.map fun b => b.toNat - 48) = n := by
  induction s generalizing acc with
  | nil => simp [digitsFrom]
  | cons b rest ih =>
    unfold digitsFrom
    by_cases hb : 48 ≤ b ∧ b ≤ 57
    · have hdigit : (b - 48).toNat = b.toNat - 48 := UInt8.toNat_sub_of_le _ _ hb.1
      rw [if_pos hb, ih, hdigit]
      simp only [List.forall_mem_cons, hb, and_self, true_and, List.reverse_cons, List.map_append,
        List.map_cons, List.map_nil, Nat.ofDigits_append, List.length_map, List.length_reverse,
        Nat.ofDigits_singleton, List.length_cons]
      refine and_congr_right fun _ => ?_
      rw [Nat.pow_succ]
      constructor <;> (intro h; rw [← h]; ring)
    · rw [if_neg hb]
      simp only [reduceCtorEq, List.forall_mem_cons, hb, false_and]

theorem le_of_digitsFrom {acc : Nat} {s : Bytes} {n : Nat} (h : digitsFrom acc s = some n) :
    acc ≤ n := by
  have hvalue := (digitsFrom_eq_some_iff.mp h).2
  have hle : acc ≤ acc * 10 ^ s.length := Nat.le_mul_of_pos_right acc (Nat.pow_pos (by decide))
  omega

theorem digits_eq_some_iff {s : Bytes} {n : Nat} : digits s = some n ↔ Numeral s n := by
  cases s with
  | nil => simp [digits, Numeral]
  | cons b rest => rw [digits, digitsFrom_eq_some_iff]; simp [Numeral]

theorem Numeral.le_head {b : UInt8} {rest : Bytes} {n : Nat} (h : Numeral (b :: rest) n) : 48 ≤ b :=
  (h.2.1 b List.mem_cons_self).1

/-- **`SetString` reads the decimal numbers and nothing else.** -/
theorem setString_eq_some_iff {s : Bytes} {n : Int} : setString s = some n ↔ Decimal s n := by
  unfold setString
  split
  · rename_i rest
    simp only [Option.map_eq_some_iff, digits_eq_some_iff]
    constructor
    · rintro ⟨m, hm, rfl⟩
      exact ⟨rest, m, hm, .inl ⟨.inr rfl, rfl⟩⟩
    · rintro ⟨numeral, m, hm, ⟨rfl | hs, rfl⟩ | ⟨hs, rfl⟩⟩
      · exact absurd hm.le_head (by decide)
      · cases hs
        exact ⟨m, hm, rfl⟩
      · cases hs
  · rename_i rest
    simp only [Option.map_eq_some_iff, digits_eq_some_iff]
    constructor
    · rintro ⟨m, hm, rfl⟩
      exact ⟨rest, m, hm, .inr ⟨rfl, rfl⟩⟩
    · rintro ⟨numeral, m, hm, ⟨rfl | hs, rfl⟩ | ⟨hs, rfl⟩⟩
      · exact absurd hm.le_head (by decide)
      · cases hs
      · cases hs
        exact ⟨m, hm, rfl⟩
  · rename_i hplus hminus
    simp only [Option.map_eq_some_iff, digits_eq_some_iff]
    constructor
    · rintro ⟨m, hm, rfl⟩
      exact ⟨_, m, hm, .inl ⟨.inl rfl, rfl⟩⟩
    · rintro ⟨numeral, m, hm, ⟨rfl | hs, rfl⟩ | ⟨hs, rfl⟩⟩
      · exact ⟨m, hm, rfl⟩
      · exact absurd hs (hplus numeral)
      · exact absurd hs (hminus numeral)

/-- `SetString` reads back what `String` wrote. -/
theorem setString_decimalInt (n : Int) : setString (decimalInt n) = some n := by
  have hnumeral : Numeral (decimalNat n.natAbs) n.natAbs :=
    ⟨decimalNat_ne_nil _, isDigit_decimalNat, valueOfDigits_decimalNat _⟩
  rw [setString_eq_some_iff]
  refine ⟨_, _, hnumeral, ?_⟩
  unfold decimalInt
  split_ifs with hneg
  · exact .inr ⟨rfl, by omega⟩
  · exact .inl ⟨.inl rfl, by omega⟩

/-! ## Hex strings -/

/-- Pairs of hex digits, and the bytes they denote. -/
inductive HexOf : Bytes → Bytes → Prop
  | nil : HexOf [] []
  | cons {p q a b rest out} (high : hexDigit p = some a) (low : hexDigit q = some b)
      (more : HexOf rest out) : HexOf (p :: q :: rest) ((a * 16 + b) :: out)

theorem HexOf.length {s out : Bytes} (h : HexOf s out) : s.length = 2 * out.length := by
  induction h with
  | nil => rfl
  | cons _ _ _ ih => simp only [List.length_cons, ih]; omega

theorem HexOf.isSome {s out : Bytes} (h : HexOf s out) : ∀ b ∈ s, (hexDigit b).isSome := by
  induction h with
  | nil => intro b hb; cases hb
  | cons high low _ ih =>
    simp only [List.forall_mem_cons, high, low, Option.isSome_some, true_and]
    exact ih

/-- What is left of a string behind its pairs of hex digits, and what is wrong with it. -/
inductive Unread : Bytes → Option HexError → Prop
  | done : Unread [] none
  | odd {p} (hex : (hexDigit p).isSome) : Unread [p] (some .length)
  | first {p rest} (bad : hexDigit p = none) : Unread (p :: rest) (some (.invalidByte p))
  | second {p q rest} (hex : (hexDigit p).isSome) (bad : hexDigit q = none) :
      Unread (p :: q :: rest) (some (.invalidByte q))

theorem hexDecode_append {digits out rest : Bytes} (h : HexOf digits out) :
    hexDecode (digits ++ rest) = (out ++ (hexDecode rest).1, (hexDecode rest).2) := by
  induction h with
  | nil => rfl
  | cons high low _ ih => simp only [List.cons_append, hexDecode, high, low, ih]

theorem hexDecode_unread {rest : Bytes} {err : Option HexError} (h : Unread rest err) :
    hexDecode rest = ([], err) := by
  cases h with
  | done => rfl
  | odd hex => rw [hexDecode, if_pos hex]
  | @first p rest bad =>
    cases rest with
    | nil => rw [hexDecode, bad]; rfl
    | cons q rest => rw [hexDecode, bad]
  | second hex bad =>
    obtain ⟨a, ha⟩ := Option.isSome_iff_exists.mp hex
    rw [hexDecode, ha, bad]

/-- Every string is pairs of hex digits, and something that does not begin with another pair. -/
theorem exists_hexOf_append (s : Bytes) :
    ∃ digits out rest err, s = digits ++ rest ∧ HexOf digits out ∧ Unread rest err := by
  induction s using hexDecode.induct with
  | case1 => exact ⟨[], [], [], none, rfl, .nil, .done⟩
  | case2 p =>
    cases hp : hexDigit p with
    | none => exact ⟨[], [], [p], _, rfl, .nil, .first hp⟩
    | some a => exact ⟨[], [], [p], _, rfl, .nil, .odd (by rw [hp]; rfl)⟩
  | case3 p q rest a b hb ha decoded err hrest ih =>
    obtain ⟨digits, out, rest', err', rfl, hdigits, hunread⟩ := ih
    exact ⟨p :: q :: digits, _, rest', err', rfl, .cons ha hb hdigits, hunread⟩
  | case4 p q rest hbad => exact ⟨[], [], _, _, rfl, .nil, .first hbad⟩
  | case5 p q rest a hbad ha => exact ⟨[], [], _, _, rfl, .nil, .second (by rw [ha]; rfl) hbad⟩

/-- **`DecodeString` decodes the pairs of hex digits, and reports what is wrong with the rest.** -/
theorem hexDecode_eq_iff {s out : Bytes} {err : Option HexError} :
    hexDecode s = (out, err) ↔ ∃ digits rest, s = digits ++ rest ∧ HexOf digits out ∧
      Unread rest err := by
  constructor
  · intro h
    obtain ⟨digits, out', rest, err', rfl, hdigits, hunread⟩ := exists_hexOf_append s
    rw [hexDecode_append hdigits, hexDecode_unread hunread, List.append_nil] at h
    cases h
    exact ⟨digits, rest, rfl, hdigits, hunread⟩
  · rintro ⟨digits, rest, rfl, hdigits, hunread⟩
    rw [hexDecode_append hdigits, hexDecode_unread hunread, List.append_nil]

/-- It reads the hex strings and nothing else. -/
theorem hexDecode_eq_ok_iff {s out : Bytes} : hexDecode s = (out, none) ↔ HexOf s out := by
  rw [hexDecode_eq_iff]
  constructor
  · rintro ⟨digits, rest, rfl, hdigits, hunread⟩
    cases hunread
    rw [List.append_nil]
    exact hdigits
  · intro h
    exact ⟨s, [], (List.append_nil s).symm, h, .done⟩

/-- Hex digits in pairs denote bytes. -/
theorem exists_hexOf {n : Nat} {s : Bytes} (even : s.length = 2 * n)
    (hex : ∀ b ∈ s, (hexDigit b).isSome) : ∃ out, HexOf s out := by
  induction n generalizing s with
  | zero =>
    obtain rfl := List.eq_nil_of_length_eq_zero even
    exact ⟨[], .nil⟩
  | succ n ih =>
    match s, even, hex with
    | p :: q :: rest, even, hex =>
      simp only [List.forall_mem_cons] at hex
      obtain ⟨hp, hq, hrest⟩ := hex
      obtain ⟨a, ha⟩ := Option.isSome_iff_exists.mp hp
      obtain ⟨b, hb⟩ := Option.isSome_iff_exists.mp hq
      obtain ⟨out, hout⟩ := ih (by simp only [List.length_cons] at even; omega) hrest
      exact ⟨_, .cons ha hb hout⟩

/-- A signature is a hex string behind at most one 0x. -/
theorem decodeSignature_eq_some_iff {s sig : Bytes} :
    decodeSignature s = some sig ↔ HexOf (trim0x s) sig := by
  unfold decodeSignature
  split
  · rename_i hnil
    rw [hnil, ← hexDecode_eq_ok_iff]
    simp [trim0x, hexDecode]
  · rw [← hexDecode_eq_ok_iff]
    split
    · rename_i out h
      simp [h]
    · rename_i out h
      simp [h]

/-! ## Addresses -/

/-- What stands behind an optional 0x or 0X. -/
def hexPart : Bytes → Bytes
  | 48 :: 120 :: rest => rest
  | 48 :: 88 :: rest => rest
  | s => s

/-- An optional 0x or 0X and exactly forty hex digits. -/
def IsAddress (s : Bytes) : Prop :=
  (hexPart s).length = 40 ∧ ∀ b ∈ hexPart s, (hexDigit b).isSome

instance (s : Bytes) : Decidable (IsAddress s) := inferInstanceAs (Decidable (_ ∧ _))

/-- The address a string denotes: the twenty bytes of its hex digits. -/
def Denotes (s : Bytes) (a : Address) : Prop := HexOf (hexPart s) a.bytes

theorem Denotes.isAddress {s : Bytes} {a : Address} (h : Denotes s a) : IsAddress s := by
  refine ⟨?_, HexOf.isSome h⟩
  rw [HexOf.length h, a.size]

/-- An address string denotes an address. -/
theorem IsAddress.exists_denotes {s : Bytes} (h : IsAddress s) : ∃ a, Denotes s a := by
  obtain ⟨out, hout⟩ := exists_hexOf (n := 20) h.1 h.2
  have hlength : out.length = 20 := by
    have := hout.length
    rw [h.1] at this
    omega
  exact ⟨⟨out, hlength⟩, hout⟩

/-- What is relied on of `common.HexToAddress`: a string that denotes an address is read as that
address. -/
def ReadsAddresses (hexToAddress : Bytes → Address) : Prop :=
  ∀ s a, Denotes s a → hexToAddress s = a

/-- What `HexToAddress` makes of a string is what the string denotes exactly when it is an address
string: on any other it makes up an address. -/
theorem ReadsAddresses.denotes_iff {hexToAddress : Bytes → Address}
    (reads : ReadsAddresses hexToAddress) {s : Bytes} :
    Denotes s (hexToAddress s) ↔ IsAddress s := by
  constructor
  · exact Denotes.isAddress
  · intro h
    obtain ⟨a, ha⟩ := h.exists_denotes
    rw [reads s a ha]
    exact ha

namespace Sample

/-- A `HexToAddress` to run: it pads the digits to an even number, decodes as far as it can, and
takes the last 20 bytes, with zeros in front of fewer. -/
def hexToAddress (s : Bytes) : Address :=
  let digits := if (hexPart s).length % 2 = 1 then 48 :: hexPart s else hexPart s
  let decoded := (hexDecode digits).1
  { bytes := (List.replicate 20 0 ++ decoded).drop decoded.length
    size := by
      rw [List.length_drop, List.length_append, List.length_replicate]
      omega }

theorem readsAddresses : ReadsAddresses hexToAddress := by
  intro s a h
  have hdecoded : (hexDecode (hexPart s)).1 = a.bytes := congrArg Prod.fst (hexDecode_eq_ok_iff.mpr h)
  have heven : (hexPart s).length % 2 ≠ 1 := by rw [h.isAddress.1]; decide
  refine FixedBytes.eq_of_bytes ?_
  simp only [hexToAddress, if_neg heven, hdecoded, a.size]
  exact List.drop_left' List.length_replicate

end Sample

/-! ## Requests and messages -/

/-- A body asks for an intent: it has an ID, amounts in range, a deadline ahead of the clock and a
signature that can be read, and those are the intent's. -/
structure IntentOf (hexToAddress : Bytes → Address) (now : Int) (req : IntentRequest)
    (intent : Intent) : Prop where
  named : req.id ≠ []
  id : intent.id = ⟨req.id⟩
  sender : intent.sender = hexToAddress req.sender
  tokenIn : intent.tokenIn = hexToAddress req.tokenIn
  tokenOut : intent.tokenOut = hexToAddress req.tokenOut
  amountIn : Decimal req.amountIn intent.amountIn
  amountIn_pos : 0 < intent.amountIn
  minAmountOut : Decimal req.minAmountOut intent.minAmountOut
  minAmountOut_nonneg : 0 ≤ intent.minAmountOut
  future : unixAfter req.deadline now = true
  deadline : intent.deadline = req.deadline
  nonce : intent.nonce = req.nonce
  signature : HexOf (trim0x req.signature) intent.signature

theorem setString_filter_eq_some_iff {p : Int → Prop} [DecidablePred p] {s : Bytes} {n : Int} :
    (setString s).filter (fun n => decide (p n)) = some n ↔ Decimal s n ∧ p n := by
  rw [Option.filter_eq_some_iff, setString_eq_some_iff, decide_eq_true_iff]

/-- **`SubmitIntent` builds the intent a request asks for, and refuses a request that asks for
none.** -/
theorem submitIntent_eq_ok_iff {intake : Intake} {now : Int} {addr : Nat} {r : Request}
    {intent : Ref Intent} :
    submitIntent intake now addr r = .ok intent ↔ r.method = ascii "POST" ∧
      ∃ req, intake.decodeIntent r.body = .ok req ∧ intent.addr = addr ∧
        IntentOf intake.hexToAddress now req intent.val := by
  constructor
  · intro h
    unfold submitIntent at h
    split at h
    · cases h
    rename_i hmethod
    split at h
    · cases h
    rename_i req hreq
    split at h
    · cases h
    rename_i hid
    split at h
    · cases h
    rename_i amountIn hin
    split at h
    · cases h
    rename_i minAmountOut hout
    split at h
    · cases h
    rename_i hfuture
    split at h
    · cases h
    rename_i signature hsignature
    cases h
    have hin := setString_filter_eq_some_iff.mp hin
    have hout := setString_filter_eq_some_iff.mp hout
    exact ⟨not_not.mp hmethod, req, hreq, rfl,
      { named := hid, id := rfl, sender := rfl, tokenIn := rfl, tokenOut := rfl
        amountIn := hin.1, amountIn_pos := hin.2
        minAmountOut := hout.1, minAmountOut_nonneg := hout.2
        future := by simpa using hfuture
        deadline := rfl, nonce := rfl
        signature := decodeSignature_eq_some_iff.mp hsignature }⟩
  · rintro ⟨hmethod, req, hreq, rfl, h⟩
    have hin := setString_filter_eq_some_iff.mpr ⟨h.amountIn, h.amountIn_pos⟩
    have hout := setString_filter_eq_some_iff.mpr ⟨h.minAmountOut, h.minAmountOut_nonneg⟩
    have hsignature := decodeSignature_eq_some_iff.mpr h.signature
    simp only [submitIntent, hmethod, hreq, h.named, hin, hout, h.future, hsignature, ne_eq,
      not_true_eq_false, if_false, Bool.not_true, Bool.false_eq_true]
    rw [← h.id, ← h.sender, ← h.tokenIn, ← h.tokenOut, ← h.deadline, ← h.nonce]

/-- A solver's message asks for a bid: both its amounts are positive, and they are the bid's. -/
structure BidOf (hexToAddress : Bytes → Address) (req : BidRequest) (bid : Bid) : Prop where
  intentID : bid.intentID = ⟨req.intentID⟩
  solver : bid.solver = hexToAddress req.solver
  amountOut : ∃ n, Decimal req.amountOut n ∧ 0 < n ∧ bid.amountOut = some n
  gasPrice : ∃ n, Decimal req.gasPrice n ∧ 0 < n ∧ bid.gasPrice = some n

/-- **`readPump` builds the bid a message asks for, and drops a message that asks for none.** -/
theorem readBid_eq_some_iff {intake : Intake} {msg : Bytes} {bid : Bid} :
    readBid intake msg = some bid ↔
      ∃ req, intake.decodeBid msg = some req ∧ BidOf intake.hexToAddress req bid := by
  constructor
  · intro h
    unfold readBid at h
    split at h
    · cases h
    rename_i req hreq
    split at h
    · cases h
    rename_i amountOut hout
    split at h
    · cases h
    rename_i gasPrice hgas
    cases h
    have hout := setString_filter_eq_some_iff.mp hout
    have hgas := setString_filter_eq_some_iff.mp hgas
    exact ⟨req, hreq, rfl, rfl, ⟨amountOut, hout.1, hout.2, rfl⟩, ⟨gasPrice, hgas.1, hgas.2, rfl⟩⟩
  · rintro ⟨req, hreq, h⟩
    obtain ⟨amountOut, hout, houtPos, houtEq⟩ := h.amountOut
    obtain ⟨gasPrice, hgas, hgasPos, hgasEq⟩ := h.gasPrice
    have hout := setString_filter_eq_some_iff.mpr ⟨hout, houtPos⟩
    have hgas := setString_filter_eq_some_iff.mpr ⟨hgas, hgasPos⟩
    simp only [readBid, hreq, hout, hgas]
    rw [← h.intentID, ← h.solver, ← houtEq, ← hgasEq]

end VynxRelayer.Ingress
