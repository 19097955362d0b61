import Mathlib.Data.Set.Function
import VynxRelayer.Ingress.Wire
import VynxRelayer.Lib.BigEndian

/-!
# The digest of an intent

`internal/signer/eip712.go`: the EIP-712 domain separator, the hash of an intent's fields, and the
digest over both. go-ethereum's ABI encoder is a parameter (`Abi`): what it writes for a number that
fits 256 bits is known (`Abi.Standard`), and what it does with any other number is not, whether it
refuses it or writes some word for it.

The handler takes amounts of any size. `HashIntent` can be relied on to tell two accepted intents
apart, with any such encoder and any hash function without collisions, exactly when the amounts of
both are below 2^256 and their deadlines are not before 1970 (`hash_unambiguous_iff`).
-/

namespace VynxRelayer.Signer

open Lib.Json Ingress

/-! ## The encoder -/

inductive AbiType where
  | bytes32
  | uint256
  | address
  deriving DecidableEq

def AbiType.name : AbiType → Bytes
  | .bytes32 => ascii "bytes32"
  | .uint256 => ascii "uint256"
  | .address => ascii "address"

/-- An argument with its type. -/
inductive AbiValue where
  | bytes32 (b : FixedBytes 32)
  | uint256 (n : Int)
  | address (a : Address)
  deriving DecidableEq

/-- What go-ethereum's encoder decides: whether it knows a type, and the word of a number. -/
structure Abi where
  newType : AbiType → Except Bytes Unit
  packNum : Int → Except Bytes (FixedBytes 32)

namespace Abi

/-- `NewType`, with the error its callers wrap. -/
def createType (abi : Abi) (t : AbiType) : Except Bytes Unit :=
  match abi.newType t with
  | .error err => .error (ascii "failed to create " ++ t.name ++ ascii " ABI type: " ++ err)
  | .ok () => .ok ()

/-- The word of one static argument. -/
def packElement (abi : Abi) : AbiValue → Except Bytes (FixedBytes 32)
  | .bytes32 b => .ok b
  | .uint256 n => abi.packNum n
  | .address a => .ok ⟨List.replicate 12 0 ++ a.bytes, by simp [a.size]⟩

/-- `Arguments.Pack`: the words of the arguments, unless one has none. -/
def pack (abi : Abi) : List AbiValue → Except Bytes Bytes
  | [] => .ok []
  | value :: values =>
    match abi.packElement value, abi.pack values with
    | .ok word, .ok words => .ok (word.bytes ++ words)
    | .error err, _ => .error err
    | .ok _, .error err => .error err

/-- A number that fits a word. -/
def Fits (n : Int) : Prop := 0 ≤ n ∧ n < 2 ^ 256

instance (n : Int) : Decidable (Fits n) := inferInstanceAs (Decidable (_ ∧ _))

/-- The encoder as documented: it knows the three types, and writes a number that fits big-endian.
-/
structure Standard (abi : Abi) : Prop where
  newType : ∀ t, abi.newType t = .ok ()
  packNum : ∀ n, Fits n → abi.packNum n = .ok (word n.toNat)

end Abi

/-! ## The digest -/

/-- The EIP-712 domain parameters. -/
structure Domain where
  name : Bytes
  version : Bytes
  chainID : UInt64
  verifyingContract : Address
  deriving DecidableEq

def domainTypeString : Bytes :=
  ascii "EIP712Domain(string name,string version,uint256 chainId,address verifyingContract)"

def intentTypeString : Bytes :=
  ascii ("Intent(address sender,address tokenIn,address tokenOut,uint256 amountIn," ++
    "uint256 minAmountOut,uint256 deadline,uint256 nonce)")

section Digest

variable (abi : Abi) (keccak256 : Bytes → FixedBytes 32)

/-- The arguments of the domain separator. -/
def domainArguments (domain : Domain) : List AbiValue :=
  [.bytes32 (keccak256 domainTypeString), .bytes32 (keccak256 domain.name),
    .bytes32 (keccak256 domain.version), .uint256 domain.chainID.toNat,
    .address domain.verifyingContract]

def domainSeparator (domain : Domain) : Except Bytes (FixedBytes 32) := do
  abi.createType .bytes32
  abi.createType .uint256
  abi.createType .address
  match abi.pack (domainArguments keccak256 domain) with
  | .error err => .error (ascii "failed to ABI-encode domain separator: " ++ err)
  | .ok encoded => .ok (keccak256 encoded)

/-- The arguments of an intent's hash. -/
def intentArguments (intent : Intent) : List AbiValue :=
  [.bytes32 (keccak256 intentTypeString), .address intent.sender, .address intent.tokenIn,
    .address intent.tokenOut, .uint256 intent.amountIn, .uint256 intent.minAmountOut,
    .uint256 intent.deadline.toInt, .uint256 intent.nonce.toNat]

def intentStructHash (intent : Intent) : Except Bytes (FixedBytes 32) := do
  abi.createType .bytes32
  abi.createType .address
  abi.createType .uint256
  match abi.pack (intentArguments keccak256 intent) with
  | .error err => .error (ascii "failed to ABI-encode intent struct: " ++ err)
  | .ok encoded => .ok (keccak256 encoded)

/-- The string under the digest. -/
def typedData (domSep structHash : FixedBytes 32) : Bytes :=
  [0x19, 0x01] ++ domSep.bytes ++ structHash.bytes

def hashIntent (domain : Domain) (intent : Intent) : Except Bytes (FixedBytes 32) :=
  match domainSeparator abi keccak256 domain with
  | .error err =>
    .error (ascii "failed to compute domain separator for intent " ++ intent.id.bytes ++
      ascii ": " ++ err)
  | .ok domSep =>
    match intentStructHash abi keccak256 intent with
    | .error err =>
      .error (ascii "failed to compute struct hash for intent " ++ intent.id.bytes ++
        ascii ": " ++ err)
    | .ok structHash => .ok (keccak256 (typedData domSep structHash))

/-- The strings `hashIntent` hashes. -/
def hashed (domain : Domain) (intent : Intent) : List Bytes :=
  [domainTypeString, domain.name, domain.version, intentTypeString] ++
    match abi.pack (domainArguments keccak256 domain),
      abi.pack (intentArguments keccak256 intent) with
    | .ok encoded, .ok struct =>
      [encoded, struct, typedData (keccak256 encoded) (keccak256 struct)]
    | .ok encoded, .error _ => [encoded]
    | .error _, _ => []

end Digest

/-! ## Packing -/

namespace Abi

variable {abi : Abi}

theorem pack_ok_iff {values : List AbiValue} :
    (∃ encoded, abi.pack values = .ok encoded) ↔
      ∀ value ∈ values, ∃ word, abi.packElement value = .ok word := by
  induction values with
  | nil => simp [pack]
  | cons value values ih =>
    rw [List.forall_mem_cons, ← ih, pack]
    cases abi.packElement value <;> cases abi.pack values <;> simp

/-- The encoding depends on the words only. -/
theorem pack_congr {values values' : List AbiValue}
    (same : values.map abi.packElement = values'.map abi.packElement) :
    abi.pack values = abi.pack values' := by
  induction values generalizing values' with
  | nil =>
    cases values' with
    | nil => rfl
    | cons _ _ => cases same
  | cons value values ih =>
    cases values' with
    | nil => cases same
    | cons value' values' =>
      obtain ⟨hhead, htail⟩ := List.cons_eq_cons.mp same
      rw [pack, pack, hhead, ih htail]

/-- All words have one length, so the encoding determines them. -/
theorem pack_inj {values values' : List AbiValue} {encoded : Bytes}
    (length : values.length = values'.length) (packed : abi.pack values = .ok encoded)
    (packed' : abi.pack values' = .ok encoded) :
    values.map abi.packElement = values'.map abi.packElement := by
  induction values generalizing values' encoded with
  | nil =>
    cases values' with
    | nil => rfl
    | cons _ _ => cases length
  | cons value values ih =>
    cases values' with
    | nil => cases length
    | cons value' values' =>
      rw [pack] at packed packed'
      cases hw : abi.packElement value with
      | error _ => rw [hw] at packed; cases packed
      | ok word =>
        cases hw' : abi.packElement value' with
        | error _ => rw [hw'] at packed'; cases packed'
        | ok word' =>
          cases hs : abi.pack values with
          | error _ => rw [hw, hs] at packed; cases packed
          | ok words =>
            cases hs' : abi.pack values' with
            | error _ => rw [hw', hs'] at packed'; cases packed'
            | ok words' =>
              rw [hw, hs] at packed
              rw [hw', hs'] at packed'
              have hsame : word.bytes ++ words = word'.bytes ++ words' :=
                (Except.ok.inj packed).trans (Except.ok.inj packed').symm
              obtain ⟨hhead, htail⟩ := List.append_inj hsame (word.size.trans word'.size.symm)
              have hword : word = word' := FixedBytes.eq_of_bytes hhead
              subst htail
              rw [List.map_cons, List.map_cons, hw, hw', hword,
                ih (Nat.succ.inj length) hs hs']

theorem bytes_word (n : Nat) : (word n).bytes = Lib.bigEndian 32 n := rfl

theorem wordSize_eq : (2 : Nat) ^ 256 = 256 ^ 32 := by decide

theorem word_inj {n m : Nat} (hn : n < 2 ^ 256) (hm : m < 2 ^ 256) (same : word n = word m) :
    n = m := by
  rw [wordSize_eq] at hn hm
  have hbytes := congrArg FixedBytes.bytes same
  rw [bytes_word, bytes_word] at hbytes
  exact Lib.bigEndian_inj hn hm hbytes

theorem fits_toNat (n : UInt64) : Fits n.toNat :=
  ⟨Int.natCast_nonneg _, by have := n.toNat_lt; omega⟩

/-- Numbers that fit are told apart by their words. -/
theorem Standard.packNum_inj (standard : abi.Standard) {n m : Int} (hn : Fits n) (hm : Fits m)
    (same : abi.packNum n = abi.packNum m) : n = m := by
  rw [standard.packNum n hn, standard.packNum m hm] at same
  have hnat := word_inj (by have := hn.2; omega) (by have := hm.2; omega) (Except.ok.inj same)
  have := hn.1
  have := hm.1
  omega

end Abi

/-! ## Telling intents apart -/

/-- What an intent commits its sender to. -/
def terms (i : Intent) : Address × Address × Address × Int × Int × Int64 × UInt64 :=
  (i.sender, i.tokenIn, i.tokenOut, i.amountIn, i.minAmountOut, i.deadline, i.nonce)

/-- Both intents have a digest, and the digests differ if the intents do. -/
def Unambiguous (abi : Abi) (keccak256 : Bytes → FixedBytes 32) (domain : Domain) (i j : Intent) :
    Prop :=
  (∃ digest, hashIntent abi keccak256 domain i = .ok digest) ∧
    (∃ digest, hashIntent abi keccak256 domain j = .ok digest) ∧
    (terms i ≠ terms j → hashIntent abi keccak256 domain i ≠ hashIntent abi keccak256 domain j)

/-- The encoder has a word for each number of the intent. -/
def Encodable (abi : Abi) (i : Intent) : Prop :=
  ∀ n ∈ [i.amountIn, i.minAmountOut, i.deadline.toInt], ∃ word, abi.packNum n = .ok word

/-- The intent with its numbers as the encoder writes them. -/
def written (abi : Abi) (i : Intent) :=
  (i.sender, i.tokenIn, i.tokenOut, abi.packNum i.amountIn, abi.packNum i.minAmountOut,
    abi.packNum i.deadline.toInt, i.nonce)

/-- The numbers of the intent fit a word each. -/
def Fits (i : Intent) : Prop :=
  Abi.Fits i.amountIn ∧ Abi.Fits i.minAmountOut ∧ Abi.Fits i.deadline.toInt

/-- No amount of the intent is too large for a word, and its deadline is not before 1970. -/
def InRange (i : Intent) : Prop :=
  i.amountIn < 2 ^ 256 ∧ i.minAmountOut < 2 ^ 256 ∧ 0 ≤ i.deadline.toInt

/-- Some request was turned into the intent. -/
def Accepted (i : Intent) : Prop :=
  ∃ intake now addr r, submitIntent intake now addr r = .ok ⟨addr, i⟩

section

variable {abi : Abi} {keccak256 : Bytes → FixedBytes 32} {domain : Domain} {i j : Intent}

theorem pack_domainArguments (standard : abi.Standard) (keccak256 : Bytes → FixedBytes 32)
    (domain : Domain) :
    ∃ encoded, abi.pack (domainArguments keccak256 domain) = .ok encoded := by
  refine Abi.pack_ok_iff.mpr ?_
  simp only [domainArguments, List.forall_mem_cons, Abi.packElement,
    standard.packNum _ (Abi.fits_toNat _)]
  simp

theorem pack_intentArguments (standard : abi.Standard) (keccak256 : Bytes → FixedBytes 32) :
    (∃ encoded, abi.pack (intentArguments keccak256 i) = .ok encoded) ↔ Encodable abi i := by
  rw [Abi.pack_ok_iff]
  simp [intentArguments, Abi.packElement, standard.packNum _ (Abi.fits_toNat _), Encodable]

theorem hashIntent_of_pack (standard : abi.Standard) {encoded struct : Bytes}
    (sep : abi.pack (domainArguments keccak256 domain) = .ok encoded)
    (packed : abi.pack (intentArguments keccak256 i) = .ok struct) :
    hashIntent abi keccak256 domain i =
      .ok (keccak256 (typedData (keccak256 encoded) (keccak256 struct))) := by
  simp only [hashIntent, domainSeparator, intentStructHash, Abi.createType, standard.newType, sep,
    packed]
  rfl

theorem hashIntent_ok_iff (standard : abi.Standard) :
    (∃ digest, hashIntent abi keccak256 domain i = .ok digest) ↔ Encodable abi i := by
  rw [← pack_intentArguments standard keccak256]
  obtain ⟨encoded, hsep⟩ := pack_domainArguments standard keccak256 domain
  cases hpack : abi.pack (intentArguments keccak256 i) with
  | ok struct => simp [hashIntent_of_pack standard hsep hpack]
  | error err =>
    simp [hashIntent, domainSeparator, intentStructHash, Abi.createType, standard.newType, hsep,
      hpack, bind, Except.bind]

/-- The words of two intents are the same when their fields are, as the encoder writes them. -/
theorem words_eq_iff (standard : abi.Standard) (keccak256 : Bytes → FixedBytes 32) :
    (intentArguments keccak256 i).map abi.packElement =
      (intentArguments keccak256 j).map abi.packElement ↔ written abi i = written abi j := by
  have haddress (a b : Address) :
      abi.packElement (.address a) = abi.packElement (.address b) ↔ a = b := by
    refine ⟨fun h => ?_, fun h => congrArg _ (congrArg _ h)⟩
    have hbytes : a.bytes = b.bytes :=
      List.append_cancel_left (congrArg FixedBytes.bytes (Except.ok.inj h))
    exact FixedBytes.eq_of_bytes hbytes
  have hnonce (n m : UInt64) : abi.packNum n.toNat = abi.packNum m.toNat ↔ n = m := by
    refine ⟨fun h => ?_, fun h => congrArg _ (congrArg _ (congrArg _ h))⟩
    have hnat := standard.packNum_inj (Abi.fits_toNat n) (Abi.fits_toNat m) h
    exact UInt64.toNat_inj.mp (Int.natCast_inj.mp hnat)
  have hnumber (n : Int) : abi.packElement (.uint256 n) = abi.packNum n := rfl
  simp only [intentArguments, List.map_cons, List.map_nil, List.cons.injEq, haddress, hnumber,
    hnonce, true_and, and_true, written, Prod.mk.injEq]

/-- What the encoder writes alike has one digest, whatever the hash function. -/
theorem hashIntent_congr (standard : abi.Standard) (hi : Encodable abi i)
    (same : written abi i = written abi j) :
    hashIntent abi keccak256 domain i = hashIntent abi keccak256 domain j := by
  obtain ⟨encoded, hsep⟩ := pack_domainArguments standard keccak256 domain
  obtain ⟨struct, hstruct⟩ := (pack_intentArguments standard keccak256).mpr hi
  have hpack := Abi.pack_congr ((words_eq_iff standard keccak256).mpr same)
  rw [hashIntent_of_pack standard hsep hstruct,
    hashIntent_of_pack standard hsep (hpack.symm.trans hstruct)]

/-- Without collisions, digests are the same when the fields are, as the encoder writes them. -/
theorem hashIntent_eq_iff (standard : abi.Standard) (hi : Encodable abi i) (hj : Encodable abi j)
    (collisionFree : Set.InjOn keccak256
      {s | s ∈ hashed abi keccak256 domain i ++ hashed abi keccak256 domain j}) :
    hashIntent abi keccak256 domain i = hashIntent abi keccak256 domain j ↔
      written abi i = written abi j := by
  obtain ⟨encoded, hsep⟩ := pack_domainArguments standard keccak256 domain
  obtain ⟨struct, hstruct⟩ := (pack_intentArguments standard keccak256).mpr hi
  obtain ⟨struct', hstruct'⟩ := (pack_intentArguments standard keccak256).mpr hj
  refine ⟨fun same => ?_, hashIntent_congr standard hi⟩
  rw [hashIntent_of_pack standard hsep hstruct, hashIntent_of_pack standard hsep hstruct'] at same
  simp only [hashed, hsep, hstruct, hstruct'] at collisionFree
  have houter := collisionFree (by simp) (by simp) (Except.ok.inj same)
  have hinner := List.append_cancel_left houter
  have hhash : keccak256 struct = keccak256 struct' := by
    generalize keccak256 struct = h at hinner
    generalize keccak256 struct' = h' at hinner
    cases h; cases h'; cases hinner; rfl
  have hencoded := collisionFree (by simp) (by simp) hhash
  exact (words_eq_iff standard keccak256).mp (Abi.pack_inj rfl hstruct (hencoded ▸ hstruct'))

theorem Fits.encodable (standard : abi.Standard) (hi : Fits i) : Encodable abi i := by
  simp only [Encodable, List.forall_mem_cons, standard.packNum _ hi.1, standard.packNum _ hi.2.1,
    standard.packNum _ hi.2.2]
  simp

theorem Fits.terms_eq (standard : abi.Standard) (hi : Fits i) (hj : Fits j)
    (same : written abi i = written abi j) : terms i = terms j := by
  simp only [written, Prod.mk.injEq] at same
  obtain ⟨hsender, htokenIn, htokenOut, hin, hout, hdeadline, hnonce⟩ := same
  have hin := standard.packNum_inj hi.1 hj.1 hin
  have hout := standard.packNum_inj hi.2.1 hj.2.1 hout
  have hdeadline := Int64.toInt_inj.mp (standard.packNum_inj hi.2.2 hj.2.2 hdeadline)
  simp only [terms, hsender, htokenIn, htokenOut, hin, hout, hdeadline, hnonce]

theorem written_of_terms (same : terms i = terms j) : written abi i = written abi j := by
  simp only [terms, Prod.mk.injEq] at same
  obtain ⟨hsender, htokenIn, htokenOut, hin, hout, hdeadline, hnonce⟩ := same
  simp only [written, hsender, htokenIn, htokenOut, hin, hout, hdeadline, hnonce]

theorem Fits.inRange (h : Fits i) : InRange i := ⟨h.1.2, h.2.1.2, h.2.2.1⟩

/-- The handler refuses negative amounts. -/
theorem Accepted.fits (accepted : Accepted i) (range : InRange i) : Fits i := by
  obtain ⟨intake, now, addr, r, h⟩ := accepted
  obtain ⟨_, _, hin, hout⟩ := submitIntent_ok h
  have hdeadline := i.deadline.toInt_lt
  refine ⟨⟨le_of_lt hin, range.1⟩, ⟨hout, range.2.1⟩, range.2.2, ?_⟩
  omega

/-- In range, both have a digest, and without collisions the digests differ if the intents do. -/
theorem Fits.unambiguous (standard : abi.Standard) (hi : Fits i) (hj : Fits j)
    (collisionFree : Set.InjOn keccak256
      {s | s ∈ hashed abi keccak256 domain i ++ hashed abi keccak256 domain j}) :
    Unambiguous abi keccak256 domain i j := by
  have hei := hi.encodable standard
  have hej := hj.encodable standard
  refine ⟨(hashIntent_ok_iff standard).mpr hei, (hashIntent_ok_iff standard).mpr hej, ?_⟩
  intro differ same
  exact differ (hi.terms_eq standard hj
    ((hashIntent_eq_iff standard hei hej collisionFree).mp same))

end

/-! ## Out of range

An encoder may refuse a number that does not fit, and then there is no digest, whatever the hash
function. That there is one without collisions has to be shown: what is hashed depends on the hashes
of what was hashed before. Numbering the strings in that order gives one. -/

/-- An encoder that refuses what does not fit. -/
def refusing : Abi :=
  ⟨fun _ => .ok (), fun n =>
    if Abi.Fits n then .ok (word n.toNat) else .error (ascii "abi: overflow")⟩

theorem refusing_standard : refusing.Standard where
  newType _ := rfl
  packNum _ fits := if_pos fits

theorem fits_of_encodable {i : Intent} (h : Encodable refusing i) : Fits i := by
  have hfits : ∀ n ∈ [i.amountIn, i.minAmountOut, i.deadline.toInt], Abi.Fits n := by
    intro n hn
    obtain ⟨w, hw⟩ := h n hn
    by_contra hnot
    have hrefused : refusing.packNum n = .error (ascii "abi: overflow") := if_neg hnot
    rw [hrefused] at hw
    cases hw
  exact ⟨hfits _ (by simp), hfits _ (by simp), hfits _ (by simp)⟩

/-- The place of a string in a list, as a hash. -/
def number (strings : List Bytes) (s : Bytes) : FixedBytes 32 := word (strings.idxOf s)

theorem number_append {strings : List Bytes} {s : Bytes} (mem : s ∈ strings) (more : List Bytes) :
    number (strings ++ more) s = number strings s := by
  rw [number, number, List.idxOf_append_of_mem mem]

theorem number_injOn {strings : List Bytes} (few : strings.length < 2 ^ 256) :
    Set.InjOn (number strings) {s | s ∈ strings} := by
  intro s hs t ht same
  have hplace := Abi.word_inj ((List.idxOf_lt_length_of_mem hs).trans few)
    ((List.idxOf_lt_length_of_mem ht).trans few) same
  exact (List.idxOf_inj hs).mp hplace

section

variable (abi : Abi) (domain : Domain) (i j : Intent)

/-- The texts that are hashed. -/
def texts : List Bytes := [domainTypeString, domain.name, domain.version, intentTypeString]

/-- With the encodings over their hashes. -/
def encodings : List Bytes :=
  texts domain ++ ((abi.pack (domainArguments (number (texts domain)) domain)).toOption.toList ++
    (abi.pack (intentArguments (number (texts domain)) i)).toOption.toList ++
    (abi.pack (intentArguments (number (texts domain)) j)).toOption.toList)

/-- With the strings over the hashes of these. -/
def strings : List Bytes :=
  encodings abi domain i j ++ (encodings abi domain i j).flatMap fun encoded =>
    (encodings abi domain i j).map fun struct =>
      typedData (number (encodings abi domain i j) encoded) (number (encodings abi domain i j) struct)

theorem length_strings_lt : (strings abi domain i j).length < 2 ^ 256 := by
  have hone : ∀ x : Except Bytes Bytes, x.toOption.toList.length ≤ 1 := by
    intro x
    cases x <;> simp [Except.toOption]
  have hlen : (encodings abi domain i j).length ≤ 7 := by
    have h := hone (abi.pack (domainArguments (number (texts domain)) domain))
    have h' := hone (abi.pack (intentArguments (number (texts domain)) i))
    have h'' := hone (abi.pack (intentArguments (number (texts domain)) j))
    have htexts : (texts domain).length = 4 := rfl
    simp only [encodings, List.length_append, htexts]
    omega
  have hsquare : (encodings abi domain i j).length * (encodings abi domain i j).length ≤ 7 * 7 :=
    Nat.mul_le_mul hlen hlen
  rw [strings, List.length_append, List.length_flatMap]
  simp only [List.length_map, List.map_const', List.sum_replicate_nat]
  omega

variable {abi domain i j}

theorem number_strings_of_text {s : Bytes} (mem : s ∈ texts domain) :
    number (strings abi domain i j) s = number (texts domain) s := by
  have hmem : s ∈ encodings abi domain i j := List.mem_append_left _ mem
  rw [strings, number_append hmem, encodings, number_append mem]

theorem domainArguments_strings :
    domainArguments (number (strings abi domain i j)) domain =
      domainArguments (number (texts domain)) domain := by
  unfold domainArguments
  rw [number_strings_of_text (by simp [texts]), number_strings_of_text (by simp [texts]),
    number_strings_of_text (by simp [texts])]

theorem intentArguments_strings (k : Intent) :
    intentArguments (number (strings abi domain i j)) k =
      intentArguments (number (texts domain)) k := by
  unfold intentArguments
  rw [number_strings_of_text (by simp [texts])]

/-- What is hashed for an intent is numbered, if its encoding is. -/
theorem mem_strings {k : Intent} (encoded : ∀ struct,
      abi.pack (intentArguments (number (texts domain)) k) = .ok struct →
        struct ∈ encodings abi domain i j) :
    ∀ s ∈ hashed abi (number (strings abi domain i j)) domain k, s ∈ strings abi domain i j := by
  have hin : ∀ s ∈ encodings abi domain i j, s ∈ strings abi domain i j :=
    fun s hs => List.mem_append_left _ hs
  have htext : ∀ s ∈ texts domain, s ∈ strings abi domain i j :=
    fun s hs => hin s (List.mem_append_left _ hs)
  intro s hs
  rw [hashed, domainArguments_strings, intentArguments_strings, List.mem_append] at hs
  rcases hs with hs | hs
  · exact htext s hs
  cases hsep : abi.pack (domainArguments (number (texts domain)) domain) with
  | error err => simp [hsep] at hs
  | ok sep =>
    have hsepMem : sep ∈ encodings abi domain i j := by
      simp [encodings, hsep, Except.toOption]
    cases hstruct : abi.pack (intentArguments (number (texts domain)) k) with
    | error err =>
      simp only [hsep, hstruct, List.mem_singleton] at hs
      exact hs ▸ hin sep hsepMem
    | ok struct =>
      have hstructMem := encoded struct hstruct
      simp only [hsep, hstruct, List.mem_cons, List.not_mem_nil, or_false] at hs
      rcases hs with rfl | rfl | rfl
      · exact hin _ hsepMem
      · exact hin _ hstructMem
      · refine List.mem_append_right _ (List.mem_flatMap.mpr ⟨sep, hsepMem,
          List.mem_map.mpr ⟨struct, hstructMem, ?_⟩⟩)
        rw [strings, number_append hsepMem, number_append hstructMem]

/-- There is a hash function without collisions on what is hashed for two intents. -/
theorem exists_collisionFree (abi : Abi) (domain : Domain) (i j : Intent) :
    ∃ keccak256 : Bytes → FixedBytes 32, Set.InjOn keccak256
      {s | s ∈ hashed abi keccak256 domain i ++ hashed abi keccak256 domain j} := by
  refine ⟨number (strings abi domain i j),
    (number_injOn (length_strings_lt abi domain i j)).mono fun s hs => ?_⟩
  rcases List.mem_append.mp hs with hs | hs
  · refine mem_strings (fun struct hstruct => ?_) s hs
    simp [encodings, hstruct, Except.toOption]
  · refine mem_strings (fun struct hstruct => ?_) s hs
    simp [encodings, hstruct, Except.toOption]

end

/-- **When digests tell intents apart.** For two intents that `SubmitIntent` accepted: with every
encoder that writes what fits and every hash function without collisions on what is hashed, both
have a digest, and different ones if they differ in a signed field, exactly when the amounts of both
are below 2^256 and neither deadline is before 1970. -/
theorem hash_unambiguous_iff {i j : Intent} (hi : Accepted i) (hj : Accepted j) (domain : Domain) :
    (∀ (abi : Abi) (keccak256 : Bytes → FixedBytes 32), abi.Standard →
      Set.InjOn keccak256
        {s | s ∈ hashed abi keccak256 domain i ++ hashed abi keccak256 domain j} →
      Unambiguous abi keccak256 domain i j) ↔ InRange i ∧ InRange j := by
  constructor
  · intro reliable
    obtain ⟨keccak256, collisionFree⟩ := exists_collisionFree refusing domain i j
    obtain ⟨hdi, hdj, -⟩ := reliable refusing keccak256 refusing_standard collisionFree
    have hfi := fits_of_encodable ((hashIntent_ok_iff refusing_standard).mp hdi)
    have hfj := fits_of_encodable ((hashIntent_ok_iff refusing_standard).mp hdj)
    exact ⟨hfi.inRange, hfj.inRange⟩
  · rintro ⟨ri, rj⟩ abi keccak256 standard collisionFree
    exact (hi.fits ri).unambiguous standard (hj.fits rj) collisionFree

/-! ## Floors on both sides

Two accepted intents that differ in their floor, with the strings hashed for them and their
Keccak-256 digests; and a floor of 2^256, which an encoder may cut down to a word or refuse. -/

namespace Sample

def request (minAmountOut : Bytes) : IntentRequest where
  id := ascii "1"
  sender := List.replicate 40 49
  tokenIn := List.replicate 40 49
  tokenOut := List.replicate 40 49
  amountIn := ascii "10"
  minAmountOut := minAmountOut
  deadline := 1775000000
  nonce := 1
  signature := []

def intent (minAmountOut : Int) : Intent where
  id := ⟨ascii "1"⟩
  sender := VynxRelayer.Sample.address 0x11
  tokenIn := VynxRelayer.Sample.address 0x11
  tokenOut := VynxRelayer.Sample.address 0x11
  amountIn := 10
  minAmountOut := minAmountOut
  deadline := 1775000000
  nonce := 1
  signature := []

/-- `SubmitIntent` on a body with a given floor, long before its deadline. -/
def submitted (minAmountOut : Bytes) : Except Response (Ref Intent) :=
  submitIntent readers.toIntake 0 0
    ⟨ascii "POST", intentRequestJson.print (request minAmountOut)⟩

theorem accepted (minAmountOut : Bytes) {i : Intent} (h : submitted minAmountOut = .ok ⟨0, i⟩) :
    Accepted i :=
  ⟨_, _, _, _, h⟩

/-- An encoder that keeps the low 256 bits. -/
def truncating : Abi := ⟨fun _ => .ok (), fun n => .ok (word (n % 2 ^ 256).toNat)⟩

theorem truncating_standard : truncating.Standard where
  newType _ := rfl
  packNum _ fits :=
    congrArg (fun m : Int => Except.ok (word m.toNat)) (Int.emod_eq_of_lt fits.1 fits.2)

def domain : Domain := ⟨ascii "VynX", ascii "1", 31337, VynxRelayer.Sample.address 7⟩

/-- Keccak-256 of the texts. -/
def textHash (s : Bytes) : FixedBytes 32 :=
  if s = domainTypeString then
    word 0x8b73c3c69bb8fe3d512ecc4cf759cc79239f7b179b0ffacaa9a75d522b39400f
  else if s = ascii "VynX" then
    word 0x1d5f33c91b037466af92fb61c021dc75c4b923c2e22372062ed3131498dc91f9
  else if s = ascii "1" then
    word 0xc89efdaa54c0f20c7adf612882df0950f5a951637e0307cdcb4c672f298b8bc6
  else if s = intentTypeString then
    word 0xeb3e1568369096e6b22daac1017e9e8b178905ce8fb6275b46478e2a502f4236
  else word 0

def separator : FixedBytes 32 :=
  word 0x2c38d9a67c7015fe1332c4e53c29adc41ad88796d9a62acfb2de2208dc38928b

def structHash (floor : Int) : FixedBytes 32 :=
  if floor = 5 then word 0xc3f619977fdd9e3673e98cbd44549c5b9df0cdb78a3659b8de22e7c6ea368b69
  else word 0x1128507687c1619816a35638d8c45f3bdb88221e028d8b1b924d1dfa4f9b5425

/-- Keccak-256 on the strings of the two intents. -/
def keccak256 (s : Bytes) : FixedBytes 32 :=
  if truncating.pack (domainArguments textHash domain) = .ok s then separator
  else if truncating.pack (intentArguments textHash (intent 5)) = .ok s then structHash 5
  else if truncating.pack (intentArguments textHash (intent 6)) = .ok s then structHash 6
  else if s = typedData separator (structHash 5) then
    word 0x95ea526520ff75e41c6d8cf0458320504984dede19595b2e00fe354a9689eeed
  else if s = typedData separator (structHash 6) then
    word 0x5d3f72c79c6a48034fe9702b9ef2b823436f5d9e4fc181355a6934309b30cee7
  else textHash s

theorem collisionFree :
    ∀ s ∈ hashed truncating keccak256 domain (intent 5) ++
        hashed truncating keccak256 domain (intent 6),
      ∀ t ∈ hashed truncating keccak256 domain (intent 5) ++
          hashed truncating keccak256 domain (intent 6),
        keccak256 s = keccak256 t → s = t := by
  decide +kernel

end Sample

/-- Floors of 5 and 6 have different digests. -/
theorem hash_unambiguous_iff_floors :
    Unambiguous Sample.truncating Sample.keccak256 Sample.domain (Sample.intent 5)
      (Sample.intent 6) :=
  (hash_unambiguous_iff (Sample.accepted (ascii "5") (by decide +kernel))
    (Sample.accepted (ascii "6") (by decide +kernel)) Sample.domain).mpr
      ⟨⟨by decide, by decide, by decide⟩, by decide, by decide, by decide⟩
      Sample.truncating Sample.keccak256 Sample.truncating_standard
      fun s hs t ht => Sample.collisionFree s hs t ht

/-- A floor of 2^256 is accepted. An encoder that cuts it down gives it the digest of a floor of 0,
and one that refuses it gives it none. -/
theorem hash_ambiguous_beyond_word :
    Sample.submitted (ascii
        "115792089237316195423570985008687907853269984665640564039457584007913129639936") =
      .ok ⟨0, Sample.intent (2 ^ 256)⟩ ∧
      Sample.submitted (ascii "0") = .ok ⟨0, Sample.intent 0⟩ ∧
      terms (Sample.intent (2 ^ 256)) ≠ terms (Sample.intent 0) ∧
      (Sample.truncating.Standard ∧ ∀ keccak256 domain,
        hashIntent Sample.truncating keccak256 domain (Sample.intent (2 ^ 256)) =
          hashIntent Sample.truncating keccak256 domain (Sample.intent 0)) ∧
      (refusing.Standard ∧ ∀ keccak256 domain,
        ¬ ∃ digest, hashIntent refusing keccak256 domain (Sample.intent (2 ^ 256)) =
          .ok digest) := by
  refine ⟨by decide +kernel, by decide +kernel, by decide, ⟨Sample.truncating_standard, fun _ _ => ?_⟩,
    refusing_standard, fun _ _ => ?_⟩
  · refine hashIntent_congr Sample.truncating_standard ?_ (by rfl)
    intro n _
    exact ⟨_, rfl⟩
  · rw [hashIntent_ok_iff refusing_standard]
    intro encodable
    exact absurd (fits_of_encodable encodable).2.1.2 (by decide)

end VynxRelayer.Signer
