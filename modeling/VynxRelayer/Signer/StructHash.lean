import VynxRelayer.Lib.StructType
import VynxRelayer.Signer.TypedData

/-!
# The digest is that of EIP-712

EIP-712 defines the digest of any message from the text of its type. `hashStruct` is that
definition: it reads the declared members out of the type string, encodes the value of each as its
declared type says, in the declared order, and hashes the result behind the hash of the string;
`digest` joins the hashes of the domain and of the message. Nothing in it knows of intents.

`eip712.go` does not read its type strings. It lists by hand what each struct's encoding is made of,
with strings hashed beforehand and numbers converted. The two lists agree with the two strings member
by member (`domainArguments_agree`, `intentArguments_agree`), so for every domain, and every intent
whose numbers fit a word, `HashIntent` returns the digest that EIP-712 defines (`hashIntent_eip712`).
-/

namespace VynxRelayer.Signer

open Lib

/-! ## EIP-712 -/

/-- The types that members are declared with. -/
inductive MemberType where
  | string
  | uint256
  | address
  deriving DecidableEq

def MemberType.named (name : Bytes) : Option MemberType :=
  if name = ascii "string" then some .string
  else if name = ascii "uint256" then some .uint256
  else if name = ascii "address" then some .address
  else none

/-- The value of a member. -/
inductive MemberValue where
  | string (s : Bytes)
  | uint256 (n : Int)
  | address (a : Address)
  deriving DecidableEq

namespace Eip712

section

variable (keccak256 : Bytes → FixedBytes 32)

/-- A string is hashed, a number is written big-endian and an address behind zeros, in 32 bytes
each. A value of another type than the declared one has no encoding, and neither has a number that
does not fit. -/
def encodeValue : MemberType → MemberValue → Option Bytes
  | .string, .string s => some (keccak256 s).bytes
  | .uint256, .uint256 n => if Abi.Fits n then some (word n.toNat).bytes else none
  | .address, .address a => some (List.replicate 12 0 ++ a.bytes)
  | _, _ => none

def atoms : Atoms MemberType MemberValue where
  named := MemberType.named
  encode := encodeValue keccak256

/-- The hash of a struct: its type's text, and its members' values by name. -/
def hashStruct (typeString : Bytes) (value : Bytes → Option MemberValue) :
    Option (FixedBytes 32) := do
  let type ← StructType.parse typeString
  let data ← encodeData (atoms keccak256) value type.members
  return keccak256 ((keccak256 typeString).bytes ++ data)

/-- The digest of a message under a domain. -/
def digest (domainType : Bytes) (domain : Bytes → Option MemberValue) (messageType : Bytes)
    (message : Bytes → Option MemberValue) : Option (FixedBytes 32) := do
  let domainHash ← hashStruct keccak256 domainType domain
  let messageHash ← hashStruct keccak256 messageType message
  return keccak256 ([0x19, 0x01] ++ domainHash.bytes ++ messageHash.bytes)

end

end Eip712

/-- The members of a domain. -/
def Domain.member (d : Domain) (name : Bytes) : Option MemberValue :=
  [(ascii "name", .string d.name), (ascii "version", .string d.version),
    (ascii "chainId", .uint256 d.chainID.toNat),
    (ascii "verifyingContract", .address d.verifyingContract)].lookup name

/-- The members of an intent as its sender signs it. -/
def intentMember (i : Intent) (name : Bytes) : Option MemberValue :=
  [(ascii "sender", .address i.sender), (ascii "tokenIn", .address i.tokenIn),
    (ascii "tokenOut", .address i.tokenOut), (ascii "amountIn", .uint256 i.amountIn),
    (ascii "minAmountOut", .uint256 i.minAmountOut), (ascii "deadline", .uint256 i.deadline.toInt),
    (ascii "nonce", .uint256 i.nonce.toNat)].lookup name

/-! ## The type strings -/

def domainType : StructType where
  name := ascii "EIP712Domain"
  members :=
    [⟨ascii "string", ascii "name"⟩, ⟨ascii "string", ascii "version"⟩,
      ⟨ascii "uint256", ascii "chainId"⟩, ⟨ascii "address", ascii "verifyingContract"⟩]
  plain := by decide +kernel

def intentType : StructType where
  name := ascii "Intent"
  members :=
    [⟨ascii "address", ascii "sender"⟩, ⟨ascii "address", ascii "tokenIn"⟩,
      ⟨ascii "address", ascii "tokenOut"⟩, ⟨ascii "uint256", ascii "amountIn"⟩,
      ⟨ascii "uint256", ascii "minAmountOut"⟩, ⟨ascii "uint256", ascii "deadline"⟩,
      ⟨ascii "uint256", ascii "nonce"⟩]
  plain := by decide +kernel

theorem parse_domainTypeString : StructType.parse domainTypeString = some domainType :=
  StructType.parse_eq_some_iff.mpr (by decide +kernel)

theorem parse_intentTypeString : StructType.parse intentTypeString = some intentType :=
  StructType.parse_eq_some_iff.mpr (by decide +kernel)

/-! ## Member by member -/

section

variable {abi : Abi} {keccak256 : Bytes → FixedBytes 32} {value : Bytes → Option MemberValue}
  {m : Member}

/-- A member and an argument of the encoder have the same word. -/
def Agree (abi : Abi) (keccak256 : Bytes → FixedBytes 32) (value : Bytes → Option MemberValue)
    (m : Member) (arg : AbiValue) : Prop :=
  ∃ word, encodeMember (Eip712.atoms keccak256) value m = some word.bytes ∧
    abi.packElement arg = .ok word

theorem agree_string {s : Bytes} (type : MemberType.named m.type = some .string)
    (found : value m.name = some (.string s)) :
    Agree abi keccak256 value m (.bytes32 (keccak256 s)) := by
  refine ⟨keccak256 s, ?_, rfl⟩
  rw [encodeMember_eq type found]
  rfl

theorem agree_uint256 (standard : abi.Standard) {n : Int} (fits : Abi.Fits n)
    (type : MemberType.named m.type = some .uint256) (found : value m.name = some (.uint256 n)) :
    Agree abi keccak256 value m (.uint256 n) := by
  refine ⟨word n.toNat, ?_, standard.packNum n fits⟩
  rw [encodeMember_eq type found]
  exact if_pos fits

theorem agree_address {a : Address} (type : MemberType.named m.type = some .address)
    (found : value m.name = some (.address a)) : Agree abi keccak256 value m (.address a) := by
  refine ⟨⟨List.replicate 12 0 ++ a.bytes, by simp [a.size]⟩, ?_, rfl⟩
  rw [encodeMember_eq type found]
  rfl

/-- What agrees member by member is encoded alike. -/
theorem pack_encodeData {members : List Member} {args : List AbiValue}
    (agree : List.Forall₂ (Agree abi keccak256 value) members args) :
    ∃ data, encodeData (Eip712.atoms keccak256) value members = some data ∧
      abi.pack args = .ok data := by
  induction agree with
  | nil => exact ⟨[], rfl, rfl⟩
  | cons head _ ih =>
    obtain ⟨word, hencode, hpack⟩ := head
    obtain ⟨data, hdata, hargs⟩ := ih
    refine ⟨word.bytes ++ data, encodeData_cons hencode hdata, ?_⟩
    simp only [Abi.pack, hpack, hargs]

/-- Behind the hash of the type string, it is hashed alike. -/
theorem pack_hashStruct {typeString : Bytes} {type : StructType} {args : List AbiValue}
    (parsed : StructType.parse typeString = some type)
    (agree : List.Forall₂ (Agree abi keccak256 value) type.members args) :
    ∃ encoded, abi.pack (.bytes32 (keccak256 typeString) :: args) = .ok encoded ∧
      Eip712.hashStruct keccak256 typeString value = some (keccak256 encoded) := by
  obtain ⟨data, hdata, hargs⟩ := pack_encodeData agree
  refine ⟨(keccak256 typeString).bytes ++ data, ?_, ?_⟩
  · simp only [Abi.pack, Abi.packElement, hargs]
  · simp only [Eip712.hashStruct, parsed, hdata, Option.bind_eq_bind, Option.bind_some]
    rfl

end

section

variable {abi : Abi}

/-- The arguments of the domain separator, behind the type hash. -/
theorem domainArguments_agree (standard : abi.Standard) (keccak256 : Bytes → FixedBytes 32)
    (domain : Domain) :
    List.Forall₂ (Agree abi keccak256 domain.member) domainType.members
      (domainArguments keccak256 domain).tail := by
  refine .cons (agree_string ?_ ?_) (.cons (agree_string ?_ ?_)
    (.cons (agree_uint256 standard (Abi.fits_toNat _) ?_ ?_) (.cons (agree_address ?_ ?_) .nil)))
  -- the declared type of each member, and the value under its name
  all_goals rfl

/-- The arguments of an intent's hash, behind the type hash. -/
theorem intentArguments_agree (standard : abi.Standard) (keccak256 : Bytes → FixedBytes 32)
    {i : Intent} (fits : Fits i) :
    List.Forall₂ (Agree abi keccak256 (intentMember i)) intentType.members
      (intentArguments keccak256 i).tail := by
  obtain ⟨hin, hout, hdeadline⟩ := fits
  refine .cons (agree_address ?_ ?_) (.cons (agree_address ?_ ?_) (.cons (agree_address ?_ ?_)
    (.cons (agree_uint256 standard hin ?_ ?_) (.cons (agree_uint256 standard hout ?_ ?_)
    (.cons (agree_uint256 standard hdeadline ?_ ?_)
    (.cons (agree_uint256 standard (Abi.fits_toNat _) ?_ ?_) .nil))))))
  -- the declared type of each member, and the value under its name
  all_goals rfl

/-- **`HashIntent` implements EIP-712**: for every domain, and every intent whose amounts and
deadline fit a word, it returns the digest that EIP-712 defines for the two type strings, whatever
the hash function. -/
theorem hashIntent_eip712 (standard : abi.Standard) (keccak256 : Bytes → FixedBytes 32)
    (domain : Domain) {i : Intent} (fits : Fits i) :
    ∃ digest, Eip712.digest keccak256 domainTypeString domain.member intentTypeString
        (intentMember i) = some digest ∧
      hashIntent abi keccak256 domain i = .ok digest := by
  obtain ⟨encoded, hsep, hdomain⟩ := pack_hashStruct parse_domainTypeString
    (domainArguments_agree standard keccak256 domain)
  obtain ⟨struct, hpack, hintent⟩ := pack_hashStruct parse_intentTypeString
    (intentArguments_agree standard keccak256 fits)
  refine ⟨keccak256 (typedData (keccak256 encoded) (keccak256 struct)), ?_,
    hashIntent_of_pack standard hsep hpack⟩
  simp only [Eip712.digest, hdomain, hintent, Option.bind_eq_bind, Option.bind_some]
  rfl

end

/-- A floor of 5, under the digest that Keccak-256 gives it. -/
theorem hashIntent_eip712_floor :
    Fits (Sample.intent 5) ∧
      Eip712.digest Sample.keccak256 domainTypeString Sample.domain.member intentTypeString
        (intentMember (Sample.intent 5)) =
      some (word 0x95ea526520ff75e41c6d8cf0458320504984dede19595b2e00fe354a9689eeed) := by
  have hfits : Fits (Sample.intent 5) := ⟨by decide, by decide, by decide⟩
  obtain ⟨digest, hspec, hcode⟩ := hashIntent_eip712 Sample.truncating_standard Sample.keccak256
    Sample.domain hfits
  have hvalue : hashIntent Sample.truncating Sample.keccak256 Sample.domain (Sample.intent 5) =
      .ok (word 0x95ea526520ff75e41c6d8cf0458320504984dede19595b2e00fe354a9689eeed) := by
    decide +kernel
  rw [hvalue] at hcode
  exact ⟨hfits, hspec.trans (congrArg some (Except.ok.inj hcode).symm)⟩

end VynxRelayer.Signer
