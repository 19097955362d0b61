import VynxRelayer.Ingress.Parsing

/-!
# The key vault

`internal/signer/key_vault.go`, and `RecoverSigner` of `eip712.go`. Keys, signatures and addresses
are go-ethereum's: `Crypto` is what is called of its `crypto` package, as parameters. What is relied
on of signatures is said where it is used (`Crypto.Attributes`).

The vault takes the texts whose hex digits are the bytes of a key, as `crypto.ToECDSA` decides. The
decoded bytes are cleared before it returns, but only once they are all decoded: a key with one
digit or one other character too many leaves its bytes behind in memory (`vault_exact`).
-/

namespace VynxRelayer.Signer

open Lib.Json Ingress

/-- What is called of go-ethereum's `crypto`. An error is its text. -/
structure Crypto where
  PrivateKey : Type
  PublicKey : Type
  toECDSA : Bytes → Except Bytes PrivateKey
  publicKey : PrivateKey → PublicKey
  pubkeyToAddress : PublicKey → Address
  sign : FixedBytes 32 → PrivateKey → Except Bytes (FixedBytes 65)
  sigToPub : FixedBytes 32 → Bytes → Except Bytes PublicKey

/-- The address of a key. -/
def Crypto.address (K : Crypto) (priv : K.PrivateKey) : Address :=
  K.pubkeyToAddress (K.publicKey priv)

/-- A vault holds a key and its address. -/
structure KeyVault (K : Crypto) where
  priv : K.PrivateKey
  addr : Address
  derived : addr = K.address priv

/-! ## Opening a vault -/

/-- `strconv.IsPrint` on the code points below 256. -/
def isPrint (b : UInt8) : Bool :=
  decide (0x20 ≤ b ∧ b < 0x7F) || decide (0xA1 ≤ b ∧ b ≠ 0xAD)

/-- A hex digit in upper case. -/
def hexUpper (n : UInt8) : UInt8 := if n < 10 then 48 + n else 55 + n

/-- The text of an error of `encoding/hex`, where a byte is shown as `%#U` shows its code point. -/
def hexErrorText : HexError → Bytes
  | .length => ascii "encoding/hex: odd length hex string"
  | .invalidByte b =>
    ascii "encoding/hex: invalid byte: U+00" ++ [hexUpper (b / 16), hexUpper (b % 16)] ++
      if isPrint b then ascii " '" ++ encodeRune b.toNat ++ ascii "'" else []

/-- The errors of `NewKeyVaultFromHex`: the hex does not decode, or it is no key. -/
inductive VaultError where
  | hex (err : HexError)
  | key (cause : Bytes)
  deriving DecidableEq

def VaultError.text : VaultError → Bytes
  | .hex err => ascii "failed to decode private key hex: " ++ hexErrorText err
  | .key cause => ascii "failed to parse ECDSA private key: " ++ cause

section

variable (K : Crypto)

/-- `NewKeyVaultFromHex`: what it returns, and the buffer of decoded bytes it leaves in memory. -/
def newKeyVaultFromHex (hexKey : Bytes) : Except VaultError (KeyVault K) × Bytes :=
  match hexDecode hexKey with
  -- returns before `clear(b)`
  | (b, some err) => (.error (.hex err), b)
  | (b, none) =>
    let cleared := List.replicate b.length 0
    match K.toECDSA b with
    | .error cause => (.error (.key cause), cleared)
    | .ok priv => (.ok ⟨priv, K.address priv, rfl⟩, cleared)

/-- **The keys the vault takes, and the bytes it leaves behind.** Every text is pairs of hex digits
and a rest that does not begin with another pair. Without a rest the vault is that of the key which
the bytes are, or the error is that they are none, and the bytes are cleared. With a rest, be it one
more digit or anything else, the error names what is wrong with it, and the decoded bytes stay. -/
theorem vault_exact (hexKey : Bytes) :
    (∃ digits b rest err, hexKey = digits ++ rest ∧ HexOf digits b ∧ Unread rest err) ∧
    ∀ digits b rest err, hexKey = digits ++ rest → HexOf digits b → Unread rest err →
      (∀ e, err = some e → newKeyVaultFromHex K hexKey = (.error (.hex e), b)) ∧
      (err = none → (newKeyVaultFromHex K hexKey).2 = List.replicate b.length 0 ∧
        (∀ vault, (newKeyVaultFromHex K hexKey).1 = .ok vault ↔ K.toECDSA b = .ok vault.priv) ∧
        ∀ cause, (newKeyVaultFromHex K hexKey).1 = .error (.key cause) ↔
          K.toECDSA b = .error cause) := by
  refine ⟨exists_hexOf_append hexKey, fun digits b rest err htext hdigits hunread => ?_⟩
  have hdecode : hexDecode hexKey = (b, err) :=
    hexDecode_eq_iff.mpr ⟨digits, rest, htext, hdigits, hunread⟩
  refine ⟨?_, ?_⟩
  · rintro e rfl
    simp only [newKeyVaultFromHex, hdecode]
  · rintro rfl
    simp only [newKeyVaultFromHex, hdecode]
    cases K.toECDSA b with
    | error cause => simp
    | ok priv =>
      refine ⟨rfl, fun vault => ?_, fun cause => by simp⟩
      obtain ⟨priv', addr, rfl⟩ := vault
      simp only [Except.ok.injEq, KeyVault.mk.injEq]
      constructor
      · exact fun h => h.1
      · rintro rfl
        exact ⟨rfl, rfl⟩

/-- 65 hex digits: 32 bytes of them stay. -/
example : newKeyVaultFromHex K (List.replicate 65 49) =
    (.error (.hex .length), List.replicate 32 0x11) := rfl

end

/-! ## Signing and recovering -/

variable {K : Crypto}

/-- `Sign`. -/
def KeyVault.sign (v : KeyVault K) (digest : FixedBytes 32) : Except Bytes (FixedBytes 65) :=
  match K.sign digest v.priv with
  | .error err => .error (ascii "failed to sign digest: " ++ err)
  | .ok sig => .ok sig

/-- `RecoverSigner`. -/
def recoverSigner (K : Crypto) (hash : FixedBytes 32) (sig : Bytes) : Except Bytes Address :=
  if sig.length ≠ 65 then
    .error (ascii "invalid signature length: got " ++ decimalNat sig.length ++ ascii ", want 65")
  else
    match K.sigToPub hash sig with
    | .error err => .error (ascii "failed to recover public key from signature: " ++ err)
    | .ok pubKey => .ok (K.pubkeyToAddress pubKey)

/-- What is relied on of signatures, among some digests: the signature of a digest recovers its key,
and for another one of the digests it recovers nothing with the address of that key. -/
structure Crypto.Attributes (K : Crypto) (digests : Set (FixedBytes 32)) : Prop where
  recovers : ∀ digest ∈ digests, ∀ priv sig, K.sign digest priv = .ok sig →
    K.sigToPub digest sig.bytes = .ok (K.publicKey priv)
  only : ∀ digest ∈ digests, ∀ digest' ∈ digests, ∀ priv sig pub, K.sign digest priv = .ok sig →
    K.sigToPub digest' sig.bytes = .ok pub → K.pubkeyToAddress pub = K.address priv →
      digest' = digest

/-- A signature is attributed to its key for the digest it was made for, and for no other. -/
theorem Crypto.Attributes.recoverSigner_iff {digests : Set (FixedBytes 32)}
    (attributes : K.Attributes digests) {digest digest' : FixedBytes 32} (mem : digest ∈ digests)
    (mem' : digest' ∈ digests) {priv : K.PrivateKey} {sig : FixedBytes 65}
    (signed : K.sign digest priv = .ok sig) :
    recoverSigner K digest' sig.bytes = .ok (K.address priv) ↔ digest' = digest := by
  rw [recoverSigner, if_neg (not_not.mpr sig.size)]
  constructor
  · intro recovered
    cases hpub : K.sigToPub digest' sig.bytes with
    | error err => rw [hpub] at recovered; cases recovered
    | ok pub =>
      rw [hpub] at recovered
      exact attributes.only digest mem digest' mem' priv sig pub signed hpub
        (Except.ok.inj recovered)
  · rintro rfl
    rw [attributes.recovers digest' mem priv sig signed]
    rfl

end VynxRelayer.Signer
