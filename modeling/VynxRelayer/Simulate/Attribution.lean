import VynxRelayer.Signer.KeyVault
import VynxRelayer.Signer.TypedData
import VynxRelayer.Simulate.Driver

/-!
# Whose intent it is

The driver's user signs the digest of an intent and posts the intent with the signature. The relayer
stores both and checks neither; whoever checks later hashes what the relayer has accepted and asks
`RecoverSigner` for the signer.

The answer can be relied on (`signed_intent_attributed`): for a posted intent whose numbers fit,
with a signature that a key made for an intent, it is the address of that key exactly when the
accepted intent has the terms that were signed. The way over the wire, through JSON, hex and decimal
strings, changes nothing that is signed; the ID is not, so it can be exchanged.
-/

namespace VynxRelayer.Simulate

open Lib.Json Ingress Signer

/-- The digests of two intents. -/
def digests (abi : Abi) (keccak256 : Bytes → FixedBytes 32) (domain : Domain) (i j : Intent) :
    Set (FixedBytes 32) :=
  {d | hashIntent abi keccak256 domain i = .ok d ∨ hashIntent abi keccak256 domain j = .ok d}

/-- **A signature is attributed to its key for the terms it was made for.** -/
theorem signed_intent_attributed {abi : Abi} (standard : abi.Standard)
    {keccak256 : Bytes → FixedBytes 32} {domain : Domain} {K : Crypto} {codecs : Codecs}
    {signed posted : Intent} {digest : FixedBytes 32} {priv : K.PrivateKey} {sig : FixedBytes 65}
    {now : Int} {addr : Nat} {accepted : Ref Intent} (fits : Fits signed) (range : InRange posted)
    (hash : hashIntent abi keccak256 domain signed = .ok digest)
    (made : K.sign digest priv = .ok sig) (carried : posted.signature = sig.bytes)
    (received : submitIntent codecs.toIntake now addr (postReq codecs.hex posted) = .ok accepted)
    (collisionFree : Set.InjOn keccak256
      {s | s ∈ hashed abi keccak256 domain signed ++ hashed abi keccak256 domain posted})
    (attributes : K.Attributes (digests abi keccak256 domain signed posted)) :
    ∃ digest', hashIntent abi keccak256 domain accepted.val = .ok digest' ∧
      (recoverSigner K digest' accepted.val.signature = .ok (K.address priv) ↔
        terms accepted.val = terms signed) := by
  obtain ⟨rfl, -, hin, hout, -⟩ := (submitIntent_postReq_iff codecs).mp received
  have hfits : Fits posted := by
    have hdeadline := posted.deadline.toInt_lt
    exact ⟨⟨hin.le, range.1⟩, ⟨hout, range.2.1⟩, range.2.2, by omega⟩
  have hencodable := hfits.encodable standard
  -- the ID is not hashed
  have hsame : hashIntent abi keccak256 domain (valid posted) =
      hashIntent abi keccak256 domain posted := hashIntent_congr standard hencodable rfl
  obtain ⟨digest', hdigest'⟩ : ∃ d, hashIntent abi keccak256 domain posted = .ok d :=
    (hashIntent_ok_iff standard).mpr hencodable
  refine ⟨digest', hsame.trans hdigest', ?_⟩
  have hrecover := attributes.recoverSigner_iff (.inl hash) (.inr hdigest') made
  have hequal : digest' = digest ↔
      hashIntent abi keccak256 domain signed = hashIntent abi keccak256 domain posted := by
    rw [hash, hdigest', Except.ok.injEq, eq_comm]
  change recoverSigner K digest' posted.signature = _ ↔ terms posted = terms signed
  rw [carried, hrecover, hequal,
    hashIntent_eq_iff standard (fits.encodable standard) hencodable collisionFree]
  constructor
  · exact fun h => (fits.terms_eq standard hfits h).symm
  · intro h
    exact (written_of_terms h).symm

/-! ## A signed floor

The intent with a floor of 5 of `VynxRelayer.Signer.TypedData`, signed with the key of the driver's
funder; the signature, and what public key recovery makes of it for the intent with a floor of 6. -/

namespace Sample

def funder : Address := VynxRelayer.Sample.account

def nobody : Address :=
  ⟨[0x15, 0x72, 0x86, 0x18, 0xdb, 0xfe, 0x2f, 0x27, 0x84, 0x15, 0x65, 0x70, 0x2d, 0x42, 0x70, 0x8c,
    0x10, 0xfd, 0xca, 0x0d], rfl⟩

def digest (floor : Int) : FixedBytes 32 :=
  if floor = 5 then word 0x95ea526520ff75e41c6d8cf0458320504984dede19595b2e00fe354a9689eeed
  else word 0x5d3f72c79c6a48034fe9702b9ef2b823436f5d9e4fc181355a6934309b30cee7

def signature : FixedBytes 65 where
  bytes :=
    (word 0x9446c7f16f2ad5aa46d444cbbedbb825f1995c4e7d9d6ca07bbb28aaf1094691).bytes ++
      (word 0x6df679f22fa12e42f0b6ad035e632b3449e87e89f2f02fd1c70cc19e2645afff).bytes ++ [0]
  size := by simp [FixedBytes.size]

/-- The key of the funder, on these digests; a public key is its address. -/
def crypto : Crypto where
  PrivateKey := Unit
  PublicKey := Address
  toECDSA b :=
    if b = (word 0xac0974bec39a17e36ba4a6b4d238ff944bacb478cbed5efcae784d7bf4f2ff80).bytes then .ok ()
    else .error (ascii "not this key")
  publicKey _ := funder
  pubkeyToAddress := id
  sign d _ := if d = digest 5 then .ok signature else .error (ascii "not asked for")
  sigToPub d sig :=
    if sig = signature.bytes ∧ d = digest 5 then .ok funder
    else if sig = signature.bytes ∧ d = digest 6 then .ok nobody
    else .error (ascii "not asked for")

theorem eq_of_sign {d : FixedBytes 32} {priv : Unit} {sig : FixedBytes 65}
    (signed : crypto.sign d priv = .ok sig) : d = digest 5 ∧ sig = signature := by
  simp only [crypto] at signed
  split at signed <;> cases signed
  exact ⟨‹_›, rfl⟩

theorem attributes (digests : Set (FixedBytes 32)) : crypto.Attributes digests where
  recovers d _ _ sig signed := by
    obtain ⟨rfl, rfl⟩ := eq_of_sign signed
    simp only [crypto, and_self, if_true]
  only d _ d' _ _ sig pub signed recovered same := by
    obtain ⟨rfl, rfl⟩ := eq_of_sign signed
    simp only [crypto] at recovered
    split at recovered
    · exact (‹_ ∧ _›).2
    · split at recovered <;> cases recovered
      exact absurd (show nobody = funder from same) (by decide)

/-- The signed intent, posted with another floor. -/
def posted (floor : Int) : Intent := { Signer.Sample.intent floor with signature := signature.bytes }

theorem received {floor : Int} (nonneg : 0 ≤ floor) :
    submitIntent readers.toIntake 0 0 (postReq readers.hex (posted floor)) =
      .ok ⟨0, valid (posted floor)⟩ :=
  (submitIntent_postReq_iff readers).mpr
    ⟨rfl, (by decide : (ascii "1" : Bytes) ≠ []), (by decide : (0 : Int) < 10), nonneg,
      (by decide : unixAfter 1775000000 0 = true)⟩

theorem hash : hashIntent Signer.Sample.truncating Signer.Sample.keccak256 Signer.Sample.domain
    (Signer.Sample.intent 5) = .ok (digest 5) := by
  decide +kernel

theorem fits {floor : Int} (h : Abi.Fits floor) : Fits (Signer.Sample.intent floor) :=
  ⟨(by decide : Abi.Fits 10), h, (by decide : Abi.Fits (1775000000 : Int64).toInt)⟩

theorem collisionFree {floor : Int} (h : floor = 5 ∨ floor = 6) :
    Set.InjOn Signer.Sample.keccak256
      {s | s ∈ hashed Signer.Sample.truncating Signer.Sample.keccak256 Signer.Sample.domain
          (Signer.Sample.intent 5) ++
        hashed Signer.Sample.truncating Signer.Sample.keccak256 Signer.Sample.domain
          (posted floor)} := by
  have hinj : Set.InjOn Signer.Sample.keccak256
      {s | s ∈ hashed Signer.Sample.truncating Signer.Sample.keccak256 Signer.Sample.domain
          (Signer.Sample.intent 5) ++
        hashed Signer.Sample.truncating Signer.Sample.keccak256 Signer.Sample.domain
          (Signer.Sample.intent 6)} :=
    fun s hs t ht => Signer.Sample.collisionFree s hs t ht
  rcases h with rfl | rfl
  · refine hinj.mono fun s hs => List.mem_append_left _ ?_
    exact (List.mem_append.mp hs).elim id id
  · exact hinj

end Sample

/-- The floor that was signed is attributed to the funder, and a floor of 6 is not. -/
theorem signed_intent_attributed_floors :
    (∃ digest', hashIntent Signer.Sample.truncating Signer.Sample.keccak256 Signer.Sample.domain
        (valid (Sample.posted 5)) = .ok digest' ∧
      recoverSigner Sample.crypto digest' (Sample.posted 5).signature = .ok Sample.funder) ∧
    (∃ digest', hashIntent Signer.Sample.truncating Signer.Sample.keccak256 Signer.Sample.domain
        (valid (Sample.posted 6)) = .ok digest' ∧
      recoverSigner Sample.crypto digest' (Sample.posted 6).signature ≠ .ok Sample.funder) := by
  have hmade : Sample.crypto.sign (Sample.digest 5) () = .ok Sample.signature := by
    simp only [Sample.crypto, if_true]
  have hattributed := fun floor (h : floor = 5 ∨ floor = 6) (hfits : Abi.Fits floor) =>
    signed_intent_attributed Signer.Sample.truncating_standard
      (Sample.fits (by decide : Abi.Fits 5))
      (show InRange (Sample.posted floor) from (Sample.fits hfits).inRange) Sample.hash hmade rfl
      (Sample.received hfits.1) (Sample.collisionFree h) (Sample.attributes _)
  constructor
  · obtain ⟨digest', hdigest', hiff⟩ := hattributed 5 (.inl rfl) (by decide)
    exact ⟨digest', hdigest', hiff.mpr rfl⟩
  · obtain ⟨digest', hdigest', hiff⟩ := hattributed 6 (.inr rfl) (by decide)
    refine ⟨digest', hdigest', fun h => ?_⟩
    have hfloor : (6 : Int) = 5 := congrArg (fun t => t.2.2.2.2.1) (hiff.mp h)
    exact absurd hfloor (by decide)

end VynxRelayer.Simulate
