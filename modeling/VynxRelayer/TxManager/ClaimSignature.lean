import Mathlib.Data.Set.Function
import VynxRelayer.Lib.BigEndian
import VynxRelayer.TxManager.Executor

/-!
# What a claim's signature proves

`execute` signs the digest of one escrow and one solver and hands both to `claimFunds` with the
signature. The contract's side is written here from its documentation: it hashes the arguments it
was called with, puts the EIP-191 text in front, and recovers a signer, taking a recovery byte of 27
or 28 only. `claim_signature_exact`: the signature recovers the vault's address for the escrow and
the solver of its own call and for nothing else.

The curve is not modelled. `Recovery` is public key recovery with the recovery byte counted from 0,
and `SignsFor` is what is asked of the key vault: a signature recovers its signer for the digest it
was made for, and for no other. Of the hash function it is asked that the strings hashed on the two
sides do not collide.
-/

namespace VynxRelayer.TxManager

/-! ## The contract's check -/

/-- The address that a digest, `R ‖ S` and a recovery byte in {0, 1} give. -/
abbrev Recovery := FixedBytes 32 → Bytes → UInt8 → Option Address

/-- `R ‖ S` of a signature. -/
def rs (sig : FixedBytes 65) : Bytes := sig.bytes.take 64

/-- The recovery byte of a signature. -/
def v (sig : FixedBytes 65) : UInt8 := sig.bytes.getD 64 0

/-- `abi.encodePacked(intentId, solver)`. -/
def encodePacked (intentId : FixedBytes 32) (solver : Address) : Bytes :=
  intentId.bytes ++ solver.bytes

/-- A 32-byte hash behind the EIP-191 text. -/
def ethSignedMessage (messageHash : FixedBytes 32) : Bytes :=
  0x19 :: ascii "Ethereum Signed Message:\n32" ++ messageHash.bytes

/-- OpenZeppelin's `ECDSA.recover`, which does not normalise the recovery byte. -/
def ecdsaRecover (recover : Recovery) (digest : FixedBytes 32) (sig : FixedBytes 65) :
    Option Address :=
  if v sig = 27 ∨ v sig = 28 then recover digest (rs sig) (v sig - 27) else none

/-- The signer `claimFunds` recovers for its arguments. -/
def claimSigner (keccak256 : Bytes → FixedBytes 32) (recover : Recovery) (intentId : FixedBytes 32)
    (solver : Address) (relayerSignature : FixedBytes 65) : Option Address :=
  ecdsaRecover recover (keccak256 (ethSignedMessage (keccak256 (encodePacked intentId solver))))
    relayerSignature

/-- A vault signs for an address: its signatures have a recovery byte in {0, 1}, and recover that
address for the digest they were made for and for no other. -/
structure SignsFor (recover : Recovery) (sign : FixedBytes 32 → Except Bytes (FixedBytes 65))
    (signer : Address) : Prop where
  parity : ∀ digest sig, sign digest = .ok sig → v sig = 0 ∨ v sig = 1
  recovers : ∀ digest sig, sign digest = .ok sig → recover digest (rs sig) (v sig) = some signer
  only : ∀ digest sig digest', sign digest = .ok sig →
    recover digest' (rs sig) (v sig) = some signer → digest' = digest

/-- The strings hashed for one claim. -/
def hashed (keccak256 : Bytes → FixedBytes 32) (intentId : FixedBytes 32) (solver : Address) :
    List Bytes :=
  [encodePacked intentId solver, ethSignedMessage (keccak256 (encodePacked intentId solver))]

/-! ## The digest -/

/-- The relayer signs what the contract verifies. -/
theorem claimDigest_eq (keccak256 : Bytes → FixedBytes 32) (intentId : FixedBytes 32)
    (solver : Address) :
    claimDigest keccak256 intentId solver =
      keccak256 (ethSignedMessage (keccak256 (encodePacked intentId solver))) :=
  rfl

theorem ethSignedMessage_inj {h h' : FixedBytes 32} (same : ethSignedMessage h = ethSignedMessage h') :
    h = h' := by
  unfold ethSignedMessage at same
  have hbytes : h.bytes = h'.bytes := List.append_cancel_left same
  exact FixedBytes.eq_of_bytes hbytes

/-- Both parts of the packed encoding have a fixed length, so nothing separates them and nothing
has to. -/
theorem encodePacked_inj {id id' : FixedBytes 32} {solver solver' : Address}
    (same : encodePacked id solver = encodePacked id' solver') : id = id' ∧ solver = solver' := by
  unfold encodePacked at same
  obtain ⟨hid, hsolver⟩ := List.append_inj same (id.size.trans id'.size.symm)
  cases id; cases id'; cases solver; cases solver'
  cases hid; cases hsolver
  exact ⟨rfl, rfl⟩

/-- Digests without collisions determine the escrow and the solver. -/
theorem claimDigest_inj {keccak256 : Bytes → FixedBytes 32} {id id' : FixedBytes 32}
    {solver solver' : Address}
    (collisionFree : Set.InjOn keccak256
      {s | s ∈ hashed keccak256 id solver ++ hashed keccak256 id' solver'})
    (same : claimDigest keccak256 id' solver' = claimDigest keccak256 id solver) :
    id' = id ∧ solver' = solver := by
  rw [claimDigest_eq, claimDigest_eq] at same
  have houter := collisionFree (by simp [hashed]) (by simp [hashed]) same
  have hinner := collisionFree (by simp [hashed]) (by simp [hashed]) (ethSignedMessage_inj houter)
  exact encodePacked_inj hinner

/-! ## The recovery byte -/

/-- `normalizeV` moves a recovery byte of {0, 1} to {27, 28} and leaves `R ‖ S` alone. -/
theorem normalizeV_of_parity {sig : FixedBytes 65} (parity : v sig = 0 ∨ v sig = 1) :
    rs (normalizeV sig) = rs sig ∧ v (normalizeV sig) = v sig + 27 := by
  have hlt : 64 < sig.bytes.length := by rw [sig.size]; decide
  constructor
  · change (sig.bytes.modify 64 _).take 64 = sig.bytes.take 64
    rw [List.modify_eq_set_get _ hlt]
    exact List.take_set_of_le (Nat.le_refl 64)
  · have hv : sig.bytes[64] = v sig := by simp [v, hlt]
    have hsmall : v sig < 27 := by rcases parity with h | h <;> rw [h] <;> decide
    rw [v]
    simp [normalizeV, hlt, hv, hsmall]

/-- The contract recovers from the normalised signature what the curve recovers from the raw one. -/
theorem ecdsaRecover_normalizeV (recover : Recovery) (digest : FixedBytes 32) {sig : FixedBytes 65}
    (parity : v sig = 0 ∨ v sig = 1) :
    ecdsaRecover recover digest (normalizeV sig) = recover digest (rs sig) (v sig) := by
  obtain ⟨hrs, hv⟩ := normalizeV_of_parity parity
  unfold ecdsaRecover
  rw [hrs, hv]
  rcases parity with h | h <;> rw [h] <;> rfl

/-- What a vault signed for one escrow and solver is good for these and for nothing else. -/
theorem SignsFor.claimSigner_iff {keccak256 : Bytes → FixedBytes 32} {recover : Recovery}
    {sign : FixedBytes 32 → Except Bytes (FixedBytes 65)} {signer : Address}
    (vault : SignsFor recover sign signer) {id id' : FixedBytes 32} {solver solver' : Address}
    {raw : FixedBytes 65} (signed : sign (claimDigest keccak256 id solver) = .ok raw)
    (collisionFree : Set.InjOn keccak256
      {s | s ∈ hashed keccak256 id solver ++ hashed keccak256 id' solver'}) :
    claimSigner keccak256 recover id' solver' (normalizeV raw) = some signer ↔
      id' = id ∧ solver' = solver := by
  rw [claimSigner, ecdsaRecover_normalizeV recover _ (vault.parity _ _ signed),
    ← claimDigest_eq keccak256 id' solver']
  constructor
  · intro recovered
    exact claimDigest_inj collisionFree (vault.only _ _ _ signed recovered)
  · rintro ⟨rfl, rfl⟩
    exact vault.recovers _ _ signed

/-- **A claim's signature is good for its own escrow and solver and for nothing else.** Whatever the
contract is called with later, the signature of a `ClaimFunds` call recovers the vault's address
exactly when the escrow and the solver are those of that call. -/
theorem claim_signature_exact {env : Setup} {out : Outside} {q : NonceQueue} {v : Voucher}
    {a : Attempt} {recover : Recovery} (made : (execute env out q v).attempt = some a)
    (vault : SignsFor recover out.sign env.vaultAddr) (id : FixedBytes 32) (solver : Address)
    (collisionFree : Set.InjOn env.keccak256
      {s | s ∈ hashed env.keccak256 a.call.intentId a.call.solver ++
        hashed env.keccak256 id solver}) :
    claimSigner env.keccak256 recover id solver a.call.relayerSignature = some env.vaultAddr ↔
      id = a.call.intentId ∧ solver = a.call.solver := by
  obtain ⟨hid, hsolver, raw, hraw, hsig⟩ := execute_attempt made
  rw [voucherDigest, ← hid, ← hsolver] at hraw
  rw [hsig]
  exact vault.claimSigner_iff hraw collisionFree

/-! ## A front runner

The claim of `voucher` and the one a front runner would like to make of its signature, with the
strings that are hashed for them and their Keccak-256 digests. -/

namespace Sample

open VynxRelayer.Sample

def escrow : FixedBytes 32 := intentIDBytes ⟨[1]⟩

def messageHash : FixedBytes 32 :=
  word 0xea2495ccde33582efbb776c00bbee6449af0d6d33a1e8d18db2b7ffc69c1b9e8

def foreignHash : FixedBytes 32 :=
  word 0xf8bfdaa960a358e7a8a71bcf97959ffad4ca79e2218a3ccb051e120951f79998

/-- Keccak-256 on the strings of the two claims. -/
def keccak256 (s : Bytes) : FixedBytes 32 :=
  if s = encodePacked escrow (address 4) then messageHash
  else if s = ethSignedMessage messageHash then
    word 0xab28e45306614a4f9b76235dec604eb1dcc50da6dafd79f79e4ad1365b77d88a
  else if s = encodePacked escrow (address 3) then foreignHash
  else if s = ethSignedMessage foreignHash then
    word 0xaae7d56b6ed4d65c1215f138219367a93120efdbaaa60f546b4d21a12905e4a7
  else word 0

/-- The address of the key that signs. -/
def relayer : Address := account

def hashing : Setup := ⟨keccak256, relayer⟩

/-- Its signature on the digest of the claim: R, S and a recovery byte of 1. -/
def signature : FixedBytes 65 where
  bytes :=
    (word 0xc2af736e15c1f5fd3fd4d869e88cff49ca4ae07306effd5f8416ad550dcdc07e).bytes ++
      (word 0x168972b199b74877334bcf28819f9f868e4ff32cc33d37b556ac5ca3f2954840).bytes ++ [1]
  size := by simp [FixedBytes.size]

def sign (digest : FixedBytes 32) : Except Bytes (FixedBytes 65) :=
  if digest = claimDigest keccak256 escrow (address 4) then .ok signature
  else .error (ascii "not asked for")

/-- Public key recovery from that signature, for the digest of the claim and for that of the front
runner, where it gives the address of nobody. -/
def recover (digest : FixedBytes 32) (r : Bytes) (parity : UInt8) : Option Address :=
  if r = rs signature ∧ parity = v signature then
    if digest = claimDigest keccak256 escrow (address 4) then some relayer
    else if digest = claimDigest keccak256 escrow (address 3) then
      some ⟨[0x2a, 0x76, 0x7e, 0xf6, 0x1c, 0xaf, 0x53, 0xb0, 0x00, 0x62, 0x1f, 0x40, 0xd5, 0x3a,
        0xe3, 0xb4, 0x86, 0x46, 0x43, 0x0c], rfl⟩
    else none
  else none

theorem eq_of_sign {digest : FixedBytes 32} {sig : FixedBytes 65} (signed : sign digest = .ok sig) :
    digest = claimDigest keccak256 escrow (address 4) ∧ sig = signature := by
  unfold sign at signed
  split at signed <;> cases signed
  exact ⟨‹_›, rfl⟩

theorem signsFor : SignsFor recover sign relayer where
  parity _ _ signed := by
    rw [(eq_of_sign signed).2]
    exact .inr rfl
  recovers _ _ signed := by
    obtain ⟨rfl, rfl⟩ := eq_of_sign signed
    rw [recover, if_pos ⟨rfl, rfl⟩, if_pos rfl]
  only digest _ digest' signed recovered := by
    obtain ⟨rfl, rfl⟩ := eq_of_sign signed
    rw [recover, if_pos ⟨rfl, rfl⟩] at recovered
    split at recovered
    · assumption
    · split at recovered
      · exact absurd recovered (by decide)
      · cases recovered

def signing : Outside := ⟨sign, .ok 1, fun _ => .ok (), .ok 0⟩

theorem collisionFree : ∀ s ∈ hashed keccak256 escrow (address 4) ++
    hashed keccak256 escrow (address 3), ∀ t ∈ hashed keccak256 escrow (address 4) ++
    hashed keccak256 escrow (address 3), keccak256 s = keccak256 t → s = t := by
  decide +kernel

theorem exists_call : ∃ a, (execute hashing signing ⟨0⟩ voucher).attempt = some a ∧
    a.call.intentId = escrow ∧ a.call.solver = address 4 := by
  have hsigned : signing.sign (voucherDigest hashing voucher) = .ok signature := by
    change sign (claimDigest keccak256 escrow (address 4)) = .ok signature
    rw [sign, if_pos rfl]
  have htipped : signing.suggestGasTipCap = .ok 1 := rfl
  obtain ⟨a, made, -⟩ := Option.map_eq_some_iff.mp (attempt_of_signed hsigned htipped)
  obtain ⟨hid, hsolver, -⟩ := execute_attempt made
  exact ⟨a, made, hid, hsolver⟩

end Sample

open VynxRelayer.Sample in
/-- The claim for solver 4 is accepted with its signature, and one for solver 3 is not. -/
theorem claim_signature_exact_front_runner :
    ∃ a, (execute Sample.hashing Sample.signing ⟨0⟩ voucher).attempt = some a ∧
      claimSigner Sample.keccak256 Sample.recover Sample.escrow (address 4)
        a.call.relayerSignature = some Sample.relayer ∧
      claimSigner Sample.keccak256 Sample.recover Sample.escrow (address 3)
        a.call.relayerSignature ≠ some Sample.relayer := by
  obtain ⟨a, made, hid, hsolver⟩ := Sample.exists_call
  have hexact := fun solver (free : Set.InjOn Sample.keccak256
      {s | s ∈ hashed Sample.keccak256 a.call.intentId a.call.solver ++
        hashed Sample.keccak256 Sample.escrow solver}) =>
    claim_signature_exact made Sample.signsFor Sample.escrow solver free
  rw [hid, hsolver] at hexact
  have hfree := Sample.collisionFree
  refine ⟨a, made, (hexact (address 4) ?_).mpr ⟨rfl, rfl⟩, fun recovered => ?_⟩
  · intro s hs t ht
    refine hfree s ?_ t ?_ <;> simp_all
  · have hsame := ((hexact (address 3) fun s hs t ht => hfree s hs t ht).mp recovered).2
    exact absurd hsame (by decide)

end VynxRelayer.TxManager
