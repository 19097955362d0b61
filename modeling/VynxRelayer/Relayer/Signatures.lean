import VynxRelayer.Relayer.Settlement
import VynxRelayer.Signer.KeyVault
import VynxRelayer.TxManager.ClaimSignature

/-!
# What the signatures of a run are good for

A `ClaimFunds` call puts the vault's signature on chain, for everybody to read before it is mined.
`VynxRelayer.TxManager.ClaimSignature` says of one signature that it verifies for the escrow and the
solver of its own call only. Over a whole run of the relayer with one vault, whatever the
interleaving: an escrow can be claimed for a solver with one of the signatures exactly when the run
claimed it for that solver, and then a submitted intent of that escrow was won by it
(`signatures_exact`). Which calls the node takes makes no difference: a signature is out when the
call was made.
-/

namespace VynxRelayer.Relayer

open Lib Lib.Json Auction Ingress Signer TxManager

/-- Some signature of the run verifies for a claim. -/
def Claimable (keccak256 : Bytes → FixedBytes 32) (recover : Recovery) (signer : Address)
    (tr : List Event) (id : FixedBytes 32) (solver : Address) : Prop :=
  ∃ v a err, .executed v (some a) err ∈ tr ∧
    claimSigner keccak256 recover id solver a.call.relayerSignature = some signer

/-- The run made the claim. -/
def Claimed (tr : List Event) (id : FixedBytes 32) (solver : Address) : Prop :=
  ∃ v a err, .executed v (some a) err ∈ tr ∧ a.call.intentId = id ∧ a.call.solver = solver

/-- What is hashed for a claim, and for all those of a run. -/
def hashedWith (keccak256 : Bytes → FixedBytes 32) (tr : List Event) (id : FixedBytes 32)
    (solver : Address) : Set Bytes :=
  {t | ∃ id' solver', (id' = id ∧ solver' = solver ∨ Claimed tr id' solver') ∧
    t ∈ hashed keccak256 id' solver'}

variable {p : Platform} {buf : Buffers} {q : NonceQueue} {as : List Action} {tr : List Event}
  {s : State}

/-- A claim of a run is for an intent that was submitted, and the solver won it. -/
theorem Claimed.won {id : FixedBytes 32} {solver : Address}
    (h : (system p).Path (.init buf q) tr s) (claimed : Claimed tr id solver) :
    ∃ g v, .enqueued g v.intent ∈ tr ∧ .engine (.emitted g v) ∈ tr ∧
      intentIDBytes v.intent.val.id = id ∧ v.winningSolver = solver := by
  obtain ⟨v, a, err, hexecuted, rfl, rfl⟩ := claimed
  obtain ⟨g, hemitted⟩ := executed_emitted h hexecuted
  obtain ⟨hregistered, hid⟩ := emitted_registered (engine_path h) hemitted
  obtain ⟨hcall, hsolver⟩ := executed_call h hexecuted
  refine ⟨g, v, ?_, mem_engineTrace.mp hemitted, ?_, hsolver.symm⟩
  · exact invoked_enqueued h (registered_invoked (engine_path h) hregistered)
  · rw [hcall, hid]

/-- **The signatures of a run open what the run claimed, and nothing else.** -/
theorem signatures_exact {K : Crypto} {vault : KeyVault K} {recover : Recovery}
    (signsFor : SignsFor recover vault.sign vault.addr)
    (played : (system p).run (.init buf q) as = some (s, tr))
    (signs : ∀ out, .execute out ∈ as → out.sign = vault.sign) (id : FixedBytes 32)
    (solver : Address)
    (collisionFree : Set.InjOn p.setup.keccak256 (hashedWith p.setup.keccak256 tr id solver)) :
    (Claimable p.setup.keccak256 recover vault.addr tr id solver ↔ Claimed tr id solver) ∧
      (Claimed tr id solver → ∃ g v, .enqueued g v.intent ∈ tr ∧ .engine (.emitted g v) ∈ tr ∧
        intentIDBytes v.intent.val.id = id ∧ v.winningSolver = solver) := by
  have hpath := System.pathOn_mem_of_run played
  -- one call: its signature is for its own escrow and solver
  have hone : ∀ v a err, .executed v (some a) err ∈ tr →
      (claimSigner p.setup.keccak256 recover id solver a.call.relayerSignature = some vault.addr ↔
        id = a.call.intentId ∧ solver = a.call.solver) := by
    intro v a err hexecuted
    obtain ⟨s₁, out, hmem, hattempt⟩ := executed_execute hpath hexecuted
    obtain ⟨hid, hsolver, raw, hraw, hsig⟩ := execute_attempt hattempt
    rw [signs out hmem, voucherDigest, ← hid, ← hsolver] at hraw
    rw [hsig]
    refine signsFor.claimSigner_iff hraw (collisionFree.mono fun t ht => ?_)
    rcases List.mem_append.mp ht with ht | ht
    · exact ⟨_, _, .inr ⟨v, a, err, hexecuted, rfl, rfl⟩, ht⟩
    · exact ⟨_, _, .inl ⟨rfl, rfl⟩, ht⟩
  refine ⟨⟨?_, ?_⟩, fun claimed => claimed.won hpath.path⟩
  · rintro ⟨v, a, err, hexecuted, hrecovered⟩
    obtain ⟨rfl, rfl⟩ := (hone v a err hexecuted).mp hrecovered
    exact ⟨v, a, err, hexecuted, rfl, rfl⟩
  · rintro ⟨v, a, err, hexecuted, hid, hsolver⟩
    exact ⟨v, a, err, hexecuted, (hone v a err hexecuted).mpr ⟨hid.symm, hsolver.symm⟩⟩

/-! ## A front runner

The run that settles the claim of `VynxRelayer.TxManager.ClaimSignature`, with its hashes and its
signature. -/

namespace Sample

open VynxRelayer.Sample (address)

/-- The key of the relayer, as it signs the one digest. -/
def crypto : Crypto where
  PrivateKey := Unit
  PublicKey := Unit
  toECDSA b :=
    if b = (word 0xac0974bec39a17e36ba4a6b4d238ff944bacb478cbed5efcae784d7bf4f2ff80).bytes then .ok ()
    else .error (ascii "not this key")
  publicKey _ := ()
  pubkeyToAddress _ := TxManager.Sample.relayer
  sign digest _ := TxManager.Sample.sign digest
  sigToPub digest sig :=
    if sig = TxManager.Sample.signature.bytes ∧
        digest = claimDigest TxManager.Sample.keccak256 TxManager.Sample.escrow (address 4) then .ok ()
    else .error (ascii "another key")

def vault : KeyVault crypto := ⟨(), TxManager.Sample.relayer, rfl⟩

theorem sign_of_vault {digest : FixedBytes 32} {sig : FixedBytes 65}
    (signed : vault.sign digest = .ok sig) : TxManager.Sample.sign digest = .ok sig := by
  unfold KeyVault.sign at signed
  cases hsign : TxManager.Sample.sign digest with
  | error err => rw [show crypto.sign digest vault.priv = _ from hsign] at signed; cases signed
  | ok sig' => rw [show crypto.sign digest vault.priv = _ from hsign] at signed; exact signed

theorem vault_signsFor : SignsFor TxManager.Sample.recover vault.sign vault.addr where
  parity _ _ signed := TxManager.Sample.signsFor.parity _ _ (sign_of_vault signed)
  recovers _ _ signed := TxManager.Sample.signsFor.recovers _ _ (sign_of_vault signed)
  only _ _ _ signed := TxManager.Sample.signsFor.only _ _ _ (sign_of_vault signed)

def signing : Outside := { TxManager.Sample.signing with sign := vault.sign }

def hashing : Platform := { platform with setup := TxManager.Sample.hashing }

/-- Solver 4 wins ID 1, and its claim is signed by the vault. -/
def signed : List Action :=
  connect ++ submit 0 [1] ++ start 0 ++
    offer 0 (bidRequestJson.print
      { intentID := [1], solver := readers.hex (address 4), amountOut := ascii "9",
        gasPrice := ascii "1" }) ++
    (finish 0).dropLast ++ [.execute signing]

/-- The claims among the events. -/
def claims (tr : List Event) : List (FixedBytes 32 × Address) :=
  tr.filterMap fun
    | .executed _ (some a) _ => some (a.call.intentId, a.call.solver)
    | _ => none

theorem mem_claims {tr : List Event} {id : FixedBytes 32} {solver : Address} :
    (id, solver) ∈ claims tr ↔ Claimed tr id solver := by
  constructor
  · intro mem
    obtain ⟨e, he, hclaim⟩ := List.mem_filterMap.mp mem
    split at hclaim
    · cases hclaim
      exact ⟨_, _, _, he, rfl, rfl⟩
    · cases hclaim
  · rintro ⟨v, a, err, hexecuted, rfl, rfl⟩
    exact List.mem_filterMap.mpr ⟨_, hexecuted, rfl⟩

theorem exists_signed : ∃ s tr, (system hashing).run (.init buffers ⟨7⟩) signed = some (s, tr) ∧
    ∀ id solver, Claimed tr id solver ↔ id = TxManager.Sample.escrow ∧ solver = address 4 := by
  have hrun : (((system hashing).run (.init buffers ⟨7⟩) signed).map fun r => claims r.2) =
      some [(TxManager.Sample.escrow, address 4)] := by
    decide +kernel
  obtain ⟨⟨s, tr⟩, hplay, hclaims⟩ := Option.map_eq_some_iff.mp hrun
  refine ⟨s, tr, hplay, fun id solver => ?_⟩
  rw [← mem_claims, hclaims, List.mem_singleton, Prod.mk.injEq]

/-- Every execution is signed by the vault. -/
theorem sign_of_mem {out : Outside} (mem : .execute out ∈ signed) : out.sign = vault.sign := by
  simp only [signed, connect, submit, post, start, offer, finish, List.dropLast, List.mem_append,
    List.mem_cons, reduceCtorEq, List.not_mem_nil, or_false, false_or, Action.execute.injEq] at mem
  rw [mem]
  rfl

end Sample

open VynxRelayer.Sample in
/-- Solver 4's claim can be made with the signature of the run, and solver 3 cannot make one. -/
theorem signatures_exact_front_runner : ∃ s tr,
    (system Sample.hashing).run (.init Sample.buffers ⟨7⟩) Sample.signed = some (s, tr) ∧
    Claimable TxManager.Sample.keccak256 TxManager.Sample.recover TxManager.Sample.relayer tr
      TxManager.Sample.escrow (address 4) ∧
    ¬ Claimable TxManager.Sample.keccak256 TxManager.Sample.recover TxManager.Sample.relayer tr
      TxManager.Sample.escrow (address 3) := by
  obtain ⟨s, tr, hplay, hclaimed⟩ := Sample.exists_signed
  have hfree : ∀ solver, solver = address 3 ∨ solver = address 4 →
      Set.InjOn Sample.hashing.setup.keccak256
        (hashedWith Sample.hashing.setup.keccak256 tr TxManager.Sample.escrow solver) := by
    intro solver hsolver
    have hinj : Set.InjOn TxManager.Sample.keccak256
        {t | t ∈ hashed TxManager.Sample.keccak256 TxManager.Sample.escrow (address 4) ++
          hashed TxManager.Sample.keccak256 TxManager.Sample.escrow (address 3)} :=
      fun s hs t ht => TxManager.Sample.collisionFree s hs t ht
    refine hinj.mono ?_
    rintro t ⟨id', solver', heq, ht⟩
    have hpair : id' = TxManager.Sample.escrow ∧ (solver' = address 3 ∨ solver' = address 4) := by
      rcases heq with ⟨rfl, rfl⟩ | hclaim
      · exact ⟨rfl, hsolver⟩
      · exact ⟨((hclaimed _ _).mp hclaim).1, .inr ((hclaimed _ _).mp hclaim).2⟩
    obtain ⟨rfl, rfl | rfl⟩ := hpair
    · exact List.mem_append_right _ ht
    · exact List.mem_append_left _ ht
  have hexact := fun solver hsolver => (signatures_exact Sample.vault_signsFor hplay
    (fun _ => Sample.sign_of_mem) TxManager.Sample.escrow solver (hfree solver hsolver)).1
  refine ⟨s, tr, hplay, (hexact (address 4) (.inr rfl)).mpr ((hclaimed _ _).mpr ⟨rfl, rfl⟩), ?_⟩
  intro hclaimable
  have hsame := ((hclaimed _ _).mp ((hexact (address 3) (.inl rfl)).mp hclaimable)).2
  exact absurd hsame (by decide)

end VynxRelayer.Relayer
