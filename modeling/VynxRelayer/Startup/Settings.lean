import VynxRelayer.Ingress.Parsing
import VynxRelayer.Startup.DotEnv

/-!
# The settings

What `main` takes from the environment before it starts anything: four variables it cannot do
without (`mustEnv`), two with a default, and two numbers among them. `configure` is that part of
`main`, with the fatal message it ends with in place of the exit.

The settings a relayer runs with are exactly those its variables name (`configure_eq_ok_iff`), those
of the process before those of the .env file (`boot_exact`): a number is decimal digits and nothing
else, below 2⁶⁴. The window of an auction is asked for in milliseconds and kept in nanoseconds, in
an `int64` that wraps: it is the window asked for up to 9223372036854 ms, and beyond that another
one, which is accepted like any other.
-/

namespace VynxRelayer.Startup

open Ingress

/-- Why `strconv.ParseUint` refuses a text. -/
inductive NumError where
  | invalid
  | range
  deriving DecidableEq

/-- The loop of `ParseUint`, on top of the value read so far: the first byte that is no digit, or
takes the value over 64 bits, ends it. -/
def parseUintFrom (n : Nat) : Bytes → Except NumError UInt64
  | [] => .ok (UInt64.ofNat n)
  | c :: rest =>
    if 48 ≤ c ∧ c ≤ 57 then
      let next := n * 10 + (c - 48).toNat
      if next < 2 ^ 64 then parseUintFrom next rest else .error .range
    else .error .invalid

/-- `strconv.ParseUint(s, 10, 64)`. -/
def parseUint : Bytes → Except NumError UInt64
  | [] => .error .invalid
  | c :: rest => parseUintFrom 0 (c :: rest)

/-- What `logger.Fatal` says before the process exits. -/
inductive Fatal where
  | notSet (key : Bytes)
  | chainID (raw : Bytes) (err : NumError)
  | auctionTimeout (raw : Bytes) (err : NumError)
  deriving DecidableEq

/-- `mustEnv`. -/
def mustEnv (env : Env) (key : Bytes) : Except Fatal Bytes :=
  if getenv env key = [] then .error (.notSet key) else .ok (getenv env key)

/-- The value of a variable with a default. -/
def envOr (value : Bytes → Bytes) (key fallback : Bytes) : Bytes :=
  if value key = [] then fallback else value key

/-- What `main` goes on with; the window of an auction is in nanoseconds. -/
structure Settings where
  rpcURL : Bytes
  privateKeyHex : Bytes
  settlementAddr : Address
  chainID : UInt64
  auctionTimeout : Int64
  port : Bytes
  deriving DecidableEq

/-- `time.Duration(ms) * time.Millisecond`. -/
def milliseconds (ms : UInt64) : Int64 := ms.toInt64 * 1000000

/-- `main`, from the environment to the settings; `hexToAddress` is go-ethereum's. -/
def configure (hexToAddress : Bytes → Address) (env : Env) : Except Fatal Settings := do
  let rpcURL ← mustEnv env (ascii "BASE_RPC_URL")
  let privateKeyHex ← mustEnv env (ascii "RELAYER_PRIVATE_KEY")
  let settlementAddrStr ← mustEnv env (ascii "SETTLEMENT_CONTRACT_ADDRESS")
  let chainIDStr ← mustEnv env (ascii "CHAIN_ID")
  let chainID ← (parseUint chainIDStr).mapError (.chainID chainIDStr)
  let auctionMSStr := envOr (getenv env) (ascii "AUCTION_TIMEOUT_MS") (ascii "200")
  let auctionMS ← (parseUint auctionMSStr).mapError (.auctionTimeout auctionMSStr)
  return { rpcURL, privateKeyHex, settlementAddr := hexToAddress settlementAddrStr, chainID,
           auctionTimeout := milliseconds auctionMS,
           port := envOr (getenv env) (ascii "PORT") (ascii "8080") }

/-! ## What is accepted -/

theorem parseUintFrom_eq_ok_iff {acc : Nat} (below : acc < 2 ^ 64) {s : Bytes} {n : UInt64} :
    parseUintFrom acc s = .ok n ↔ digitsFrom acc s = some n.toNat := by
  induction s generalizing acc with
  | nil =>
    simp only [parseUintFrom, digitsFrom, Except.ok.injEq, Option.some.injEq]
    rw [← UInt64.toNat_inj, UInt64.toNat_ofNat_of_lt' below]
  | cons c rest ih =>
    unfold parseUintFrom digitsFrom
    by_cases hc : 48 ≤ c ∧ c ≤ 57
    · rw [if_pos hc, if_pos hc]
      dsimp only
      by_cases hnext : acc * 10 + (c - 48).toNat < 2 ^ 64
      · rw [if_pos hnext]
        exact ih hnext
      · -- what is over 64 bits stays over them
        rw [if_neg hnext]
        have hover : digitsFrom (acc * 10 + (c - 48).toNat) rest ≠ some n.toNat := by
          intro h
          have hle := le_of_digitsFrom h
          have hlt := n.toNat_lt
          omega
        simp [hover]
    · rw [if_neg hc, if_neg hc]
      simp

theorem parseUint_eq_ok_iff {s : Bytes} {n : UInt64} :
    parseUint s = .ok n ↔ Numeral s n.toNat := by
  rw [← digits_eq_some_iff]
  cases s with
  | nil => simp [parseUint, digits]
  | cons c rest => exact parseUintFrom_eq_ok_iff (by decide)

/-- The value is over 64 bits before the letter is reached. -/
example : parseUint (ascii "99999999999999999999x") = .error .range := by decide

theorem mustEnv_eq_ok_iff {env : Env} {key value : Bytes} :
    mustEnv env key = .ok value ↔ getenv env key = value ∧ value ≠ [] := by
  unfold mustEnv
  constructor
  · intro h
    split at h
    · cases h
    · cases h
      exact ⟨rfl, ‹_›⟩
  · rintro ⟨rfl, hset⟩
    rw [if_neg hset]

theorem bind_eq_ok_iff {ε α β : Type} {x : Except ε α} {f : α → Except ε β} {r : β} :
    (x >>= f) = .ok r ↔ ∃ a, x = .ok a ∧ f a = .ok r := by
  cases x with
  | error err => simp [bind, Except.bind]
  | ok a => simp [bind, Except.bind]

theorem mapError_eq_ok_iff {ε δ α : Type} {x : Except ε α} {f : ε → δ} {r : α} :
    x.mapError f = .ok r ↔ x = .ok r := by
  cases x <;> simp [Except.mapError]

/-- **The settings that the values of the variables name.** -/
structure Configured (hexToAddress : Bytes → Address) (value : Bytes → Bytes) (c : Settings)
    (auctionMS : UInt64) : Prop where
  rpcURL : value (ascii "BASE_RPC_URL") = c.rpcURL ∧ c.rpcURL ≠ []
  key : value (ascii "RELAYER_PRIVATE_KEY") = c.privateKeyHex ∧ c.privateKeyHex ≠ []
  settlement : value (ascii "SETTLEMENT_CONTRACT_ADDRESS") ≠ [] ∧
    c.settlementAddr = hexToAddress (value (ascii "SETTLEMENT_CONTRACT_ADDRESS"))
  chainID : Numeral (value (ascii "CHAIN_ID")) c.chainID.toNat
  window : Numeral (envOr value (ascii "AUCTION_TIMEOUT_MS") (ascii "200")) auctionMS.toNat
  timeout : c.auctionTimeout = milliseconds auctionMS
  port : c.port = envOr value (ascii "PORT") (ascii "8080")

/-- `main` goes on with the settings its environment names, and with no others. -/
theorem configure_eq_ok_iff {hexToAddress : Bytes → Address} {env : Env} {c : Settings} :
    configure hexToAddress env = .ok c ↔ ∃ ms, Configured hexToAddress (getenv env) c ms := by
  unfold configure
  simp only [bind_eq_ok_iff, mapError_eq_ok_iff, mustEnv_eq_ok_iff, parseUint_eq_ok_iff]
  constructor
  · rintro ⟨rpcURL, hrpc, key, hkey, settlement, ⟨rfl, hsettlement⟩, chain, ⟨rfl, -⟩, chainID,
      hchain, ms, hwindow, ⟨⟩⟩
    exact ⟨ms, hrpc, hkey, ⟨hsettlement, rfl⟩, hchain, hwindow, rfl, rfl⟩
  · rintro ⟨ms, hrpc, hkey, ⟨hsettlement, haddr⟩, hchain, hwindow, htimeout, hport⟩
    refine ⟨_, hrpc, _, hkey, _, ⟨rfl, hsettlement⟩, _, ⟨rfl, hchain.1⟩, _, hchain, ms, hwindow, ?_⟩
    cases c
    cases haddr
    cases htimeout
    cases hport
    rfl

theorem toInt_milliseconds (ms : UInt64) :
    (milliseconds ms).toInt = (1000000 * (ms.toNat : Int)).bmod (2 ^ 64) := by
  have hms : ms.toInt64.toInt = (ms.toNat : Int).bmod (2 ^ 64) := BitVec.toInt_eq_toNat_bmod _
  rw [milliseconds, Int64.toInt_mul, hms, show (1000000 : Int64).toInt = 1000000 from by decide,
    Int.bmod_mul_bmod, Int.mul_comm]

/-- The window is the one asked for as long as it fits in 63 bits of nanoseconds. -/
theorem milliseconds_eq_iff (ms : UInt64) :
    (milliseconds ms).toInt = 1000000 * ms.toNat ↔ ms.toNat ≤ 9223372036854 := by
  rw [toInt_milliseconds]
  constructor
  · intro h
    have hlt := Int.bmod_lt (x := 1000000 * (ms.toNat : Int)) (m := 2 ^ 64) (by decide)
    rw [h] at hlt
    omega
  · intro h
    exact Int.bmod_eq_of_le (by omega) (by omega)

/-- **The relayer runs with what it was told**: with the process's own variables, and those of a
.env file where the process has none. The window of its auctions is the one asked for up to
9223372036854 ms, and no longer one. -/
theorem boot_exact {assignments : List (Bytes × Bytes)}
    (writable : ∀ a ∈ assignments, Writable a.1 a.2) (hexToAddress : Bytes → Address) (env : Env)
    (c : Settings) :
    (configure hexToAddress (loadDotEnv (.ok ⟨written assignments, none⟩) env).1 = .ok c ↔
        ∃ ms, Configured hexToAddress (effective env assignments) c ms) ∧
      ∀ ms, Configured hexToAddress (effective env assignments) c ms →
        (c.auctionTimeout.toInt = 1000000 * ms.toNat ↔ ms.toNat ≤ 9223372036854) := by
  have hvalues : getenv (loadDotEnv (.ok ⟨written assignments, none⟩) env).1 =
      effective env assignments := funext (dotenv_written writable env).2
  constructor
  · rw [configure_eq_ok_iff, hvalues]
  · intro ms h
    rw [h.timeout]
    exact milliseconds_eq_iff ms

namespace Sample

/-- A .env file with all that is needed, and a window that does not fit. -/
def dotEnv : List (Bytes × Bytes) :=
  [(ascii "BASE_RPC_URL", ascii "x"), (ascii "RELAYER_PRIVATE_KEY", ascii "y"),
    (ascii "SETTLEMENT_CONTRACT_ADDRESS", ascii "0x07"), (ascii "CHAIN_ID", ascii "1"),
    (ascii "AUCTION_TIMEOUT_MS", ascii "9223372036855")]

/-- The chain is the one the process was started with, and the window is negative. -/
def settings : Settings where
  rpcURL := ascii "x"
  privateKeyHex := ascii "y"
  settlementAddr := Ingress.Sample.hexToAddress (ascii "0x07")
  chainID := 8453
  auctionTimeout := -9223372036854551616
  port := ascii "8080"

end Sample

theorem boot_exact_wrapped :
    configure Ingress.Sample.hexToAddress
        (loadDotEnv (.ok ⟨written Sample.dotEnv, none⟩) Sample.env).1 = .ok Sample.settings ∧
      Sample.settings.auctionTimeout.toInt ≠ 1000000 * (9223372036855 : UInt64).toNat := by
  have hwritable : ∀ a ∈ Sample.dotEnv, Writable a.1 a.2 := by decide
  obtain ⟨hstarts, hwindow⟩ :=
    boot_exact hwritable Ingress.Sample.hexToAddress Sample.env Sample.settings
  have hconfigured :
      Configured Ingress.Sample.hexToAddress (effective Sample.env Sample.dotEnv) Sample.settings
        9223372036855 :=
    { rpcURL := by decide
      key := by decide
      settlement := by decide
      chainID := digits_eq_some_iff.mp (by decide)
      window := digits_eq_some_iff.mp (by decide)
      timeout := by decide
      port := by decide }
  exact ⟨hstarts.mpr ⟨_, hconfigured⟩, fun h => absurd ((hwindow _ hconfigured).mp h) (by decide)⟩

end VynxRelayer.Startup
