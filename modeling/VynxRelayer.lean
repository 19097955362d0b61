import VynxRelayer.Lib.System
import VynxRelayer.Lib.Unwinding
import VynxRelayer.Lib.Chan
import VynxRelayer.Lib.Parking
import VynxRelayer.Lib.Relabel
import VynxRelayer.Lib.Table
import VynxRelayer.Lib.Journal
import VynxRelayer.Lib.Counting
import VynxRelayer.Lib.Fifo
import VynxRelayer.Lib.Padding
import VynxRelayer.Lib.BigEndian
import VynxRelayer.Lib.Words
import VynxRelayer.Lib.Utf8
import VynxRelayer.Lib.Json
import VynxRelayer.Lib.StructType
import VynxRelayer.Lib.Tickets
import VynxRelayer.Lib.Locks
import VynxRelayer.Lib.Atomic
import VynxRelayer.Lib.Work
import VynxRelayer.Lib.Rounding
import VynxRelayer.Core
import VynxRelayer.Auction.Engine
import VynxRelayer.Auction.Threads
import VynxRelayer.Auction.Lifecycle
import VynxRelayer.Auction.Chronicle
import VynxRelayer.Auction.Fates
import VynxRelayer.Auction.Guarantees
import VynxRelayer.Auction.Coarse
import VynxRelayer.Auction.Refinement
import VynxRelayer.Auction.Isolation
import VynxRelayer.Auction.Locking
import VynxRelayer.Auction.Atomicity
import VynxRelayer.Auction.Exclusion
import VynxRelayer.Auction.Progress
import VynxRelayer.Auction.Outline
import VynxRelayer.TxManager.Executor
import VynxRelayer.TxManager.Nonces
import VynxRelayer.TxManager.Uniqueness
import VynxRelayer.TxManager.Reservations
import VynxRelayer.TxManager.Resync
import VynxRelayer.TxManager.ClaimSignature
import VynxRelayer.TxManager.GasBuffer
import VynxRelayer.Ingress.Intake
import VynxRelayer.Ingress.Parsing
import VynxRelayer.Signer.TypedData
import VynxRelayer.Signer.StructHash
import VynxRelayer.Signer.KeyVault
import VynxRelayer.Ingress.Hub
import VynxRelayer.Ingress.Membership
import VynxRelayer.Ingress.Locking
import VynxRelayer.Ingress.Discipline
import VynxRelayer.Ingress.Following
import VynxRelayer.Ingress.Atomicity
import VynxRelayer.Ingress.Exclusion
import VynxRelayer.Ingress.Moves
import VynxRelayer.Ingress.Progress
import VynxRelayer.Ingress.Delivery
import VynxRelayer.Ingress.Submission
import VynxRelayer.Ingress.Outline
import VynxRelayer.Ingress.Wire
import VynxRelayer.Startup.DotEnv
import VynxRelayer.Startup.Settings
import VynxRelayer.Relayer.Pipeline
import VynxRelayer.Relayer.Flows
import VynxRelayer.Relayer.Courses
import VynxRelayer.Relayer.Accounting
import VynxRelayer.Relayer.Settlement
import VynxRelayer.Relayer.Signatures
import VynxRelayer.Relayer.Handover
import VynxRelayer.Relayer.Bids
import VynxRelayer.Relayer.Addresses
import VynxRelayer.Relayer.Handlers
import VynxRelayer.Relayer.Terms
import VynxRelayer.Relayer.Oblivious
import VynxRelayer.Relayer.Rest
import VynxRelayer.Relayer.Cancellation
import VynxRelayer.Relayer.Shutdown
import VynxRelayer.Simulate.Driver
import VynxRelayer.Simulate.Attribution
import VynxRelayer.Simulate.Runs
