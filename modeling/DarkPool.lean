import DarkPool.Lib.HalfEven
import DarkPool.Lib.CrossVolume
import DarkPool.Lib.GreedyFill
import DarkPool.Lib.GreedyClear
import DarkPool.Lib.Table
import DarkPool.Lib.Radix
import DarkPool.Lib.Chunks
import DarkPool.Lib.Transition
import DarkPool.Lib.Ledger
import DarkPool.Lib.History
import DarkPool.Lib.Keyed
import DarkPool.Lib.Unbonding
import DarkPool.Lib.Attempts
import DarkPool.Lib.LucasTest
import DarkPool.Lib.FieldBits
import DarkPool.Lib.HashChain
import DarkPool.Types
import DarkPool.Auction
import DarkPool.AuctionPlan
import DarkPool.AuctionPrice
import DarkPool.AuctionVolume
import DarkPool.AuctionFills
import DarkPool.AuctionPriority
import DarkPool.Event
import DarkPool.Book
import DarkPool.BookFind
import DarkPool.BookUpdate
import DarkPool.BookFill
import DarkPool.AuctionApply
import DarkPool.Uncrossed
import DarkPool.Encoding
import DarkPool.Error
import DarkPool.Pair
import DarkPool.State
import DarkPool.Admission
import DarkPool.Merkle
import DarkPool.Witness
import DarkPool.Engine
import DarkPool.Tick
import DarkPool.Batch
import DarkPool.World
import DarkPool.Recover
import DarkPool.Projection
import DarkPool.Log
import DarkPool.ReplayProjection
import DarkPool.Commits
import DarkPool.Tasks
import DarkPool.Effect
import DarkPool.StepEffect
import DarkPool.Simulation
import DarkPool.Rounds
import DarkPool.Converge
import DarkPool.Capture
import DarkPool.BookOrders
import DarkPool.Settlement
import DarkPool.Reaggregate
import DarkPool.Twin
import DarkPool.System
import DarkPool.Restart
import DarkPool.Contract
import DarkPool.Chain
import DarkPool.Solvency
import DarkPool.Submitter
import DarkPool.Retry
import DarkPool.RoundSettlement
import DarkPool.Persistence
import DarkPool.Placed
import DarkPool.SpentKeys
import DarkPool.Filing
import DarkPool.Ticking
import DarkPool.Delisted
import DarkPool.Retention
import DarkPool.FoldLoop
import DarkPool.Traced
import DarkPool.InputRoot
import DarkPool.Legs
import DarkPool.BatchIds
import DarkPool.Accounting
import DarkPool.Aggregator
import DarkPool.SettlementRows
import DarkPool.SettlementBinding
import DarkPool.Readings
import DarkPool.Unreserve
import DarkPool.BalanceOracle
import DarkPool.ReplayGuards
import DarkPool.ProofReuse
import DarkPool.ScalarField
import DarkPool.StepCircuit
import DarkPool.FillRoles
import DarkPool.SessionFills
import DarkPool.SettlementEffect
import DarkPool.BoundMatches
import DarkPool.BatchMatches
import DarkPool.SessionPolicy
import DarkPool.PoseidonBN254
import DarkPool.Expiry
import DarkPool.FileStore
import DarkPool.FileReopen
import DarkPool.FileFaults
import DarkPool.Refusal
import DarkPool.PgStore
import DarkPool.MultiKey
import DarkPool.KeyRotation
import DarkPool.OrderForm
import DarkPool.OrderPayload
import DarkPool.AuctionCanonical
import DarkPool.MatchAmounts
import DarkPool.NumericBridge
import DarkPool.AdmittedSet
import DarkPool.SubmitFlag
import DarkPool.Submissions
import DarkPool.Secp256k1
import DarkPool.Groth16Batch
import DarkPool.StepComplete
import DarkPool.BookCapacity
import DarkPool.SecretCustody
import DarkPool.TapeFeed
import DarkPool.Correlate
import DarkPool.SsePermit
import DarkPool.NonceHistory
import DarkPool.ForwardedFor
import DarkPool.CallerIsolation
import DarkPool.ClientCommitments
import DarkPool.WireUnits
import DarkPool.HistoryRerun
import DarkPool.Auth
import DarkPool.AuthRuns
import DarkPool.Authenticated
import DarkPool.KeyEnvelope
import DarkPool.Lib.Positional
import DarkPool.Lib.TokenBucket
import DarkPool.RateLimit
import DarkPool.RatePrivate
import DarkPool.SettlementFeed
import DarkPool.SnapshotCodec
import DarkPool.SnapshotFiles
import DarkPool.SnapshotLoss
import DarkPool.SnapshotRefinement
