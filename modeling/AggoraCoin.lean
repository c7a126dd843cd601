import AggoraCoin.Lib.KeyedTree
import AggoraCoin.Lib.Reach
import AggoraCoin.Lib.Base64
import AggoraCoin.Lib.Delimited
import AggoraCoin.Lib.SlidingWindow
import AggoraCoin.Plans
import AggoraCoin.Iteration.Balance
import AggoraCoin.CachedSupply
import AggoraCoin.Certified
import AggoraCoin.Audit
import AggoraCoin.TamperEvidence
import AggoraCoin.SignedMessages
import AggoraCoin.Scripts
import AggoraCoin.Restarts
import AggoraCoin.ParameterSwaps
import AggoraCoin.SnapshotCut
import AggoraCoin.SupplyRoom
import AggoraCoin.Activity
import AggoraCoin.Rejections
import AggoraCoin.IterationLock
import AggoraCoin.RateLimits
import AggoraCoin.TransferQuota
import AggoraCoin.WalletHistory
import AggoraCoin.OperatorRequests
import AggoraCoin.SeedFiles
import AggoraCoin.CommitAgreement
import AggoraCoin.Incentives
import AggoraCoin.WalletOrder
import AggoraCoin.WealthOrder
import AggoraCoin.RoundedRewards
import AggoraCoin.RoundedSupply
import AggoraCoin.OwnedSpending
import AggoraCoin.MerkleBinding
import AggoraCoin.GiniCoefficient
import AggoraCoin.SeedReplay
import AggoraCoin.Spellings
import AggoraCoin.SimulationControl
import AggoraCoin.SimulatorAccounts
import AggoraCoin.ChargeReplay
import AggoraCoin.LedgerReplay
import AggoraCoin.CrashPoints
import AggoraCoin.Lib.Interleaving
import AggoraCoin.Reports
import AggoraCoin.Gateway
import AggoraCoin.GatewayRuns
import AggoraCoin.Handlers
import AggoraCoin.Acknowledgements
import AggoraCoin.Authority
import AggoraCoin.Reopening
import AggoraCoin.IterationHistory
import AggoraCoin.Origins
import AggoraCoin.SignRequest
