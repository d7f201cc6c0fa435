import N42.AccessJournals
import N42.AncestorHashes
import N42.BaseFees
import N42.BestPeers
import N42.BlockGas
import N42.BloomFilters
import N42.CallGas
import N42.CanonicalState
import N42.CheckpointStart
import N42.FailedAdditions
import N42.FeeReplacement
import N42.FilteredLists
import N42.GasLimits
import N42.GasTips
import N42.GossipBlocks
import N42.InitCode
import N42.LogFilters
import N42.MachineOrder
import N42.MinerTasks
import N42.PendingValidity
import N42.PoolResets
import N42.PreparedHeaders
import N42.RangeFidelity
import N42.ReceiptLookups
import N42.RewardForks
import N42.RootCommitment
import N42.SealCommitment
import N42.SignatureReplay
import N42.StoredBlocks
import N42.Varints
import N42.WriteAtomicity
