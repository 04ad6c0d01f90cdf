import Blocx.Governance.ChangedKeys
import Blocx.Masternode.BlockValue
import Blocx.Net.Headers2
import Blocx.Evo.DmnManagerRuns
import Blocx.Evo.PaymentQueue
import Blocx.Masternode.Payments
import Blocx.Evo.LifeCycle
import Blocx.Validation.AddressIndexUndo
import Blocx.Llmq.PendingLocksVerified
import Blocx.Llmq.PoolTight
import Blocx.Llmq.InputRequestIds
import Blocx.Llmq.InstantSendDbUpgrade
import Blocx.Llmq.ChainLocksAdvance
import Blocx.Llmq.RecoveredSigsExact
import Blocx.Llmq.BitSetsWritten
import Blocx.Llmq.CommittedOnce
import Blocx.Evo.EvoDb
import Blocx.Llmq.RotatedMembers
import Blocx.Chain.VersionBitsCache
import Blocx.Bls.LazyWrapper
import Blocx.Consensus.Merkle
import Blocx.Autolykos.PowArithmetic
import Blocx.Spork.SporkMessage
import Blocx.Llmq.CommitmentReads
import Blocx.Miner.FoundersReward
import Blocx.Governance.SuperblockPayments
import Blocx.Llmq.SigShareSessions
