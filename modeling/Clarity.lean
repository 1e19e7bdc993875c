import Clarity.Common.RateLimiter
import Clarity.Consensus.Accountability
import Clarity.Consensus.Agreement
import Clarity.Consensus.Bodies
import Clarity.Consensus.Certificates
import Clarity.Consensus.Restarts
import Clarity.Consensus.Timeouts
import Clarity.Core.ArithmeticFaults
import Clarity.Core.FillAmounts
import Clarity.Core.HeaderFields
import Clarity.Core.DistinctKeys
import Clarity.Core.NftOwnership
import Clarity.Core.Nonces
import Clarity.Core.OrderConditions
import Clarity.Core.PassiveFills
import Clarity.Core.PoolTrades
import Clarity.Core.Priority
import Clarity.Core.Pot
import Clarity.Core.Rewards
import Clarity.Core.Replacement
import Clarity.Node.BlockBinding
import Clarity.Node.EmergencySet
import Clarity.Node.InStep
import Clarity.Node.Linkage
import Clarity.Node.Proposing
import Clarity.State.Pruning
import Clarity.State.SmtCodec
import Clarity.State.SmtCompleteness
import Clarity.State.SmtRecords
import Clarity.Wallet.Mnemonic
