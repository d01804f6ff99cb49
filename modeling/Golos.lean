import Golos.Protocol.AccountNames
import Golos.Protocol.Conversion
import Golos.Protocol.Derivation
import Golos.Chain.WitnessPay
import Golos.Chain.VirtualSupply
import Golos.Chain.Backing
import Golos.Chain.MiningQueue
import Golos.Chain.Participation
import Golos.Chain.Payroll
import Golos.Chain.VestingShares
import Golos.Chain.Escrow
import Golos.Chain.Recovery
import Golos.Chain.ProposalLife
import Golos.Chain.CommentTree
import Golos.Chain.Replay
import Golos.Chain.MerkleRoot
import Golos.Node.LogRuns
import Golos.Node.ForkDatabase
import Golos.Node.Framing
import Golos.Plugins.AccountHistory
import Golos.Plugins.Reputation
import Golos.Plugins.Broadcast
import Golos.Plugins.Follow
import Golos.Plugins.MarketHistory
import Golos.Plugins.SocialNetwork
import Golos.Plugins.AccountByKey
