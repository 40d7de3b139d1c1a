import Peony.Coins.Layers
import Peony.Rewards.Sessions
import Peony.Stake.KernelTarget
import Peony.Chain.RetargetExact
import Peony.Hooks.Atomicity
import Peony.Hooks.VerifyDB
import Peony.BlockIndex.ReorgDepth
import Peony.BlockIndex.SkipList
import Peony.Network.TimeData
import Peony.Spork.Durability
import Peony.BlockIndex.Disk
import Peony.Network.BlocksInFlight
import Peony.Validation.Undo
import Peony.Masternode.VinSpent
import Peony.Mining.BlockLimits
import Peony.Primitives.Serialize
import Peony.Network.MerkleBlock
import Peony.Policy.InputsStandard
import Peony.Script.SignatureHash
import Peony.Mempool.Reorg
import Peony.Chain.CompactTarget
import Peony.Masternode.PaymentSplit
import Peony.Masternode.Rejected
import Peony.Masternode.SeenMaps
import Peony.Stake.Staking
import Peony.Wallet.DeriveKey
import Peony.Network.LimitedMap
import Peony.Script.NormalPayment
import Peony.Script.ScriptNum
import Peony.Crypto.Sha256
import Peony.BlockIndex.BlockFiles
import Peony.Primitives.Bech32
