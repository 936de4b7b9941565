import TomoChain.Lib.Except
import TomoChain.Lib.Bytes
import TomoChain.Lib.SortPerm
import TomoChain.Common.Types
import TomoChain.Core.Header
import TomoChain.Posv.Snapshot
import TomoChain.Posv.SnapshotTally
import TomoChain.Posv.Engine
import TomoChain.Posv.Agreement
import TomoChain.Lib.FinSum
import TomoChain.Lib.SolidityLayout
import TomoChain.Contracts.Registration
import TomoChain.Contracts.RegistrationAccounts
import TomoChain.Lib.SortedMap
import TomoChain.Tomox.Types
import TomoChain.Tomox.State.Objects
import TomoChain.Tomox.State.StateDB
import TomoChain.Tomox.State.Journal
import TomoChain.Tomox.Accounts
import TomoChain.Tomox.Settle
import TomoChain.Tomox.Matching
import TomoChain.Tomox.Pending
import TomoChain.Tomox.SettleSpec
import TomoChain.Pool.TxList
import TomoChain.Pool.OrderPool
import TomoChain.Pool.Invariant
import TomoChain.Lib.BigHeap
import TomoChain.Core.StateReader
import TomoChain.Core.Trc21
import TomoChain.Lib.FloorFee
import TomoChain.Tomox.TradeQuantity
import TomoChain.Core.StatedbUtils
import TomoChain.Contracts.Validator
import TomoChain.Contracts.ValidatorStake
import TomoChain.Contracts.ValidatorStorage
import TomoChain.Rlp.Decode
import TomoChain.Lib.Fuel
import TomoChain.Rlp.Encode
import TomoChain.Trie.Encoding
import TomoChain.Trie.Trie
import TomoChain.Trie.Map
import TomoChain.Trie.Update
import TomoChain.Trie.Walk
import TomoChain.Trie.Api
import TomoChain.Posv.Turn
import TomoChain.Vm.Analysis
import TomoChain.Vm.Memory
import TomoChain.Lib.Decimal
import TomoChain.Posv.Validators
import TomoChain.Vm.Arith
import TomoChain.Rlp.Raw
import TomoChain.Lib.ProRata
import TomoChain.Contracts.Reward
import TomoChain.Rlp.Item
