import BlockstackCore.Library.Outcome
import BlockstackCore.Library.ByteCodec
import BlockstackCore.Library.UndoLog
import BlockstackCore.Library.NestedLog
import BlockstackCore.Library.BTreeMap
import BlockstackCore.Library.IntervalChain
import BlockstackCore.Library.FinsumUpdate
import BlockstackCore.Library.FileLayout
import BlockstackCore.Library.Radix
import BlockstackCore.Library.Digraph
import BlockstackCore.Library.StateResult
import BlockstackCore.Library.Pairing
import BlockstackCore.Library.BitCount
import BlockstackCore.Library.ByteReader
import BlockstackCore.Library.Channel
import BlockstackCore.Library.Limbs
import BlockstackCore.Library.Bitmap
import BlockstackCore.Vm.Representations
import BlockstackCore.Vm.Types.Principals
import BlockstackCore.Vm.Costs
import BlockstackCore.Vm.Types.Signatures
import BlockstackCore.Vm.Database.KeyValueWrapper
import BlockstackCore.Vm.Database.Rollback
import BlockstackCore.Vm.Types.Value
import BlockstackCore.Vm.Types.Serialization
import BlockstackCore.Vm.Contexts.AssetMap
import BlockstackCore.Vm.Contexts.GlobalContext
import BlockstackCore.Vm.Contexts.Nesting
import BlockstackCore.Vm.Functions.Assets
import BlockstackCore.Vm.Eval
import BlockstackCore.Chainstate.Stacks.Index.Proofs
import BlockstackCore.Chainstate.Stacks.Index.Node
import BlockstackCore.Chainstate.Stacks.Index.Bits
import BlockstackCore.Chainstate.Stacks.Index.Trie
import BlockstackCore.Chainstate.Stacks.Index.Storage
import BlockstackCore.Vm.Iterables
import BlockstackCore.Vm.Ast.Expressions
import BlockstackCore.Vm.Ast.ExpressionIdentifier
import BlockstackCore.Vm.Ast.Parser
import BlockstackCore.Vm.Ast.StackDepthChecker
import BlockstackCore.Vm.Ast.SugarExpander
import BlockstackCore.Vm.Ast.DefinitionSorter
import BlockstackCore.Net.Codec
import BlockstackCore.Net.Message
import BlockstackCore.Net.Connection
import BlockstackCore.Net.Framing
import BlockstackCore.Net.StacksP2P
import BlockstackCore.Net.Inv
import BlockstackCore.Chainstate.Stacks.Auth
import BlockstackCore.Chainstate.Stacks.Transaction
import BlockstackCore.Chainstate.Stacks.Signing
import BlockstackCore.Chainstate.Stacks.Binding
import BlockstackCore.Chainstate.Burn.Distribution
import BlockstackCore.Address.C32
import BlockstackCore.Util.Retry
import BlockstackCore.Util.Hash
import BlockstackCore.Util.Pipe
import BlockstackCore.Util.Uint
