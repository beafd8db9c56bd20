import Cando.Core.Number
import Cando.Core.Value
import Cando.Core.Handle
import Cando.Core.Memory
import Cando.Object.Object
import Cando.Object.HashTable
import Cando.Vm.Opcode
import Cando.Vm.Chunk
import Cando.Lib.Program
import Cando.Lib.Machine
import Cando.Lib.Scan
import Cando.Vm.State
import Cando.Vm.Call
import Cando.Vm.Dispatch
import Cando.Vm.Control
import Cando.Vm.Run
import Cando.Vm.Operators
import Cando.Vm.Compare
import Cando.Vm.Effects
import Cando.Vm.Growth
import Cando.Vm.Entry
import Cando.Vm.Calls
import Cando.Vm.Metamethods
import Cando.Vm.Nesting
import Cando.Vm.Identity
import Cando.Vm.Fields
import Cando.Vm.Loops
import Cando.Lib.JsonText
import Cando.Json.Parse
import Cando.Json.Lexical
import Cando.Json.Accepts
import Cando.Json.Standard
import Cando.Json.Write
import Cando.Json.RoundTrip
import Cando.Lib.Base64
import Cando.Natives.Crypto
import Cando.Natives.Csv
import Cando.Natives.CsvRoundTrip
import Cando.Natives.HttpUtil
import Cando.Natives.HttpSplit
import Cando.Natives.HttpMessage
import Cando.Parser.Mask
import Cando.Parser.MaskSelect
import Cando.Parser.Try
import Cando.Parser.Finaly
import Cando.Parser.Catch
import Cando.Parser.ArrayLiteral
import Cando.Lib.Interleaving
import Cando.Thread.Object
import Cando.Thread.Cancel
import Cando.Thread.Wait
import Cando.Thread.Callbacks
import Cando.Thread.Process
import Cando.Thread.Registry
import Cando.Thread.RegistryWait
import Cando.Thread.Lifetime
import Cando.Natives.HttpWrite
import Cando.Natives.HttpResponse
import Cando.Natives.HttpRequest
import Cando.Lib.RefCount
import Cando.Thread.Results
import Cando.Lib.Pool
import Cando.Natives.HttpPool
import Cando.Lib.Linearizable
import Cando.Object.ItemBuffer
import Cando.Object.ArrayOps
import Cando.Object.Foreach
import Cando.Object.ReadOnly
import Cando.Object.StringRefs
import Cando.Object.Shared
import Cando.Lib.Reentrant
import Cando.Core.Lock
import Cando.Object.UserLock
import Cando.Lib.SourceText
import Cando.Parser.Token
import Cando.Parser.Lexer
import Cando.Parser.State
import Cando.Parser.Expression
import Cando.Parser.Statement
import Cando.Parser.Sound
import Cando.Parser.SoundExpression
import Cando.Parser.SoundStatement
import Cando.Parser.Termination
import Cando.Parser.Limits
import Cando.Parser.Tokens
import Cando.Natives.Eval
import Cando.Natives.Include
import Cando.Object.Globals
import Cando.Vm.Locals
import Cando.Lib.FirstAlong
import Cando.Object.PrototypeChain
import Cando.Lib.LinearProbing
import Cando.Object.InternTable
import Cando.Vm.GlobalTable
import Cando.Lib.Safe
import Cando.Vm.IndexAccess
import Cando.Vm.Bitwise
import Cando.Parser.ForMode
import Cando.Natives.ArrayCallbacks
import Cando.Object.Merge
import Cando.Lib.Cut
import Cando.Natives.StringSplit
import Cando.Natives.RegexSplit
import Cando.Vm.ConstPool
import Cando.Object.SlotGrowth
import Cando.Natives.StringFormat
import Cando.Natives.HttpUrl
import Cando.Natives.RegexReplace
import Cando.Natives.StringSizes
import Cando.Vm.Disasm
import Cando.Vm.WellFormed
import Cando.Vm.Operands
import Cando.Parser.Settles
import Cando.Parser.Compiled
import Cando.Vm.CountsAgree
import Cando.Compat.RegexSearch
import Cando.Parser.Numeral
import Cando.Natives.ReplaceConserves
import Cando.Vm.ClosureLife
import Cando.Lang.Syntax
import Cando.Lang.Semantics
import Cando.Lang.Code
import Cando.Parser.View
import Cando.Parser.CoreExpression
import Cando.Parser.CoreStatement
import Cando.Parser.Spelled
import Cando.Lib.Stretch
import Cando.Vm.CoreState
import Cando.Vm.CoreExpression
import Cando.Vm.CoreStatement
import Cando.Vm.CoreProgram
import Cando.Lang.Correct
