import SexprWasm.Common
import SexprWasm.Leb128
import SexprWasm.BinaryWriter.Leb128
import SexprWasm.Leb128Sound
import SexprWasm.Lib.Emit
import SexprWasm.Lib.Callback
import SexprWasm.Lib.Turns
import SexprWasm.Lib.History
import SexprWasm.Lib.Nesting
import SexprWasm.Lib.Buffer
import SexprWasm.Lib.Links
import SexprWasm.Lib.Naming
import SexprWasm.BinaryReader.Events
import SexprWasm.BinaryReader.Reader
import SexprWasm.BinaryReader.Protocol
import SexprWasm.BinaryReader.ProtocolSound
import SexprWasm.BinaryReader.Counts
import SexprWasm.BinaryReader.Bodies
import SexprWasm.Ast.Syntax
import SexprWasm.Ast.ReadBinary
import SexprWasm.Ast.BodyGrammar
import SexprWasm.Ast.Validator
import SexprWasm.Ast.Typing
import SexprWasm.Ast.ValidatorSound
import SexprWasm.Interpreter.Environment
import SexprWasm.Interpreter.ReadBinary
import SexprWasm.Interpreter.Frames
import SexprWasm.Lib.IndexSpace
import SexprWasm.Interpreter.LoadInvariant
import SexprWasm.Interpreter.Rollback
import SexprWasm.Interpreter.EntitySpaces
import SexprWasm.Interpreter.GlobalInit
import SexprWasm.Interpreter.SpecRun
import SexprWasm.Interpreter.SpecRunSound
import SexprWasm.Interpreter.Instructions
import SexprWasm.Interpreter.MachineSound
import SexprWasm.Lib.Words
import SexprWasm.Interpreter.IntegerOps
import SexprWasm.Interpreter.FloatValue
import SexprWasm.Interpreter.Truncation
import SexprWasm.Interpreter.MinMax
import SexprWasm.Interpreter.Demote
import SexprWasm.Interpreter.GrowMemory
import SexprWasm.Interpreter.LoadStore
import SexprWasm.Interpreter.StackEffect
import SexprWasm.Interpreter.HostCall
import SexprWasm.Interpreter.StackBounds
import SexprWasm.Interpreter.HostTrap
import SexprWasm.Text.BindingHash
import SexprWasm.Text.BindingHashSound
import SexprWasm.Text.BindingHashRuns
import SexprWasm.Text.BindingHashRemoval
import SexprWasm.Text.Syntax
import SexprWasm.Text.Visitor
import SexprWasm.Text.GenerateNames
import SexprWasm.Text.UniqueNames
import SexprWasm.Text.Uses
import SexprWasm.Text.ResolveNames
import SexprWasm.Text.ResolveNamesSound
import SexprWasm.Text.ApplyNames
import SexprWasm.Text.ApplyNamesSound
import SexprWasm.Lib.EmitPair
import SexprWasm.BinaryReader.Shift
import SexprWasm.Lib.Scanner
import SexprWasm.Text.LinkedModule
import SexprWasm.Text.ReadBinary
import SexprWasm.Text.ModuleFields
import SexprWasm.Text.LinkedModuleSound
import SexprWasm.Text.ModuleFieldsSound
import SexprWasm.Text.ReadBinarySound
import SexprWasm.Text.Lexer
import SexprWasm.Text.LexerSound
import SexprWasm.Lib.Digits
import SexprWasm.Literal.Integer
import SexprWasm.Literal.IntegerSound
import SexprWasm.Literal.Float
import SexprWasm.Literal.Token
import SexprWasm.Literal.FloatScan
import SexprWasm.Lib.Nearest
import SexprWasm.Literal.FloatRound
import SexprWasm.Literal.FloatNearest
import SexprWasm.Literal.FloatExact
import SexprWasm.Literal.FloatSound
import SexprWasm.Literal.FloatTotal
import SexprWasm.Literal.FloatWriter
import SexprWasm.Literal.TokenType
import SexprWasm.Literal.FloatWriterSound
import SexprWasm.Lib.Ranges
import SexprWasm.Allocator.StackAllocator
import SexprWasm.Allocator.Arena
import SexprWasm.Allocator.StackAllocatorSound
import SexprWasm.Lib.Runs
import SexprWasm.BinaryWriter.Locals
import SexprWasm.BinaryWriter.LocalsSound
import SexprWasm.Interpreter.SpecJson
import SexprWasm.Interpreter.SpecJsonSound
import SexprWasm.Text.TypeIndexes
import SexprWasm.Text.ExprActions
import SexprWasm.Text.ExprActionsSound
import SexprWasm.Text.Indices
import SexprWasm.Text.IndicesSound
import SexprWasm.Lib.Doubling
import SexprWasm.Allocator.Growth
import SexprWasm.Allocator.GrowthSound
import SexprWasm.Text.QuotedData
import SexprWasm.Text.QuotedDataSound
import SexprWasm.Lib.Lines
import SexprWasm.Text.SourceLine
import SexprWasm.Text.SourceLineSound
import SexprWasm.Text.NameTables
import SexprWasm.Text.NameSection
import SexprWasm.BinaryReader.Sections
import SexprWasm.BinaryReader.CustomSections
import SexprWasm.BinaryReader.Framing
import SexprWasm.BinaryWriter.Stream
import SexprWasm.BinaryWriter.StreamSound
import SexprWasm.BinaryWriter.Writer
import SexprWasm.BinaryWriter.Encoding
import SexprWasm.BinaryWriter.WriterSound
import SexprWasm.Lib.Consume
import SexprWasm.BinaryWriter.Decoding
import SexprWasm.BinaryWriter.ModuleEvents
import SexprWasm.BinaryWriter.RoundTrip
