import LuaBytecode.Bytes
import LuaBytecode.Chunk.Basic
import LuaBytecode.Chunk.Dump
import LuaBytecode.Chunk.Load
import LuaBytecode.Chunk.Reading
import LuaBytecode.Command.Arguments
import LuaBytecode.Command.BufferedFile
import LuaBytecode.Command.FileTree
import LuaBytecode.Command.Files
import LuaBytecode.Command.Run
import LuaBytecode.Double
import LuaBytecode.Double.Decimal
import LuaBytecode.Error
import LuaBytecode.Instruction
import LuaBytecode.Json.Numeral
import LuaBytecode.Json.Parser
import LuaBytecode.Json.Token
import LuaBytecode.Json.Value
import LuaBytecode.Listing
import LuaBytecode.Main
import LuaBytecode.Opcode
import LuaBytecode.Proofs.Acceptance
import LuaBytecode.Proofs.BlockNesting
import LuaBytecode.Proofs.BlockStack
import LuaBytecode.Proofs.BoundedSink
import LuaBytecode.Proofs.CheckedAgreement
import LuaBytecode.Proofs.CheckedReading
import LuaBytecode.Proofs.ChunkAcceptance
import LuaBytecode.Proofs.ChunkExtension
import LuaBytecode.Proofs.ChunkGrammar
import LuaBytecode.Proofs.ConstantComments
import LuaBytecode.Proofs.ConsumedBytes
import LuaBytecode.Proofs.CursorRuns
import LuaBytecode.Proofs.DecodedText
import LuaBytecode.Proofs.DumpLoading
import LuaBytecode.Proofs.DumpRoundTrip
import LuaBytecode.Proofs.Extension
import LuaBytecode.Proofs.FileEffects
import LuaBytecode.Proofs.Flattening
import LuaBytecode.Proofs.FunctionHeads
import LuaBytecode.Proofs.FunctionNames
import LuaBytecode.Proofs.IgnoredFields
import LuaBytecode.Proofs.InstructionText
import LuaBytecode.Proofs.JsonRoundTrip
import LuaBytecode.Proofs.JsonScanning
import LuaBytecode.Proofs.ListedConstants
import LuaBytecode.Proofs.LoweringDomain
import LuaBytecode.Proofs.OperandLookups
import LuaBytecode.Proofs.PositionalIntegers
import LuaBytecode.Proofs.PrototypeRecursion
import LuaBytecode.Proofs.PseudocodeText
import LuaBytecode.Proofs.ReadErrors
import LuaBytecode.Proofs.ReaderLaws
import LuaBytecode.Proofs.ReaderRuns
import LuaBytecode.Proofs.RegisterRanges
import LuaBytecode.Proofs.RoomRequests
import LuaBytecode.Proofs.SectionBounds
import LuaBytecode.Proofs.SinkWrites
import LuaBytecode.Proofs.SourceLines
import LuaBytecode.Proofs.StatementLines
import LuaBytecode.Proofs.StoredIntegers
import LuaBytecode.Proofs.StoredNumbers
import LuaBytecode.Proofs.WordAssembly
import LuaBytecode.Proofs.WordFields
import LuaBytecode.Proofs.WriterReuse
import LuaBytecode.Proofs.WrittenLines
import LuaBytecode.Pseudocode.Statement
import LuaBytecode.Pseudocode.Writer
import LuaBytecode.Reader
import LuaBytecode.Render
import LuaBytecode.Sink
import LuaBytecode.Utf8
