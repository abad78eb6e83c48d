import CompiledCode.Text.Blank
import CompiledCode.Text.Utf8
import CompiledCode.Text.Quoted
import CompiledCode.Bytes.Hexadecimal
import CompiledCode.Bytes.Varint
import CompiledCode.Float.Line
import CompiledCode.Float.Shortest
import CompiledCode.Instruction.Basic
import CompiledCode.Code.Encode
import CompiledCode.Code.Disassembly
import CompiledCode.Code.Edit
import CompiledCode.Listing.Assembly
import CompiledCode.Listing.Diagnostic
import CompiledCode.Value.Equality
import CompiledCode.Value.Unmarshal
import CompiledCode.Value.Method
import CompiledCode.Archive.Digest
import CompiledCode.Settings.Config
import CompiledCode.Storage.Path
import CompiledCode.Storage.FileTree
import CompiledCode.Archive.Dump
import CompiledCode.Main
import CompiledCode.Proofs.Outcomes
import CompiledCode.Proofs.Bytes.Reading
import CompiledCode.Proofs.Bytes.VarintGroups
import CompiledCode.Proofs.Bytes.Movement
import CompiledCode.Proofs.Bytes.Delimiting
import CompiledCode.Proofs.Bytes.VarintRoundTrip
import CompiledCode.Proofs.Text.Utf8RoundTrip
import CompiledCode.Proofs.Text.NumberRoundTrip
import CompiledCode.Proofs.Text.Lines
import CompiledCode.Proofs.Float.Fields
import CompiledCode.Proofs.Float.Exactness
import CompiledCode.Proofs.Float.Splitting
import CompiledCode.Proofs.Float.LineRoundTrip
import CompiledCode.Proofs.Float.LineMeaning
import CompiledCode.Proofs.Value.Nesting
import CompiledCode.Proofs.Value.Canonical
import CompiledCode.Proofs.Value.Descent
import CompiledCode.Proofs.Value.Composition
import CompiledCode.Proofs.Value.Refinement
import CompiledCode.Proofs.Value.StreamRoundTrip
import CompiledCode.Proofs.Value.SelfDelimiting
import CompiledCode.Proofs.Value.Sameness
import CompiledCode.Proofs.Code.Stream
import CompiledCode.Proofs.Code.Decoding
import CompiledCode.Proofs.Code.StackDepth
import CompiledCode.Proofs.Code.EncodingRoundTrip
import CompiledCode.Proofs.Listing.Tokens
import CompiledCode.Proofs.Listing.Rendering
import CompiledCode.Proofs.Listing.Reassembly
import CompiledCode.Proofs.Value.NormalForms
import CompiledCode.Proofs.Archive.Header
import CompiledCode.Proofs.Archive.FileRoundTrip
import CompiledCode.Proofs.Archive.Accesses
import CompiledCode.Proofs.Storage.Writing
import CompiledCode.Proofs.Storage.Parents
import CompiledCode.Proofs.Storage.Siblings
import CompiledCode.Proofs.Listing.Extent
import CompiledCode.Proofs.Archive.ListingMethod
import CompiledCode.Proofs.CommandLine.Runs
import CompiledCode.Proofs.CommandLine.CompileInspect
import CompiledCode.Proofs.Code.Editing
import CompiledCode.Proofs.Code.Replacement
import CompiledCode.Proofs.CommandLine.Endings
import CompiledCode.Proofs.CommandLine.Effects
import CompiledCode.Proofs.CommandLine.Silence
import CompiledCode.Proofs.Bytes.VarintReaders
import CompiledCode.Proofs.Listing.Columns
import CompiledCode.Proofs.Listing.Rows
import CompiledCode.Proofs.Listing.Labels
import CompiledCode.Proofs.Listing.Failures
import CompiledCode.Proofs.Listing.Interning
import CompiledCode.Proofs.Listing.QuotedLiterals
import CompiledCode.Proofs.Bytes.VarintMinimality
import CompiledCode.Proofs.Bytes.Consumption
import CompiledCode.Proofs.Value.Worth
import CompiledCode.Proofs.Value.NestingLimit
import CompiledCode.Proofs.Value.Amplification
import CompiledCode.Proofs.Float.Rounding
import CompiledCode.Proofs.Float.Nearest
import CompiledCode.Proofs.Float.SingleRounding
import CompiledCode.Proofs.Float.MachineScaling
import CompiledCode.Proofs.Code.Commutation
import CompiledCode.Proofs.Listing.Interner
import CompiledCode.Proofs.Listing.LiteralOperands
import CompiledCode.Proofs.Archive.HeaderAcceptance
import CompiledCode.Proofs.Archive.Dumping
import CompiledCode.Proofs.Bytes.CursorRuns
import CompiledCode.Proofs.Listing.Scanning
import CompiledCode.Proofs.Listing.ByteScan
import CompiledCode.Proofs.Listing.Partition
import CompiledCode.Proofs.Listing.TrailingText
import CompiledCode.Proofs.Storage.Overwriting
import CompiledCode.Proofs.CommandLine.SourceKept
