import Pinpoint.Main
import Pinpoint.Proofs.Trace
import Pinpoint.Proofs.Offsets
import Pinpoint.Proofs.LineCount
import Pinpoint.Proofs.Bytecode.OpcodeMarks
import Pinpoint.Proofs.Bytecode.HexForm
import Pinpoint.Proofs.Bytecode.Tiling
import Pinpoint.Proofs.Bytecode.Agreement
import Pinpoint.Proofs.SourceMap.CarryForward
import Pinpoint.Proofs.Tables.SourceFiles
import Pinpoint.Proofs.Tables.FileSeparation
import Pinpoint.Proofs.Resolution.Reference
import Pinpoint.Proofs.Finding.Partition
import Pinpoint.Proofs.Finding.WellTyped
import Pinpoint.Proofs.Normalize.Messages
import Pinpoint.Proofs.Report.Grouping
import Pinpoint.Proofs.Batch.Conservation
import Pinpoint.Proofs.Batch.Coordinates
import Pinpoint.Proofs.Resolution.Pointing
import Pinpoint.Proofs.Normalize.Totality
import Pinpoint.Proofs.Normalize.StrictMode
import Pinpoint.Proofs.Ast.Innermost
import Pinpoint.Proofs.Ast.CompactNodes
import Pinpoint.Proofs.Normalize.Suppression
import Pinpoint.Proofs.Batch.Composition
import Pinpoint.Proofs.Artifact.SingleFile
import Pinpoint.Proofs.SourceMap.Overlong
import Pinpoint.Proofs.Batch.Malformed
import Pinpoint.Proofs.SourceMap.LookBack
import Pinpoint.Proofs.Resolution.Coverage
import Pinpoint.Proofs.SourceMap.Compression
import Pinpoint.Proofs.SourceMap.FirstFault
import Pinpoint.Proofs.Resolution.Places
import Pinpoint.Proofs.Normalize.Unresolved
import Pinpoint.Proofs.Normalize.TextFindings
import Pinpoint.Proofs.Batch.ErrorCount
import Pinpoint.Proofs.Normalize.EventTrace
import Pinpoint.Proofs.PositionOrder
import Pinpoint.Proofs.Normalize.Positions
import Pinpoint.Proofs.Double.Rank
import Pinpoint.Proofs.Double.Decimals
import Pinpoint.Proofs.Json.Numbers
import Pinpoint.Proofs.Json.Objects
import Pinpoint.Proofs.Files.Replacement
import Pinpoint.Proofs.CommandLine.Stages
import Pinpoint.Proofs.CommandLine.Reading
import Pinpoint.Proofs.CommandLine.NamedConfig
import Pinpoint.Proofs.CommandLine.Accounting
import Pinpoint.Proofs.Ast.Documents
import Pinpoint.Proofs.Artifact.Decoding
import Pinpoint.Proofs.Artifact.Records
import Pinpoint.Proofs.Batch.Contracts
import Pinpoint.Proofs.CommandLine.Ends
import Pinpoint.Proofs.Report.Contents
import Pinpoint.Proofs.Batch.Reordering
import Pinpoint.Proofs.Files.Writing
import Pinpoint.Proofs.Json.Quoted
import Pinpoint.Proofs.Json.RoundTrip
import Pinpoint.Proofs.Batch.Provenance
import Pinpoint.Proofs.CommandLine.LibraryRun
import Pinpoint.Proofs.LinePieces
import Pinpoint.Proofs.Report.Exactness
import Pinpoint.Proofs.Ast.Nesting
import Pinpoint.Proofs.Ast.Forms
import Pinpoint.Proofs.SourceMap.Narrowest
import Pinpoint.Proofs.Finding.Assignment
import Pinpoint.Proofs.Resolution.FirstEntry
import Pinpoint.Proofs.Artifact.EmptyCode
import Pinpoint.Proofs.Config.RoundTrip
import Pinpoint.Proofs.Ast.StackWalk
