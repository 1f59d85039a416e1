import SignatureIndex.Archive.Record
import SignatureIndex.Declaration.Leftmost
import SignatureIndex.Document.Record
import SignatureIndex.Main
import SignatureIndex.Scan.Origin
import SignatureIndex.Proofs.Path
import SignatureIndex.Proofs.Pass
import SignatureIndex.Proofs.Comment
import SignatureIndex.Proofs.LogicalLine
import SignatureIndex.Proofs.Pattern
import SignatureIndex.Proofs.Declaration
import SignatureIndex.Proofs.LineShape
import SignatureIndex.Proofs.Member
import SignatureIndex.Proofs.Resolve
import SignatureIndex.Proofs.PassTable
import SignatureIndex.Proofs.Operation
import SignatureIndex.Proofs.Remembered
import SignatureIndex.Proofs.Reflow
import SignatureIndex.Proofs.LastWriter
import SignatureIndex.Proofs.Boundary
import SignatureIndex.Proofs.FileTree
import SignatureIndex.Proofs.Json
import SignatureIndex.Proofs.Utf8
import SignatureIndex.Proofs.Record
import SignatureIndex.Proofs.Export
import SignatureIndex.Proofs.Concatenation
import SignatureIndex.Proofs.OpenType
import SignatureIndex.Proofs.DepthFirst
import SignatureIndex.Proofs.PartialArchive
import SignatureIndex.Proofs.LineEnd
import SignatureIndex.Proofs.ExportOrder
import SignatureIndex.Proofs.ReservedName
import SignatureIndex.Proofs.CallHelp
import SignatureIndex.Proofs.RealPlace
import SignatureIndex.Proofs.OncePerRoot
import SignatureIndex.Proofs.WrittenDeclaration
import SignatureIndex.Proofs.CleanExport
import SignatureIndex.Proofs.Label
import SignatureIndex.Proofs.CallNesting
import SignatureIndex.Proofs.ActiveParameter
import SignatureIndex.Proofs.LineComment
import SignatureIndex.Proofs.Segment
import SignatureIndex.Proofs.ParameterList
import SignatureIndex.Proofs.Descent
import SignatureIndex.Proofs.IncludeCase
import SignatureIndex.Proofs.ProjectRoots
import SignatureIndex.Proofs.Completion
import SignatureIndex.Proofs.Directive
import SignatureIndex.Proofs.Renumbering
import SignatureIndex.Proofs.InsertedLine
import SignatureIndex.Proofs.Lowercase
import SignatureIndex.Proofs.Config
import SignatureIndex.Proofs.SkippedExtension
import SignatureIndex.Proofs.SettledConfig
import SignatureIndex.Proofs.TomlReader
import SignatureIndex.Proofs.TomlFault
import SignatureIndex.Proofs.TomlSteps
import SignatureIndex.Proofs.ConfigFile
