import SourceOutline.Text.Blank
import SourceOutline.Text.Utf8
import SourceOutline.Decl.Basic
import SourceOutline.Decl.TypeText
import SourceOutline.Decl.Imports
import SourceOutline.Syntax.Node
import SourceOutline.Syntax.Errors
import SourceOutline.Syntax.Source
import SourceOutline.Comment
import SourceOutline.Decl.OfSyntax
import SourceOutline.Index
import SourceOutline.Index.Alias
import SourceOutline.Model.Basic
import SourceOutline.Extract.Omission
import SourceOutline.Extract.Types
import SourceOutline.Extract.Values
import SourceOutline.Extract.Outline
import SourceOutline.Path
import SourceOutline.Grammar.Token
import SourceOutline.Grammar.Lexer
import SourceOutline.Grammar.Parser
import SourceOutline.Grammar.Types
import SourceOutline.Grammar.Expressions
import SourceOutline.Grammar.SourceFile
import SourceOutline.Log.Level
import SourceOutline.Log.Basic
import SourceOutline.Text.Printable
import SourceOutline.Text.Quoted
import SourceOutline.Number.Shortest
import SourceOutline.Datum.Moment
import SourceOutline.Datum.Basic
import SourceOutline.Yaml.Cursor
import SourceOutline.Yaml.Token
import SourceOutline.Yaml.ScalarText
import SourceOutline.Yaml.NameText
import SourceOutline.Yaml.Layout
import SourceOutline.Yaml.Node
import SourceOutline.Yaml.Scalar
import SourceOutline.Yaml.Load
import SourceOutline.Files.Tree
import SourceOutline.Files.Resolve
import SourceOutline.Files.Access
import SourceOutline.Files.Discover
import SourceOutline.Payload.Basic
import SourceOutline.Payload.Render
import SourceOutline.Model.Written
import SourceOutline.Settings.Basic
import SourceOutline.Failure
import SourceOutline.Settings.Load
import SourceOutline.Scan.Load
import SourceOutline.Scan.Basic
import SourceOutline.Scan.Folder
import SourceOutline.Run.Results
import SourceOutline.Run.Basic
import SourceOutline.Run.CommandLine
import SourceOutline.Run.Program
import SourceOutline.Files.Listing
import SourceOutline.Files.Changes
import SourceOutline.Run.Clock
import SourceOutline.Main
import SourceOutline.Text.Digit
import SourceOutline.Text.Feed
import SourceOutline.Text.SmallLetters
import SourceOutline.Text.Surrogate
import SourceOutline.Grammar.Reading
import SourceOutline.Yaml.Fault
import SourceOutline.Yaml.Build
import SourceOutline.Proofs.Mentions
import SourceOutline.Proofs.Chains
import SourceOutline.Proofs.Agreement
import SourceOutline.Proofs.Grouping
import SourceOutline.Proofs.Locality
import SourceOutline.Proofs.PackageOrder
import SourceOutline.Proofs.Coverage
import SourceOutline.Proofs.FieldAccount
import SourceOutline.Proofs.MapLiteral
import SourceOutline.Proofs.Initializers
import SourceOutline.Proofs.CommentFree
import SourceOutline.Proofs.PathNormal
import SourceOutline.Proofs.Recording
import SourceOutline.Proofs.EntryPoints
import SourceOutline.Proofs.Sources
import SourceOutline.Proofs.Provenance
import SourceOutline.Proofs.PathNames
import SourceOutline.Proofs.Discovery
import SourceOutline.Proofs.FolderAccount
import SourceOutline.Proofs.Placement
import SourceOutline.Proofs.Growth
import SourceOutline.Proofs.Delivery
import SourceOutline.Proofs.ResultPaths
import SourceOutline.Proofs.RunReport
import SourceOutline.Proofs.RunFailure
import SourceOutline.Proofs.ResultsKept
import SourceOutline.Proofs.References
import SourceOutline.Proofs.StrictReading
import SourceOutline.Proofs.SettingLayers
import SourceOutline.Proofs.FolderMaking
import SourceOutline.Proofs.ReportText
import SourceOutline.Proofs.ReportFile
import SourceOutline.Proofs.LogContext
import SourceOutline.Proofs.Trails
import SourceOutline.Proofs.AliasHops
import SourceOutline.Proofs.ElementAliases
import SourceOutline.Proofs.ReferenceChains
import SourceOutline.Proofs.FieldShapes
import SourceOutline.Proofs.CompositeTypes
import SourceOutline.Proofs.Extension
import SourceOutline.Proofs.FolderWalk
import SourceOutline.Proofs.ResultFolders
import SourceOutline.Proofs.RelativePaths
import SourceOutline.Proofs.DocBlocks
import SourceOutline.Proofs.CommentLines
import SourceOutline.Proofs.NumberSigns
import SourceOutline.Proofs.TypeReading
import SourceOutline.Proofs.WrittenModel
import SourceOutline.Proofs.NodeVisits
import SourceOutline.Proofs.SourceOrder
