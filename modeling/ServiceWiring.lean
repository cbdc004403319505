import ServiceWiring.Annotation
import ServiceWiring.Command.Arguments
import ServiceWiring.Command.Project
import ServiceWiring.Command.Run
import ServiceWiring.Command.Terminal
import ServiceWiring.Config
import ServiceWiring.Config.Lookup
import ServiceWiring.Digest.Sha256
import ServiceWiring.Directive.Argument
import ServiceWiring.Directive.Basic
import ServiceWiring.Directive.Comment
import ServiceWiring.Directive.Error
import ServiceWiring.Duration
import ServiceWiring.FileTree.Access
import ServiceWiring.FileTree.Basic
import ServiceWiring.FileTree.Replace
import ServiceWiring.Folder.Basic
import ServiceWiring.Folder.Generation
import ServiceWiring.Folder.Pass
import ServiceWiring.Folder.Scan
import ServiceWiring.Folder.State
import ServiceWiring.Generated.CodeLine
import ServiceWiring.Generated.Default
import ServiceWiring.Generated.Field
import ServiceWiring.Generated.File
import ServiceWiring.Generated.Number
import ServiceWiring.Generated.PreservedBlock
import ServiceWiring.Generated.Route
import ServiceWiring.Generated.TypeShape
import ServiceWiring.Glob.Expansion
import ServiceWiring.Glob.Pattern
import ServiceWiring.Import.Entry
import ServiceWiring.Import.Resolved
import ServiceWiring.Import.TypeExpr
import ServiceWiring.Issue
import ServiceWiring.Json.Parser
import ServiceWiring.Json.Printer
import ServiceWiring.Json.Token
import ServiceWiring.Json.Value
import ServiceWiring.Main
import ServiceWiring.Manifest
import ServiceWiring.Path
import ServiceWiring.Proofs.BlockLoss
import ServiceWiring.Proofs.CacheHit
import ServiceWiring.Proofs.DirectiveReading
import ServiceWiring.Proofs.DirectiveText
import ServiceWiring.Proofs.FileTree
import ServiceWiring.Proofs.FileReplacement
import ServiceWiring.Proofs.GeneratedText
import ServiceWiring.Proofs.Generation
import ServiceWiring.Proofs.HandWritten
import ServiceWiring.Proofs.History
import ServiceWiring.Proofs.Import
import ServiceWiring.Proofs.Json
import ServiceWiring.Proofs.Manifest
import ServiceWiring.Proofs.OptionChange
import ServiceWiring.Proofs.Pass
import ServiceWiring.Proofs.Path
import ServiceWiring.Proofs.PlanText
import ServiceWiring.Proofs.Rerun
import ServiceWiring.Proofs.Scan
import ServiceWiring.Proofs.ServiceText
import ServiceWiring.Proofs.SourceText
import ServiceWiring.Proofs.Text
import ServiceWiring.Proofs.WrittenOutput
import ServiceWiring.Service.Aggregate
import ServiceWiring.Service.Basic
import ServiceWiring.Source.Code
import ServiceWiring.Source.Declaration
import ServiceWiring.Source.File
import ServiceWiring.Source.Index
import ServiceWiring.Text.Alphanumeric
import ServiceWiring.Text.Blank
import ServiceWiring.Text.Lines
import ServiceWiring.Text.Quoted
import ServiceWiring.Proofs.PreservedBlock
import ServiceWiring.Proofs.Regeneration
import ServiceWiring.Proofs.Repair
import ServiceWiring.Proofs.Interruption
import ServiceWiring.Proofs.Agreement
import ServiceWiring.Proofs.Aggregation
import ServiceWiring.Proofs.DirectiveLine
import ServiceWiring.Proofs.Accounting
import ServiceWiring.Proofs.Prescan
import ServiceWiring.Proofs.ArgumentItems
import ServiceWiring.Proofs.ArgumentText
import ServiceWiring.Proofs.Marking
import ServiceWiring.Proofs.Membership
import ServiceWiring.Proofs.ConflictFree
import ServiceWiring.Proofs.FileOrder
import ServiceWiring.Proofs.ImportResolution
import ServiceWiring.Proofs.PathOrder
import ServiceWiring.Proofs.ScanOnce
import ServiceWiring.Proofs.TypeRewriting
import ServiceWiring.Proofs.ImportBlock
import ServiceWiring.Proofs.CodeBlock
import ServiceWiring.Proofs.GeneratedLocals
import ServiceWiring.Proofs.FieldCalls
import ServiceWiring.Proofs.ImportUse
import ServiceWiring.Proofs.SourceCode
import ServiceWiring.Proofs.RealComment
import ServiceWiring.Proofs.Nesting
import ServiceWiring.Proofs.Bracket
import ServiceWiring.Proofs.ResultText
import ServiceWiring.Proofs.MethodSignature
import ServiceWiring.Proofs.OneLineGroup
import ServiceWiring.Proofs.NumberLiteral
import ServiceWiring.Proofs.FloatDefault
import ServiceWiring.Proofs.IntegerDefault
import ServiceWiring.Proofs.DurationLiteral
import ServiceWiring.Proofs.DurationExpression
import ServiceWiring.Proofs.ListDefault
import ServiceWiring.Proofs.ConfigArgument
import ServiceWiring.Proofs.QuotedArgument
import ServiceWiring.Proofs.DirectiveForms
import ServiceWiring.Proofs.AcceptedDirective
import ServiceWiring.Proofs.RouteTable
import ServiceWiring.Proofs.SourceRegion
import ServiceWiring.Proofs.DeclaredByCode
import ServiceWiring.Proofs.DisarmedDirective
import ServiceWiring.Proofs.FileChange
import ServiceWiring.Proofs.PlacementError
import ServiceWiring.Proofs.Fingerprint
import ServiceWiring.Proofs.DeclarationIndex
import ServiceWiring.Proofs.ParameterList
import ServiceWiring.Proofs.JoinedPath
import ServiceWiring.Proofs.RootSpelling
import ServiceWiring.Proofs.QuotedText
import ServiceWiring.Proofs.GeneratedLiteral
import ServiceWiring.Proofs.QuotedFile
