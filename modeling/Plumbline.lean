import Plumbline.Analysis.Infer
import Plumbline.Analysis.Project
import Plumbline.Analysis.Resolve
import Plumbline.Analysis.Type
import Plumbline.Cli.Arguments
import Plumbline.Cli.Commands
import Plumbline.Cli.Discovery
import Plumbline.Cli.Report
import Plumbline.Config.Basic
import Plumbline.Config.Decode
import Plumbline.Config.Glob
import Plumbline.Config.Load
import Plumbline.Config.RuleName
import Plumbline.Config.Toml
import Plumbline.Files.CacheDir
import Plumbline.Files.Disk
import Plumbline.Files.Ignore
import Plumbline.Files.Path
import Plumbline.Files.Tree
import Plumbline.Files.Wildcard
import Plumbline.Fix.Apply
import Plumbline.Fix.Edit
import Plumbline.Fix.Gate
import Plumbline.Fix.Plan
import Plumbline.Layers.Basic
import Plumbline.Main
import Plumbline.Module.Basic
import Plumbline.Module.Lower
import Plumbline.Module.Node
import Plumbline.Module.Query
import Plumbline.Module.Skeleton
import Plumbline.Module.Stacked
import Plumbline.Proofs.Analysis.Again
import Plumbline.Proofs.Analysis.Alike
import Plumbline.Proofs.Analysis.Alone
import Plumbline.Proofs.Analysis.Ancestry
import Plumbline.Proofs.Analysis.Binding
import Plumbline.Proofs.Analysis.BodyType
import Plumbline.Proofs.Analysis.Builtin
import Plumbline.Proofs.Analysis.Concrete
import Plumbline.Proofs.Analysis.Dotted
import Plumbline.Proofs.Analysis.Grounds
import Plumbline.Proofs.Analysis.InnerScope
import Plumbline.Proofs.Analysis.Logic
import Plumbline.Proofs.Analysis.NameType
import Plumbline.Proofs.Analysis.Query
import Plumbline.Proofs.Analysis.Remember
import Plumbline.Proofs.Analysis.Reread
import Plumbline.Proofs.Analysis.Spelling
import Plumbline.Proofs.Analysis.TopLevel
import Plumbline.Proofs.Analysis.TwoRuns
import Plumbline.Proofs.Config.Glob
import Plumbline.Proofs.Files.Disk
import Plumbline.Proofs.Files.Draft
import Plumbline.Proofs.Files.Normal
import Plumbline.Proofs.Files.Paths
import Plumbline.Proofs.Fix.Comment
import Plumbline.Proofs.Fix.CommentBlock
import Plumbline.Proofs.Fix.Composition
import Plumbline.Proofs.Fix.Default
import Plumbline.Proofs.Fix.ImportPlace
import Plumbline.Proofs.Fix.InRange
import Plumbline.Proofs.Fix.SecondRun
import Plumbline.Proofs.Fix.WholeFile
import Plumbline.Proofs.Insertion.Agree
import Plumbline.Proofs.Insertion.Block
import Plumbline.Proofs.Insertion.Expression
import Plumbline.Proofs.Insertion.Lexeme
import Plumbline.Proofs.Insertion.Literal
import Plumbline.Proofs.Insertion.Outcome
import Plumbline.Proofs.Insertion.Place
import Plumbline.Proofs.Insertion.PlainText
import Plumbline.Proofs.Insertion.Reading
import Plumbline.Proofs.Insertion.State
import Plumbline.Proofs.Insertion.Statement
import Plumbline.Proofs.Insertion.Tokens
import Plumbline.Proofs.Insertion.Tree
import Plumbline.Proofs.Insertion.Word
import Plumbline.Proofs.Layers.ModulePath
import Plumbline.Proofs.Layers.Prefix
import Plumbline.Proofs.Module.Assignments
import Plumbline.Proofs.Module.Commented
import Plumbline.Proofs.Module.Definitions
import Plumbline.Proofs.Module.Extent
import Plumbline.Proofs.Module.Holdings
import Plumbline.Proofs.Module.Nesting
import Plumbline.Proofs.Module.Parameter
import Plumbline.Proofs.Module.Places
import Plumbline.Proofs.Module.Preorder
import Plumbline.Proofs.Module.Qualname
import Plumbline.Proofs.Module.Skeleton
import Plumbline.Proofs.Module.Source
import Plumbline.Proofs.Module.Traversal
import Plumbline.Proofs.Remedy.Batches
import Plumbline.Proofs.Remedy.Counting
import Plumbline.Proofs.Remedy.Crash
import Plumbline.Proofs.Remedy.FailureLines
import Plumbline.Proofs.Remedy.Formatting
import Plumbline.Proofs.Remedy.Handed
import Plumbline.Proofs.Remedy.Manifest
import Plumbline.Proofs.Remedy.Mirror
import Plumbline.Proofs.Remedy.Pending
import Plumbline.Proofs.Remedy.Recovery
import Plumbline.Proofs.Remedy.Run
import Plumbline.Proofs.Remedy.Safety
import Plumbline.Proofs.Remedy.Store
import Plumbline.Proofs.Remedy.Survey
import Plumbline.Proofs.Remedy.Tally
import Plumbline.Proofs.Remedy.Transaction
import Plumbline.Proofs.Remedy.Trial
import Plumbline.Proofs.Rule.Anchors
import Plumbline.Proofs.Rule.Asking
import Plumbline.Proofs.Rule.ConcreteTypes
import Plumbline.Proofs.Rule.DoubleCount
import Plumbline.Proofs.Rule.Evaluate
import Plumbline.Proofs.Rule.Hooks
import Plumbline.Proofs.Rule.Independence
import Plumbline.Proofs.Rule.LayerBreach
import Plumbline.Proofs.Rule.Looking
import Plumbline.Proofs.Rule.Plans
import Plumbline.Proofs.Rule.ReturnHint
import Plumbline.Proofs.Rule.Separation
import Plumbline.Proofs.Rule.Targets
import Plumbline.Proofs.Rule.Walk
import Plumbline.Proofs.Rule.WrittenType
import Plumbline.Proofs.Syntax.Expression
import Plumbline.Proofs.Syntax.Gap
import Plumbline.Proofs.Syntax.ImportLine
import Plumbline.Proofs.Syntax.Line
import Plumbline.Proofs.Syntax.Name
import Plumbline.Proofs.Syntax.Outline
import Plumbline.Proofs.Syntax.Reader
import Plumbline.Proofs.Syntax.Sound
import Plumbline.Proofs.Syntax.Splat
import Plumbline.Proofs.Syntax.Statement
import Plumbline.Proofs.Syntax.WrittenImport
import Plumbline.Proofs.Text.Cursor
import Plumbline.Proofs.Text.Json
import Plumbline.Proofs.Text.Slice
import Plumbline.Proofs.Text.Timestamp
import Plumbline.Remedy.Backup
import Plumbline.Remedy.FailureCount
import Plumbline.Remedy.Formatter
import Plumbline.Remedy.Run
import Plumbline.Remedy.Summary
import Plumbline.Remedy.TestRun
import Plumbline.Remedy.Tool
import Plumbline.Rule.Basic
import Plumbline.Rule.Evaluate
import Plumbline.Rule.LayerDependency
import Plumbline.Rule.MutableRecord
import Plumbline.Rule.OpaqueIndirection
import Plumbline.Rule.ParameterHint
import Plumbline.Rule.ReturnHint
import Plumbline.Rule.TestDoubles
import Plumbline.Rule.Violation
import Plumbline.Rule.Walk
import Plumbline.Shell.Bytes
import Plumbline.Shell.Expand
import Plumbline.Shell.Launch
import Plumbline.Shell.LineEditor
import Plumbline.Shell.Pattern
import Plumbline.Shell.Programs
import Plumbline.Shell.Run
import Plumbline.Shell.Syntax
import Plumbline.Shell.Utility
import Plumbline.Syntax.Expression
import Plumbline.Syntax.Grammar
import Plumbline.Syntax.Layout
import Plumbline.Syntax.Parser
import Plumbline.Syntax.Splat
import Plumbline.Syntax.Statement
import Plumbline.Syntax.Text
import Plumbline.Syntax.Token
import Plumbline.Syntax.Tree
import Plumbline.Text.CodePoints
import Plumbline.Text.Decimal
import Plumbline.Text.Digest
import Plumbline.Text.Identifier
import Plumbline.Text.Json
import Plumbline.Text.Letter
import Plumbline.Text.LetterCase
import Plumbline.Text.NameSet
import Plumbline.Text.Quoted
import Plumbline.Text.Slice
import Plumbline.Text.Span
import Plumbline.Text.Timestamp
import Plumbline.Text.Utf8
