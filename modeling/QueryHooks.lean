import QueryHooks.Affixes
import QueryHooks.Casing
import QueryHooks.CommandLine.Arguments
import QueryHooks.CommandLine.Command
import QueryHooks.CommandLine.Discovery
import QueryHooks.CommandLine.Failure
import QueryHooks.CommandLine.Generate
import QueryHooks.CommandLine.Log
import QueryHooks.CommandLine.Run
import QueryHooks.Config.Basic
import QueryHooks.Config.Decoding
import QueryHooks.Config.Options
import QueryHooks.Decimal.Binary64
import QueryHooks.Decimal.Power
import QueryHooks.Decimal.Shortest
import QueryHooks.Document.Lexeme
import QueryHooks.Document.Number
import QueryHooks.Document.Parser
import QueryHooks.Document.Position
import QueryHooks.Document.Selection
import QueryHooks.Document.StringValue
import QueryHooks.Document.Syntax
import QueryHooks.Document.Token
import QueryHooks.Document.TypeReader
import QueryHooks.Document.ValueReader
import QueryHooks.Document.ValueText
import QueryHooks.Emission.Assembly
import QueryHooks.Emission.Collector
import QueryHooks.Emission.Eligible
import QueryHooks.Emission.Emitter
import QueryHooks.Emission.Imports
import QueryHooks.FileTree.Basic
import QueryHooks.FileTree.Path
import QueryHooks.FileTree.Reading
import QueryHooks.FileTree.Walk
import QueryHooks.FileTree.Writing
import QueryHooks.Glob.Basic
import QueryHooks.Glob.Matching
import QueryHooks.Glob.Parser
import QueryHooks.Hook.Basic
import QueryHooks.Hook.Generation
import QueryHooks.Hook.Name
import QueryHooks.Main
import QueryHooks.Message
import QueryHooks.Operation.Basic
import QueryHooks.Operation.Draft
import QueryHooks.Operation.Loading
import QueryHooks.Operation.TypeRef
import QueryHooks.Operation.Variable
import QueryHooks.PatternSet
import QueryHooks.Proofs.Casing.Cuts
import QueryHooks.Proofs.Casing.Equality
import QueryHooks.Proofs.Casing.Image
import QueryHooks.Proofs.Casing.Reading
import QueryHooks.Proofs.Casing.Runs
import QueryHooks.Proofs.Casing.Separators
import QueryHooks.Proofs.Casing.Stability
import QueryHooks.Proofs.Casing.Words
import QueryHooks.Proofs.CommandLine.Delivery
import QueryHooks.Proofs.CommandLine.Discovery
import QueryHooks.Proofs.CommandLine.FirstFailure
import QueryHooks.Proofs.CommandLine.Overlap
import QueryHooks.Proofs.CommandLine.Runs
import QueryHooks.Proofs.CommandLine.Stages
import QueryHooks.Proofs.Config.Entries
import QueryHooks.Proofs.Config.Making
import QueryHooks.Proofs.Config.Rejection
import QueryHooks.Proofs.Config.Settings
import QueryHooks.Proofs.Decimal.Nearest
import QueryHooks.Proofs.Decimal.Shortest
import QueryHooks.Proofs.Document.BlockLines
import QueryHooks.Proofs.Document.BlockTexts
import QueryHooks.Proofs.Document.Brackets
import QueryHooks.Proofs.Document.Crashes
import QueryHooks.Proofs.Document.DefaultPlaces
import QueryHooks.Proofs.Document.DefinitionReading
import QueryHooks.Proofs.Document.JoinedTexts
import QueryHooks.Proofs.Document.KeptValues
import QueryHooks.Proofs.Document.Nesting
import QueryHooks.Proofs.Document.NumberTexts
import QueryHooks.Proofs.Document.OperationTokens
import QueryHooks.Proofs.Document.Placement
import QueryHooks.Proofs.Document.ProperTypes
import QueryHooks.Proofs.Document.QuotedTexts
import QueryHooks.Proofs.Document.ReadingOff
import QueryHooks.Proofs.Document.RewrittenDefaults
import QueryHooks.Proofs.Document.Scanning
import QueryHooks.Proofs.Document.Segments
import QueryHooks.Proofs.Document.TokenTexts
import QueryHooks.Proofs.Document.TypeText
import QueryHooks.Proofs.Document.ValueTexts
import QueryHooks.Proofs.Document.ValueTokens
import QueryHooks.Proofs.Emission.Accessors
import QueryHooks.Proofs.Emission.Collision
import QueryHooks.Proofs.Emission.Declarations
import QueryHooks.Proofs.Emission.DistinctTypes
import QueryHooks.Proofs.Emission.Equality
import QueryHooks.Proofs.Emission.Exclusion
import QueryHooks.Proofs.Emission.Indentation
import QueryHooks.Proofs.Emission.Influence
import QueryHooks.Proofs.Emission.Landmarks
import QueryHooks.Proofs.Emission.ModuleLines
import QueryHooks.Proofs.Emission.Monotonicity
import QueryHooks.Proofs.Emission.Ownership
import QueryHooks.Proofs.Emission.Readback
import QueryHooks.Proofs.Emission.Sessions
import QueryHooks.Proofs.Emission.Support
import QueryHooks.Proofs.Emission.TypeNames
import QueryHooks.Proofs.FileTree.Resolution
import QueryHooks.Proofs.FileTree.Walking
import QueryHooks.Proofs.Glob.Language
import QueryHooks.Proofs.Glob.Plain
import QueryHooks.Proofs.Glob.PlainReading
import QueryHooks.Proofs.Hook.AppliedNames
import QueryHooks.Proofs.Hook.Identifiers
import QueryHooks.Proofs.Hook.Optionality
import QueryHooks.Proofs.Hook.Rows
import QueryHooks.Proofs.Operation.DefaultTexts
import QueryHooks.Proofs.Operation.Draft
import QueryHooks.Proofs.Operation.Joining
import QueryHooks.Proofs.Operation.Loading
import QueryHooks.Proofs.Operation.Names
import QueryHooks.Proofs.Operation.Printing
import QueryHooks.Proofs.Operation.Steps
import QueryHooks.Proofs.Repetition
import QueryHooks.Proofs.Text.Digits
import QueryHooks.Proofs.Text.Languages
import QueryHooks.Proofs.Text.Letters
import QueryHooks.Proofs.Text.Returns
import QueryHooks.Proofs.Text.Rows
import QueryHooks.Text.Blank
import QueryHooks.Text.Digits
import QueryHooks.Text.Lines
import QueryHooks.Text.Printable
import QueryHooks.Text.Quoted
import QueryHooks.Text.Separated
import QueryHooks.Yaml.BlockScalar
import QueryHooks.Yaml.Cursor
import QueryHooks.Yaml.Document
import QueryHooks.Yaml.FlowScalar
import QueryHooks.Yaml.Layout
import QueryHooks.Yaml.Syntax
import QueryHooks.Yaml.Tag
import QueryHooks.Yaml.Token
import QueryHooks.Yaml.Value
