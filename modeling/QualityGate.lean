import QualityGate.Color
import QualityGate.Command
import QualityGate.Command.Execute
import QualityGate.Command.Help
import QualityGate.Command.Parse
import QualityGate.CompilerOptions
import QualityGate.Decimal.Ratio
import QualityGate.DesignToken
import QualityGate.Discovery
import QualityGate.Disk
import QualityGate.FileAnalysis
import QualityGate.Gate
import QualityGate.Glob
import QualityGate.Graph
import QualityGate.Graph.Chain
import QualityGate.Graph.Check
import QualityGate.Graph.Cycle
import QualityGate.Graph.OfFiles
import QualityGate.Graph.Primitive
import QualityGate.IgnoreFile
import QualityGate.Imports
import QualityGate.Json
import QualityGate.Json.Printer
import QualityGate.Json.Reader
import QualityGate.Json.Record
import QualityGate.Json.Relaxed
import QualityGate.Main
import QualityGate.NodeRule
import QualityGate.Path
import QualityGate.ProjectConfig
import QualityGate.Proofs.Animation
import QualityGate.Proofs.AnyType.Bindings
import QualityGate.Proofs.AnyType.Context
import QualityGate.Proofs.AnyType.Copies
import QualityGate.Proofs.AnyType.Order
import QualityGate.Proofs.AnyType.Parentheses
import QualityGate.Proofs.Command.Outcome
import QualityGate.Proofs.DefaultExport
import QualityGate.Proofs.DesignToken.References
import QualityGate.Proofs.DesignToken.Unused
import QualityGate.Proofs.DesignToken.Variables
import QualityGate.Proofs.Discovery
import QualityGate.Proofs.Discovery.Listed
import QualityGate.Proofs.Disk
import QualityGate.Proofs.Findings.Components
import QualityGate.Proofs.Findings.Counters
import QualityGate.Proofs.Findings.Files
import QualityGate.Proofs.Findings.Project
import QualityGate.Proofs.Findings.Thresholds
import QualityGate.Proofs.Findings.Typed
import QualityGate.Proofs.Gate.CircularImports
import QualityGate.Proofs.Gate.Counters
import QualityGate.Proofs.Gate.Imports
import QualityGate.Proofs.Gate.Schedule
import QualityGate.Proofs.Gate.Sources
import QualityGate.Proofs.Gate.StrictMode
import QualityGate.Proofs.Gate.Thresholds
import QualityGate.Proofs.Gate.Unparsable
import QualityGate.Proofs.Gate.WellFormed
import QualityGate.Proofs.Graph.BreadthFirst
import QualityGate.Proofs.Graph.Chain
import QualityGate.Proofs.Graph.Cycles
import QualityGate.Proofs.Graph.DepthFirst
import QualityGate.Proofs.Graph.FanIn
import QualityGate.Proofs.Graph.OfFiles
import QualityGate.Proofs.Graph.Parents
import QualityGate.Proofs.Graph.Ring
import QualityGate.Proofs.Graph.Walk
import QualityGate.Proofs.GridDensity
import QualityGate.Proofs.Json.Grammar
import QualityGate.Proofs.Json.Number
import QualityGate.Proofs.Json.Reading
import QualityGate.Proofs.Json.RoundTrip
import QualityGate.Proofs.Json.Strip
import QualityGate.Proofs.Json.Tokens
import QualityGate.Proofs.Nesting
import QualityGate.Proofs.Path.Below
import QualityGate.Proofs.Path.Names
import QualityGate.Proofs.Path.Normal
import QualityGate.Proofs.Path.Order
import QualityGate.Proofs.Path.Pieces
import QualityGate.Proofs.Path.Walk
import QualityGate.Proofs.PixelLength
import QualityGate.Proofs.ProjectConfig.Nearest
import QualityGate.Proofs.ProjectConfig.PathsBase
import QualityGate.Proofs.ProjectConfig.Precedence
import QualityGate.Proofs.PropDrilling
import QualityGate.Proofs.PropDrilling.Elements
import QualityGate.Proofs.PropDrilling.Levels
import QualityGate.Proofs.Report.Human
import QualityGate.Proofs.Report.ReadBack
import QualityGate.Proofs.Report.Renderings
import QualityGate.Proofs.Report.RollUp
import QualityGate.Proofs.Resolver
import QualityGate.Proofs.Resolver.Aliases
import QualityGate.Proofs.Syntax.Cursor
import QualityGate.Proofs.Syntax.Literals
import QualityGate.Proofs.Syntax.Parentheses
import QualityGate.Proofs.Syntax.Places
import QualityGate.Proofs.Syntax.Position
import QualityGate.Proofs.Syntax.Templates
import QualityGate.Proofs.Text.Words
import QualityGate.Proofs.TextHierarchy
import QualityGate.Proofs.TypeShape
import QualityGate.Proofs.TypeShape.Layout
import QualityGate.Proofs.TypeShape.Pieces
import QualityGate.Proofs.TypeShape.Tokens
import QualityGate.Proofs.UnusedImport
import QualityGate.Proofs.UtilityClass.ClassStrings
import QualityGate.Proofs.UtilityClass.Order
import QualityGate.Proofs.UtilityClass.Token
import QualityGate.Proofs.Violation
import QualityGate.Proofs.Violation.Order
import QualityGate.Proofs.Violation.Within
import QualityGate.Proofs.Walks
import QualityGate.Report
import QualityGate.Report.Document
import QualityGate.Report.Human
import QualityGate.Report.Sarif
import QualityGate.Report.Style
import QualityGate.Resolver
import QualityGate.Rule
import QualityGate.Semantic.AnyType
import QualityGate.Semantic.Check
import QualityGate.Semantic.DefaultExport
import QualityGate.Semantic.Nesting
import QualityGate.Semantic.Program
import QualityGate.Semantic.PropDrilling
import QualityGate.Semantic.TypeShape
import QualityGate.Semantic.UnusedImport
import QualityGate.Settings
import QualityGate.Settings.Document
import QualityGate.Settings.File
import QualityGate.Structure
import QualityGate.Syntax.Character
import QualityGate.Syntax.Comments
import QualityGate.Syntax.Node.Cursor
import QualityGate.Syntax.Grammar
import QualityGate.Syntax.Grammar.Classes
import QualityGate.Syntax.Grammar.Expressions
import QualityGate.Syntax.Grammar.Functions
import QualityGate.Syntax.Grammar.Markup
import QualityGate.Syntax.Grammar.Names
import QualityGate.Syntax.Grammar.Patterns
import QualityGate.Syntax.Grammar.Signature
import QualityGate.Syntax.Grammar.Statements
import QualityGate.Syntax.Grammar.Types
import QualityGate.Syntax.Kind
import QualityGate.Syntax.Literals
import QualityGate.Syntax.Node
import QualityGate.Syntax.Parser
import QualityGate.Syntax.Repair
import QualityGate.Syntax.SourceFile
import QualityGate.Syntax.Token
import QualityGate.Tables
import QualityGate.Text.Blank
import QualityGate.Text.Case
import QualityGate.Text.Digit
import QualityGate.Text.Letter
import QualityGate.Text.Search
import QualityGate.Toml
import QualityGate.Toml.Build
import QualityGate.Toml.Reader
import QualityGate.Toml.Scan
import QualityGate.UtilityClass.Check
import QualityGate.UtilityClass.ClassString
import QualityGate.UtilityClass.Token
import QualityGate.Violation
import QualityGate.Violation.Document
