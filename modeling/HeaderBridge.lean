import HeaderBridge.Bridge.ExprReading
import HeaderBridge.Bridge.Literal
import HeaderBridge.Bridge.MacroConstant
import HeaderBridge.Bridge.TypeMap
import HeaderBridge.Decimal.Binary64
import HeaderBridge.Decimal.Reading
import HeaderBridge.Decimal.Shortest
import HeaderBridge.Fault
import HeaderBridge.Labelled
import HeaderBridge.Objc.Expr
import HeaderBridge.Objc.Grammar.Expr
import HeaderBridge.Objc.Grammar.Header
import HeaderBridge.Objc.Grammar.TypeName
import HeaderBridge.Objc.Node
import HeaderBridge.Objc.NodeStack
import HeaderBridge.Objc.Outline
import HeaderBridge.Objc.Parse
import HeaderBridge.Objc.ReadState
import HeaderBridge.Objc.Rule
import HeaderBridge.Objc.SyntaxError
import HeaderBridge.Objc.Type
import HeaderBridge.Pattern.Basic
import HeaderBridge.Pattern.Captures
import HeaderBridge.Pattern.Expr
import HeaderBridge.Plan.Accessors
import HeaderBridge.Plan.EmptyExtensions
import HeaderBridge.Plan.FilePlan
import HeaderBridge.Plan.History
import HeaderBridge.Plan.HistoryReport
import HeaderBridge.Plan.Member
import HeaderBridge.Plan.OfHeader
import HeaderBridge.Plan.Plan
import HeaderBridge.Plan.Surroundings
import HeaderBridge.Plan.TypePlan
import HeaderBridge.Plan.ValueTypes
import HeaderBridge.Plan.Workers
import HeaderBridge.Session
import HeaderBridge.Settings
import HeaderBridge.SettingsFile
import HeaderBridge.Source.Diagnostic
import HeaderBridge.Source.Excerpt
import HeaderBridge.Source.LineIndex
import HeaderBridge.Source.Span
import HeaderBridge.Swift.Chain
import HeaderBridge.Swift.Constant
import HeaderBridge.Swift.Expr
import HeaderBridge.Swift.Operator
import HeaderBridge.Swift.Type
import HeaderBridge.Text.Quoted
import HeaderBridge.Token.Kind
import HeaderBridge.Token.Lexer
import HeaderBridge.Toml.Moment
import HeaderBridge.Toml.Number
import HeaderBridge.Toml.Scan
import HeaderBridge.Toml.Statement
import HeaderBridge.Toml.Text
import HeaderBridge.Toml.Value
import HeaderBridge.Typing.Foundation
import HeaderBridge.Typing.KnownType
import HeaderBridge.Typing.Registry
import HeaderBridge.Typing.Resolution
import HeaderBridge.Typing.Scope
import HeaderBridge.Typing.Signature
import HeaderBridge.Unicode.CharClass
import HeaderBridge.Unicode.CodePointSet
import HeaderBridge.Unicode.Uppercase
import HeaderBridge.Proofs.Reading.Halves
import HeaderBridge.Proofs.Reading.Outcome
import HeaderBridge.Proofs.Reading.Passage
import HeaderBridge.Proofs.Reading.Safe
import HeaderBridge.Proofs.Totality.Types
import HeaderBridge.Proofs.Totality.Expr
import HeaderBridge.Proofs.Totality.Header
import HeaderBridge.Proofs.Lexical.Places
import HeaderBridge.Proofs.Totality.Reading
import HeaderBridge.Proofs.Reading.Finding
import HeaderBridge.Proofs.Types.Reading
import HeaderBridge.Proofs.Types.Splitting
import HeaderBridge.Proofs.Types.Opening
import HeaderBridge.Proofs.Types.Exact
import HeaderBridge.Proofs.Types.Speculation
import HeaderBridge.Proofs.Expr.Stratified
import HeaderBridge.Proofs.Expr.Rounds
import HeaderBridge.Proofs.Expr.Sound
import HeaderBridge.Proofs.Expr.Complete
import HeaderBridge.Proofs.Expr.Exact
import HeaderBridge.Proofs.Header.Declared
import HeaderBridge.Proofs.Header.Spelling
import HeaderBridge.Proofs.Header.Building
import HeaderBridge.Proofs.Header.Methods
import HeaderBridge.Proofs.Header.Declarations
import HeaderBridge.Proofs.Header.Reproduced
import HeaderBridge.Proofs.Tree.Course
import HeaderBridge.Proofs.Tree.Rules
import HeaderBridge.Proofs.Tree.Placed
import HeaderBridge.Proofs.Tree.WellFormed
import HeaderBridge.Proofs.Lexical.Tiling
import HeaderBridge.Proofs.Folding.Meaning
import HeaderBridge.Proofs.Folding.Constants
import HeaderBridge.Proofs.Folding.WellTyped
import HeaderBridge.Proofs.Folding.Direct
import HeaderBridge.Proofs.Agreement.Faces
import HeaderBridge.Proofs.Agreement.Outcomes
import HeaderBridge.Proofs.Agreement.Combinators
import HeaderBridge.Proofs.Agreement.Rules
import HeaderBridge.Proofs.Agreement.Carrying
import HeaderBridge.Proofs.Agreement.Members
import HeaderBridge.Proofs.Recovery.Bodies
import HeaderBridge.Proofs.Recovery.Reaching
import HeaderBridge.Proofs.Recovery.Insertion
import HeaderBridge.Proofs.Recovery.UnknownMember
import HeaderBridge.Proofs.Recovery.BrokenProperty
import HeaderBridge.Proofs.Recovery.MissingEnd
import HeaderBridge.Proofs.Recovery.Logged
import HeaderBridge.Proofs.Directives.Watch
import HeaderBridge.Proofs.Directives.Rules
import HeaderBridge.Proofs.Directives.Members
import HeaderBridge.Proofs.Directives.Declarations
import HeaderBridge.Proofs.Directives.Headers
import HeaderBridge.Proofs.Typing.Above
import HeaderBridge.Proofs.Typing.Additions
import HeaderBridge.Proofs.Typing.Subtype
import HeaderBridge.Proofs.Typing.Members
import HeaderBridge.Proofs.Typing.Keys
import HeaderBridge.Proofs.Typing.Built
import HeaderBridge.Proofs.Lexical.Spacing
import HeaderBridge.Proofs.Agreement.Trying
import HeaderBridge.Proofs.Agreement.Expressions
import HeaderBridge.Proofs.Agreement.Sources
import HeaderBridge.Proofs.Program.Merging
import HeaderBridge.Proofs.Program.Inheritance
import HeaderBridge.Proofs.Workers.Account
import HeaderBridge.Proofs.Workers.AnyOrder
import HeaderBridge.Proofs.Rerun.Simplified
import HeaderBridge.Proofs.Rerun.Again
import HeaderBridge.Proofs.Lexical.Lines
import HeaderBridge.Proofs.Planning.Faithful
import HeaderBridge.Proofs.Matching.Recording
import HeaderBridge.Proofs.Matching.Meaning
import HeaderBridge.Proofs.Nodes.Ledger
import HeaderBridge.Proofs.Nodes.Rewinding
import HeaderBridge.Proofs.Accessors.Exact
import HeaderBridge.Proofs.Resolution.Optionality
import HeaderBridge.Proofs.Resolution.Names
import HeaderBridge.Proofs.Resolution.Positions
import HeaderBridge.Proofs.Resolution.Extension
import HeaderBridge.Proofs.Resolution.Methods
import HeaderBridge.Proofs.Lexical.Joining
import HeaderBridge.Proofs.Enclosing.Rows
import HeaderBridge.Proofs.Enclosing.Types
import HeaderBridge.Proofs.Enclosing.Expressions
import HeaderBridge.Proofs.Enclosing.Sources
import HeaderBridge.Proofs.Enclosing.Groups
import HeaderBridge.Proofs.Quoting.Denotation
import HeaderBridge.Proofs.Quoting.Strings
import HeaderBridge.Proofs.Enclosing.Casts
import HeaderBridge.Proofs.Expr.Whole
import HeaderBridge.Proofs.Rendering.Words
import HeaderBridge.Proofs.Rendering.Types
import HeaderBridge.Proofs.Rendering.Atoms
import HeaderBridge.Proofs.Rendering.Lexemes
import HeaderBridge.Proofs.Rendering.Layout
import HeaderBridge.Proofs.Rendering.Mapping
import HeaderBridge.Proofs.Rendering.Settling
import HeaderBridge.Proofs.Rendering.Sources
import HeaderBridge.Proofs.Rendering.Optionality
import HeaderBridge.Proofs.Printing.Stored
import HeaderBridge.Proofs.Printing.Rules
import HeaderBridge.Proofs.Rendering.Names
import HeaderBridge.Proofs.Printing.Faces
import HeaderBridge.Proofs.Printing.Reread
import HeaderBridge.Proofs.Traversal.Order
import HeaderBridge.Proofs.Matching.Chains
import HeaderBridge.Proofs.Matching.Composed
import HeaderBridge.Proofs.Matching.Inversion
import HeaderBridge.Proofs.Matching.Searching
import HeaderBridge.Proofs.Reports.Complete
import HeaderBridge.Proofs.Numerals.Integers
import HeaderBridge.Proofs.Trailing.Framed
import HeaderBridge.Proofs.Lexical.Cutting
import HeaderBridge.Proofs.Trailing.Overrun
import HeaderBridge.Proofs.Trailing.Spots
import HeaderBridge.Proofs.Trailing.Lists
import HeaderBridge.Proofs.Trailing.TypeNames
import HeaderBridge.Proofs.Trailing.Commas
import HeaderBridge.Proofs.Rerun.EitherOrder
import HeaderBridge.Proofs.Recovery.Spelt
import HeaderBridge.Proofs.Recovery.StraySemicolon
