import Estree.Kind
import Estree.Form
import Estree.Node
import Estree.Cursor
import Estree.Parents
import Estree.Options
import Estree.Options.Reader
import Estree.Text.Indent
import Estree.Text.Quoted
import Estree.Decimal.Shortest
import Estree.Decimal.Numeral
import Estree.Literal
import Estree.Template
import Estree.Printer
import Estree.Json.Value
import Estree.Json.Fault
import Estree.Json.Numeral
import Estree.Json.Lexer
import Estree.Json.Reader
import Estree.Json.Mismatch
import Estree.Decode
import Estree.Node.Builders
import Estree.CommandLine.Arguments
import Estree.CommandLine.Directory
import Estree.CommandLine.LogFormat
import Estree.CommandLine.Run
import Estree.Main
import Estree.Proofs.Parts
import Estree.Proofs.Templates
import Estree.Proofs.Positions
import Estree.Proofs.OptionsReading
import Estree.Proofs.ParentLinks
import Estree.Proofs.LineBreaks
import Estree.Proofs.Lines
import Estree.Proofs.LoopHeads
import Estree.Proofs.Refusals
import Estree.Proofs.Fields
import Estree.Proofs.Encoding
import Estree.Proofs.Indentation
import Estree.Proofs.LeadingBlanks
import Estree.Proofs.Nesting
import Estree.Proofs.Schema
import Estree.Proofs.ExactReading
import Estree.Proofs.TemplateTokens
import Estree.Proofs.Tokens
import Estree.Proofs.Reader
import Estree.Proofs.UniqueReading
import Estree.Proofs.ExpressionReading
import Estree.Proofs.BoundedNesting
import Estree.Proofs.Brackets
import Estree.Proofs.StatementBoundaries
import Estree.Proofs.OperatorGrouping
import Estree.Proofs.NodeObjects
import Estree.Proofs.RenderCalls
import Estree.Proofs.UnreadMembers
import Estree.Proofs.NodeKinds
import Estree.Proofs.JsonSpelling
import Estree.Proofs.TextReading
import Estree.Proofs.Doubles
import Estree.Proofs.ParentRelation
import Estree.Proofs.StringLiterals
import Estree.Proofs.DoubleArithmetic
import Estree.Proofs.NumberReading
import Estree.Proofs.NumberRoundTrip
import Estree.Proofs.RunStages
