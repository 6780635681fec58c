import Scriptlet.Arguments
import Scriptlet.Binary.Format
import Scriptlet.Binary.Number
import Scriptlet.Code.Draft
import Scriptlet.Code.Instr
import Scriptlet.Code.Listing
import Scriptlet.Code.Module
import Scriptlet.Compiler
import Scriptlet.Console
import Scriptlet.Core
import Scriptlet.Core.Assembly
import Scriptlet.DataType
import Scriptlet.Decimal.General
import Scriptlet.Decimal.Reader
import Scriptlet.Decimal.Shortest
import Scriptlet.Diagnostic
import Scriptlet.Engine
import Scriptlet.Engine.Builtin
import Scriptlet.Engine.EngineError
import Scriptlet.Engine.Toolchain
import Scriptlet.Header
import Scriptlet.Image
import Scriptlet.Image.Codec
import Scriptlet.Image.Layout
import Scriptlet.Machine.Binding
import Scriptlet.Machine.Conversion
import Scriptlet.Machine.Fault
import Scriptlet.Machine.Library
import Scriptlet.Machine.Operator
import Scriptlet.Machine.Program
import Scriptlet.Machine.Promotion
import Scriptlet.Machine.Run
import Scriptlet.Main
import Scriptlet.Operator
import Scriptlet.Parser.Basic
import Scriptlet.Parser.Expr
import Scriptlet.Parser.Source
import Scriptlet.Parser.Stmt
import Scriptlet.Proofs.Binary.Bits
import Scriptlet.Proofs.Binary.Decoding
import Scriptlet.Proofs.Binary.Encoding
import Scriptlet.Proofs.Binary.Nearest
import Scriptlet.Proofs.Binary.Rounding
import Scriptlet.Proofs.Binary.Twice
import Scriptlet.Proofs.Binary.Words
import Scriptlet.Proofs.Code.Draft
import Scriptlet.Proofs.Code.Editing
import Scriptlet.Proofs.Compiler.Integers
import Scriptlet.Proofs.Compiler.Loads
import Scriptlet.Proofs.Compiler.Reals
import Scriptlet.Proofs.Compiler.Runs
import Scriptlet.Proofs.Compiler.Spans
import Scriptlet.Proofs.Core.Assembly
import Scriptlet.Proofs.Core.Evaluation
import Scriptlet.Proofs.Core.Execution
import Scriptlet.Proofs.Core.Invocation
import Scriptlet.Proofs.Core.Layout
import Scriptlet.Proofs.Core.Range
import Scriptlet.Proofs.Core.Simulation
import Scriptlet.Proofs.Core.Slots
import Scriptlet.Proofs.Core.Soundness
import Scriptlet.Proofs.Core.Typing
import Scriptlet.Proofs.Decimal.Digits
import Scriptlet.Proofs.Decimal.Reading
import Scriptlet.Proofs.Decimal.RoundTrip
import Scriptlet.Proofs.Decimal.Shortest
import Scriptlet.Proofs.Engine.Arguments
import Scriptlet.Proofs.Engine.Calls
import Scriptlet.Proofs.Header
import Scriptlet.Proofs.Image.Canonical
import Scriptlet.Proofs.Image.Codec
import Scriptlet.Proofs.Image.Layout
import Scriptlet.Proofs.Linking
import Scriptlet.Proofs.Machine.Agreement
import Scriptlet.Proofs.Machine.Binding
import Scriptlet.Proofs.Machine.Bounds
import Scriptlet.Proofs.Machine.Characters
import Scriptlet.Proofs.Machine.Depth
import Scriptlet.Proofs.Machine.Integers
import Scriptlet.Proofs.Machine.Isolation
import Scriptlet.Proofs.Machine.Loading
import Scriptlet.Proofs.Machine.Locality
import Scriptlet.Proofs.Machine.Reconversion
import Scriptlet.Proofs.Machine.RoutineSafety
import Scriptlet.Proofs.Machine.Safety
import Scriptlet.Proofs.Machine.Simulation
import Scriptlet.Proofs.Machine.Trace
import Scriptlet.Proofs.Meaning.Agreement.Expr
import Scriptlet.Proofs.Meaning.Agreement.Program
import Scriptlet.Proofs.Meaning.Agreement.Stmt
import Scriptlet.Proofs.Meaning.Eval
import Scriptlet.Proofs.Meaning.Program
import Scriptlet.Proofs.Parser.Bare
import Scriptlet.Proofs.Parser.Completeness.Expr
import Scriptlet.Proofs.Parser.Completeness.Source
import Scriptlet.Proofs.Parser.Completeness.Stmt
import Scriptlet.Proofs.Parser.Compound
import Scriptlet.Proofs.Parser.Grammar.Ends
import Scriptlet.Proofs.Parser.Grammar.Expr
import Scriptlet.Proofs.Parser.Grammar.Source
import Scriptlet.Proofs.Parser.Lists
import Scriptlet.Proofs.Parser.Moves
import Scriptlet.Proofs.Parser.Nodes
import Scriptlet.Proofs.Parser.Outcome
import Scriptlet.Proofs.Parser.Places
import Scriptlet.Proofs.Parser.Printing
import Scriptlet.Proofs.Parser.Production
import Scriptlet.Proofs.Parser.Progress
import Scriptlet.Proofs.Parser.Recovery
import Scriptlet.Proofs.Parser.RoundTrip
import Scriptlet.Proofs.Parser.Run
import Scriptlet.Proofs.Parser.Skipping
import Scriptlet.Proofs.Parser.Soundness.Expr
import Scriptlet.Proofs.Parser.Soundness.Source
import Scriptlet.Proofs.Parser.Soundness.Stmt
import Scriptlet.Proofs.Parser.Spans
import Scriptlet.Proofs.Parser.Termination
import Scriptlet.Proofs.Parser.Words
import Scriptlet.Proofs.Session.Delivery
import Scriptlet.Proofs.Text.Blank
import Scriptlet.Proofs.Text.Bytes
import Scriptlet.Proofs.Text.Extent
import Scriptlet.Proofs.Text.Position
import Scriptlet.Proofs.Text.Search
import Scriptlet.Proofs.Text.Utf8
import Scriptlet.Proofs.Text.Words
import Scriptlet.Proofs.Token.Coverage
import Scriptlet.Proofs.Token.Escape
import Scriptlet.Proofs.Token.Faults
import Scriptlet.Proofs.Token.Lines
import Scriptlet.Proofs.Token.Quotation
import Scriptlet.Proofs.Token.Real
import Scriptlet.Proofs.Typing.Acceptance.Call
import Scriptlet.Proofs.Typing.Acceptance.Expr
import Scriptlet.Proofs.Typing.Acceptance.Operation
import Scriptlet.Proofs.Typing.Acceptance.Signature
import Scriptlet.Proofs.Typing.Acceptance.Source
import Scriptlet.Proofs.Typing.Acceptance.Stmt
import Scriptlet.Proofs.Typing.Catalogue
import Scriptlet.Proofs.Typing.Confinement
import Scriptlet.Proofs.Typing.Conformance
import Scriptlet.Proofs.Typing.ControlFlow
import Scriptlet.Proofs.Typing.Elaboration
import Scriptlet.Proofs.Typing.Lexical
import Scriptlet.Proofs.Typing.Parameters
import Scriptlet.Proofs.Typing.Places.Expr
import Scriptlet.Proofs.Typing.Places.Source
import Scriptlet.Proofs.Typing.Reachability
import Scriptlet.Proofs.Typing.Reservation
import Scriptlet.Proofs.Typing.Scoping
import Scriptlet.Proofs.Typing.WellTyped.Expr
import Scriptlet.Proofs.Typing.WellTyped.Method
import Scriptlet.Proofs.Typing.WellTyped.Stmt
import Scriptlet.Proofs.Typing.Yields
import Scriptlet.Proofs.Value.Integers
import Scriptlet.Proofs.Value.Reals
import Scriptlet.Proofs.Value.RoundTrip
import Scriptlet.Proofs.Value.Scientific
import Scriptlet.Session.Execution
import Scriptlet.Session.Form
import Scriptlet.Session.Prompt
import Scriptlet.Template
import Scriptlet.Text.Blank
import Scriptlet.Text.CaseData
import Scriptlet.Text.Escape
import Scriptlet.Text.LetterCase
import Scriptlet.Text.Position
import Scriptlet.Text.Search
import Scriptlet.Text.Utf8
import Scriptlet.Token
import Scriptlet.Token.Lexeme
import Scriptlet.Token.Lexer
import Scriptlet.Tree
import Scriptlet.Typing.Call
import Scriptlet.Typing.Catalogue
import Scriptlet.Typing.Check
import Scriptlet.Typing.Combiner
import Scriptlet.Typing.Conversion
import Scriptlet.Typing.Expr
import Scriptlet.Typing.Operation
import Scriptlet.Typing.Reachability
import Scriptlet.Typing.Scope
import Scriptlet.Typing.SemanticError
import Scriptlet.Typing.Signature
import Scriptlet.Typing.Source
import Scriptlet.Typing.StaticType
import Scriptlet.Typing.Stmt
import Scriptlet.Value
import Scriptlet.Value.Reader
