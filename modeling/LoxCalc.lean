import LoxCalc.Double.Magnitude
import LoxCalc.Double.Shortest
import LoxCalc.Double.Numeral
import LoxCalc.Double.Text
import LoxCalc.Value
import LoxCalc.Token.Kind
import LoxCalc.Token
import LoxCalc.Source.Segment
import LoxCalc.Source.Scan
import LoxCalc.Source.Cursor
import LoxCalc.Operator
import LoxCalc.Expr
import LoxCalc.Expr.Preorder
import LoxCalc.Expr.Eval
import LoxCalc.Parse.Automaton
import LoxCalc.Parse.TokenStream
import LoxCalc.Report
import LoxCalc.Parse.Reader
import LoxCalc.Parse.Descent
import LoxCalc.Run
import LoxCalc.Text.Quoted
import LoxCalc.Log.Verbosity
import LoxCalc.Log.Record
import LoxCalc.Console.Folder
import LoxCalc.Console.Command
import LoxCalc.Main
import LoxCalc.Proofs.Source.Lexeme
import LoxCalc.Proofs.Source.MaximalMunch
import LoxCalc.Proofs.Parse.Shape
import LoxCalc.Proofs.Parse.Reading
import LoxCalc.Proofs.Parse.Grammar
import LoxCalc.Proofs.Parse.Position
import LoxCalc.Proofs.Parse.Acceptance
import LoxCalc.Proofs.Session
import LoxCalc.Proofs.Double.Bits
import LoxCalc.Proofs.Parse.Alike
import LoxCalc.Proofs.Source.Boundary
import LoxCalc.Proofs.Source.Lines
import LoxCalc.Proofs.Source.Literal
import LoxCalc.Proofs.Fresh
import LoxCalc.Proofs.Parse.Walk
import LoxCalc.Proofs.Parse.InPlace
import LoxCalc.Proofs.Parse.Cursor
import LoxCalc.Proofs.Parse.Fallback
import LoxCalc.Proofs.Compose
import LoxCalc.Proofs.Layout
import LoxCalc.Proofs.Source.LineBreak
import LoxCalc.Proofs.Parse.Correspondence
import LoxCalc.Proofs.Console.Logged
import LoxCalc.Proofs.Console.Prompt
import LoxCalc.Proofs.Double.Rounding
import LoxCalc.Proofs.Double.Shortest
import LoxCalc.Proofs.Double.Notation
import LoxCalc.Proofs.Double.Order
import LoxCalc.Proofs.ReadBack
import LoxCalc.Proofs.Console.FileRun
import LoxCalc.Proofs.Expr.Kinds
import LoxCalc.Proofs.Parse.Refusal
import LoxCalc.Proofs.Source.LineNumbers
import LoxCalc.Proofs.Parse.Recovery
import LoxCalc.Proofs.Expr.FirstFailure
import LoxCalc.Proofs.Double.Payload
import LoxCalc.Proofs.Pattern.Tree
import LoxCalc.Proofs.Double.Denotation
import LoxCalc.Proofs.Expr.Printing
import LoxCalc.Proofs.Pattern.Eval
import LoxCalc.Proofs.Parse.Resumption
import LoxCalc.Proofs.Source.Isolation
import LoxCalc.Proofs.Double.Nearest
import LoxCalc.Proofs.Source.RoundedLiteral
import LoxCalc.Proofs.Source.Tokens
import LoxCalc.Proofs.Double.Fewest
import LoxCalc.Proofs.Double.Significant
import LoxCalc.Proofs.NumberText
import LoxCalc.Proofs.Source.Offset
import LoxCalc.Proofs.Source.Walk
import LoxCalc.Proofs.Source.InPlace
