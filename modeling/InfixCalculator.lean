import InfixCalculator.Arithmetic
import InfixCalculator.Batch.Outcome
import InfixCalculator.Batch.Report
import InfixCalculator.Batch.Request
import InfixCalculator.Batch.Source
import InfixCalculator.CommandLine.Arguments
import InfixCalculator.CommandLine.Run
import InfixCalculator.Decimal.Literal
import InfixCalculator.Decimal.Shortest
import InfixCalculator.Decimal.Text
import InfixCalculator.Diagnostic
import InfixCalculator.Double.Enclosure
import InfixCalculator.Double.Grid
import InfixCalculator.Double.Power
import InfixCalculator.Evaluation
import InfixCalculator.File.Content
import InfixCalculator.File.Tree
import InfixCalculator.File.Unpacking
import InfixCalculator.Form
import InfixCalculator.Form.Record
import InfixCalculator.Keypad
import InfixCalculator.Keypad.Action
import InfixCalculator.Main
import InfixCalculator.Path
import InfixCalculator.Proofs.Batch.Container
import InfixCalculator.Proofs.Batch.FileName
import InfixCalculator.Proofs.Batch.Layout
import InfixCalculator.Proofs.Batch.Line
import InfixCalculator.Proofs.Batch.LineExpression
import InfixCalculator.Proofs.Batch.Members
import InfixCalculator.Proofs.Batch.Messages
import InfixCalculator.Proofs.Batch.NormalForm
import InfixCalculator.Proofs.Batch.Rejection
import InfixCalculator.Proofs.Batch.Shown
import InfixCalculator.Proofs.CommandLine.Arguments
import InfixCalculator.Proofs.CommandLine.Modes
import InfixCalculator.Proofs.CommandLine.Neighbours
import InfixCalculator.Proofs.CommandLine.Run
import InfixCalculator.Proofs.CommandLine.Unreadable
import InfixCalculator.Proofs.Decimal.Digits
import InfixCalculator.Proofs.Decimal.Grammar
import InfixCalculator.Proofs.Decimal.LiteralText
import InfixCalculator.Proofs.Decimal.Nearest
import InfixCalculator.Proofs.Decimal.ReadBack
import InfixCalculator.Proofs.Decimal.Sign
import InfixCalculator.Proofs.Decimal.Signs
import InfixCalculator.Proofs.Decimal.Value
import InfixCalculator.Proofs.Double.Bits
import InfixCalculator.Proofs.Double.CorrectRounding
import InfixCalculator.Proofs.Double.Grid
import InfixCalculator.Proofs.Double.Negation
import InfixCalculator.Proofs.Double.Order
import InfixCalculator.Proofs.Double.Parity
import InfixCalculator.Proofs.Double.Power
import InfixCalculator.Proofs.Double.Rounding
import InfixCalculator.Proofs.Double.SquareRoot
import InfixCalculator.Proofs.Evaluation.Alternation
import InfixCalculator.Proofs.Evaluation.Attribution
import InfixCalculator.Proofs.Evaluation.Conservation
import InfixCalculator.Proofs.Evaluation.Independence
import InfixCalculator.Proofs.Evaluation.Pending
import InfixCalculator.Proofs.Evaluation.Power
import InfixCalculator.Proofs.Evaluation.Reduction
import InfixCalculator.Proofs.Evaluation.Reports
import InfixCalculator.Proofs.Evaluation.Safety
import InfixCalculator.Proofs.Evaluation.Stretches
import InfixCalculator.Proofs.Evaluation.Strictness
import InfixCalculator.Proofs.Evaluation.Tokens
import InfixCalculator.Proofs.Evaluation.Words
import InfixCalculator.Proofs.File.Place
import InfixCalculator.Proofs.File.Unpacking
import InfixCalculator.Proofs.Grammar.Derivation
import InfixCalculator.Proofs.Grammar.Evaluation
import InfixCalculator.Proofs.Keypad.Atomicity
import InfixCalculator.Proofs.Keypad.Display
import InfixCalculator.Proofs.Keypad.Document
import InfixCalculator.Proofs.Keypad.Entry
import InfixCalculator.Proofs.Keypad.Negation
import InfixCalculator.Proofs.Keypad.Press
import InfixCalculator.Proofs.Keypad.Refinement
import InfixCalculator.Proofs.Keypad.Refusals
import InfixCalculator.Proofs.Keypad.SquareRoot
import InfixCalculator.Proofs.Keypad.Tape
import InfixCalculator.Proofs.Parentheses.Matching
import InfixCalculator.Proofs.Parentheses.Pairs
import InfixCalculator.Proofs.Parentheses.Repair
import InfixCalculator.Proofs.Parentheses.Reported
import InfixCalculator.Proofs.Path.Report
import InfixCalculator.Proofs.Path.Suffix
import InfixCalculator.Proofs.Results
import InfixCalculator.Proofs.Text.Digit
import InfixCalculator.Proofs.Text.EndedLine
import InfixCalculator.Proofs.Text.Line
import InfixCalculator.Proofs.Text.Pieces
import InfixCalculator.Proofs.Text.Spelling
import InfixCalculator.Proofs.Text.Utf8
import InfixCalculator.Settings
import InfixCalculator.Text.Blank
import InfixCalculator.Text.Digit
import InfixCalculator.Text.Line
import InfixCalculator.Text.Numeral
import InfixCalculator.Text.Piece
import InfixCalculator.Text.Printable
import InfixCalculator.Text.Quoted
import InfixCalculator.Text.Utf8
import InfixCalculator.Token
