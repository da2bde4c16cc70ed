import LoxSyntax.Directory
import LoxSyntax.Expr.Shape
import LoxSyntax.Lexical.Lossless
import LoxSyntax.Main
import LoxSyntax.Proofs.Expr.Depth
import LoxSyntax.Sink
import LoxSyntax.Proofs.Expr.Counter
import LoxSyntax.Proofs.Expr.Guard
import LoxSyntax.Proofs.Expr.Position
import LoxSyntax.Proofs.Expr.Failure
import LoxSyntax.Proofs.Expr.Runs
import LoxSyntax.Proofs.Lexical.Gap
import LoxSyntax.Proofs.Lexical.Grammar
import LoxSyntax.Proofs.Lexical.Scan
import LoxSyntax.Proofs.Lexical.Tiling
import LoxSyntax.Proofs.Lexical.Requests
import LoxSyntax.Proofs.Lexical.Cut
import LoxSyntax.Proofs.Lexical.Insertion
import LoxSyntax.Proofs.Performance
import LoxSyntax.Proofs.Command.Parse
import LoxSyntax.Proofs.Lexical.Spaced
import LoxSyntax.Proofs.Expr.Writing
import LoxSyntax.Proofs.Command.RoundTrip
import LoxSyntax.Proofs.Command.Lines
import LoxSyntax.Proofs.Command.Sinks
import LoxSyntax.Proofs.Expr.Traces
import LoxSyntax.Proofs.Command.Agreement
import LoxSyntax.Proofs.Number.Characters
import LoxSyntax.Proofs.Text.Decoding
import LoxSyntax.Proofs.Text.Newlines
import LoxSyntax.Proofs.Command.Newlines
import LoxSyntax.Proofs.Number.Nearest
import LoxSyntax.Proofs.Number.Shortest
import LoxSyntax.Proofs.Number.Reading
import LoxSyntax.Proofs.Text.Json
import LoxSyntax.Proofs.Command.Json
import LoxSyntax.Proofs.Expr.Taking
import LoxSyntax.Proofs.Expr.Parallel
import LoxSyntax.Proofs.Expr.Laziness
import LoxSyntax.Proofs.Expr.Faults
import LoxSyntax.Proofs.Lexical.Rescan
import LoxSyntax.Proofs.Lexical.Joined
import LoxSyntax.Proofs.Expr.Succession
import LoxSyntax.Proofs.Command.Concatenation
import LoxSyntax.Proofs.Text.Boundaries
import LoxSyntax.Proofs.Lexical.Characters
import LoxSyntax.Proofs.Lexical.Operations
import LoxSyntax.Proofs.Lexical.Quotes
import LoxSyntax.Proofs.Lookahead
import LoxSyntax.Proofs.Expr.EndOfInput
import LoxSyntax.Proofs.Lexical.Head
import LoxSyntax.Proofs.Lexical.Positions
import LoxSyntax.Proofs.Expr.Asking
import LoxSyntax.Proofs.Expr.Recursion
import LoxSyntax.Proofs.Number.Plain
import LoxSyntax.Proofs.Expr.Unambiguous
import LoxSyntax.Proofs.Number.Rounding
import LoxSyntax.Proofs.Lexical.Numerals
import LoxSyntax.Proofs.Lexical.Log
