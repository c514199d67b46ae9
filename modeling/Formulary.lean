import Formulary.Text.Case
import Formulary.Text.Quote
import Formulary.Number.Shortest
import Formulary.Number.Literal
import Formulary.Number.Decimal
import Formulary.Calendar.Moment
import Formulary.Calendar.Layout
import Formulary.Calendar.Span
import Formulary.Lexical.Lexeme
import Formulary.Lexical.Escape
import Formulary.Grammar.Parse
import Formulary.Value.Equal
import Formulary.Value.Number
import Formulary.Host.Sample
import Formulary.Host.Script
import Formulary.Typing.Conversion
import Formulary.Typing.Overload
import Formulary.Typing.Builtin
import Formulary.Scope.Imports
import Formulary.Machine.Assembly
import Formulary.Element.Code
import Formulary.Scope.Basic
import Formulary.Build.Suggestion
import Formulary.Session.Workspace
import Formulary.Library.All
import Formulary.Shell.Settings
import Formulary.Shell.Line
import Formulary.Shell.Batch
import Formulary.Shell.Program
import Formulary.Main
import Formulary.Proofs.Machine.Forward
import Formulary.Proofs.Element.Body
import Formulary.Proofs.Element.Chain
import Formulary.Proofs.Element.Tidy
import Formulary.Proofs.Element.Compilation
import Formulary.Proofs.Element.Layout
import Formulary.Proofs.Build.Walk
import Formulary.Proofs.Build.Operated
import Formulary.Proofs.Build.Resolved
import Formulary.Proofs.Element.Balance
import Formulary.Proofs.Element.Results
import Formulary.Proofs.Element.Safety
import Formulary.Proofs.Grammar.Acceptance
import Formulary.Proofs.Session.Supply
import Formulary.Proofs.Session.TypeSafety
import Formulary.Proofs.Build.Agreement
import Formulary.Proofs.Session.Exactness
import Formulary.Proofs.Build.Negated
import Formulary.Proofs.Build.Numerals
import Formulary.Proofs.Build.Opposite
import Formulary.Proofs.Session.Negation
import Formulary.Proofs.Session.Relexing
import Formulary.Proofs.Build.Relexed
import Formulary.Proofs.Scope.Consistency
import Formulary.Proofs.Session.Formulas
import Formulary.Proofs.Session.Isolation
import Formulary.Proofs.Session.Access
import Formulary.Proofs.Session.Consistency
import Formulary.Proofs.Lexical.Parted
import Formulary.Proofs.Lexical.Grouped
import Formulary.Proofs.Grammar.Regrowth
import Formulary.Proofs.Session.Cloning
import Formulary.Proofs.Session.Identifiers
import Formulary.Proofs.Session.Enclosing
import Formulary.Proofs.Session.Recency
import Formulary.Proofs.Typing.Applicability
import Formulary.Proofs.Typing.Overloads
import Formulary.Proofs.Build.Orderly
import Formulary.Proofs.Build.Halting
import Formulary.Proofs.Session.Breakdown
import Formulary.Proofs.Shell.Assignment
import Formulary.Proofs.Build.Calling
import Formulary.Proofs.Value.Whole
import Formulary.Proofs.Typing.Conversion
import Formulary.Proofs.Element.Wrapping
import Formulary.Proofs.Text.Characters
import Formulary.Proofs.Lexical.Tiling
import Formulary.Proofs.Number.Digits
import Formulary.Proofs.Lexical.Numerals
import Formulary.Proofs.Build.Reading
import Formulary.Proofs.Build.Signed
import Formulary.Proofs.Lexical.Lone
import Formulary.Proofs.Session.Literals
import Formulary.Proofs.Lexical.Pruned
import Formulary.Proofs.Grammar.Lookahead
import Formulary.Proofs.Grammar.Preparation
import Formulary.Proofs.Grammar.Reports
import Formulary.Proofs.Lexical.Languages
import Formulary.Proofs.Lexical.LongestMatch
import Formulary.Proofs.Grammar.Limits
import Formulary.Proofs.Grammar.Nesting
import Formulary.Proofs.Lexical.Bodies
import Formulary.Proofs.Lexical.Quoting
import Formulary.Proofs.Lexical.Recasing
import Formulary.Proofs.Element.Indexing
import Formulary.Proofs.Calendar.Spans
import Formulary.Proofs.Element.Comparison
import Formulary.Proofs.Typing.Comparison
import Formulary.Proofs.Build.Comparison
import Formulary.Proofs.Element.Membership
import Formulary.Proofs.Build.Membership
import Formulary.Proofs.Calendar.Units
import Formulary.Proofs.Session.Namespaces
import Formulary.Proofs.Library.Calls
import Formulary.Proofs.Calendar.Truncation
import Formulary.Proofs.Library.Searching
import Formulary.Proofs.Element.Continuation
import Formulary.Proofs.Calendar.Formats
