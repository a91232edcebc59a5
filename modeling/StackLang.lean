import StackLang.Chain
import StackLang.CommandLine
import StackLang.Compilation
import StackLang.Decimal
import StackLang.Draft
import StackLang.Event
import StackLang.Fault
import StackLang.Grammar.Expression
import StackLang.Grammar.Reading
import StackLang.Grammar.Statement
import StackLang.Instruction
import StackLang.Journal
import StackLang.Kind
import StackLang.Machine.Run
import StackLang.Machine.Stack
import StackLang.Machine.Step
import StackLang.Main
import StackLang.Operator
import StackLang.Position
import StackLang.Program
import StackLang.Proofs.Chain
import StackLang.Proofs.Draft.Layout
import StackLang.Proofs.Draft.Nest
import StackLang.Proofs.Draft.Plain
import StackLang.Proofs.Store
import StackLang.Sequence
import StackLang.Sink
import StackLang.Store
import StackLang.Text.Blank
import StackLang.Text.Column
import StackLang.Text.Escape
import StackLang.Text.Printable
import StackLang.Text.Quoted
import StackLang.Text.Ranges
import StackLang.Token.Basic
import StackLang.Token.Lexeme
import StackLang.Token.Stream
import StackLang.Value
import StackLang.Proofs.Tree.Basic
import StackLang.Proofs.Tree.Placement
import StackLang.Proofs.Tree.Meaning
import StackLang.Proofs.Machine.Step
import StackLang.Proofs.Tree.Scope
import StackLang.Proofs.Machine.Simulation
import StackLang.Proofs.Grammar.Completeness
import StackLang.Proofs.Grammar.Soundness
import StackLang.Proofs.Token.Scan
import StackLang.Proofs.Acceptance
import StackLang.Proofs.Agreement
import StackLang.Proofs.Draft.Coherence
import StackLang.Proofs.Grammar.Weight
import StackLang.Proofs.Token.Cursor
import StackLang.Proofs.Tree.Faults
import StackLang.Proofs.Grammar.Loops
import StackLang.Proofs.Safety
import StackLang.Proofs.Draft.Jumps
import StackLang.Proofs.Machine.Frame
import StackLang.Proofs.Machine.Height
import StackLang.Proofs.Reuse
import StackLang.Proofs.Tree.Kinds
import StackLang.Proofs.Draft.Likeness
import StackLang.Proofs.Prediction
import StackLang.Proofs.Significance
import StackLang.Proofs.Token.Scanner
import StackLang.Proofs.Token.Tiling
import StackLang.Proofs.Token.Extent
import StackLang.Proofs.Token.LongestMatch
import StackLang.Proofs.Token.Spelling
import StackLang.Proofs.Grammar.Locality
import StackLang.Proofs.Leftmost
import StackLang.Proofs.Machine.Effect
import StackLang.Proofs.Variables
import StackLang.Proofs.Truncation
import StackLang.Proofs.Grammar.Climbing
import StackLang.Proofs.Grammar.Parentheses
import StackLang.Proofs.Descent.Basic
import StackLang.Proofs.Descent.Agreement
import StackLang.Proofs.Descent.Bound
import StackLang.Proofs.Indifference
import StackLang.Proofs.Draft.Desk
import StackLang.Proofs.Draft.Blame
import StackLang.Proofs.Listing.Line
import StackLang.Proofs.Listing.Targets
import StackLang.Proofs.Legibility
import StackLang.Proofs.Ledger
import StackLang.Proofs.Progress
import StackLang.Proofs.Echo
