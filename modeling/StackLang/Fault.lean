import StackLang.Draft
import StackLang.Token.Basic

/-!
# Faults

Everything that can stop the way from a text to the end of a run, with its cause. The
four stages are scanning, the grammar, drafting and execution; each has its own causes,
and a fault says which stage it comes from.
-/

namespace StackLang

/-- Why the tokens are no program. -/
inductive GrammarError where
  | unexpected (expected actual : TokenKind)
  | unexpectedAny (expected : List TokenKind) (actual : TokenKind)
  | expectedStatement (actual : TokenKind)
  | expectedExpression (actual : TokenKind)
  | nestingTooDeep
  deriving DecidableEq

def GrammarError.message : GrammarError → String
  | .unexpected expected actual => "expected " ++ expected.describe ++ ", found " ++ actual.describe
  | .unexpectedAny expected actual =>
    "expected one of " ++ String.intercalate ", " (expected.map TokenKind.describe) ++
      ", found " ++ actual.describe
  | .expectedStatement actual => "expected statement, found " ++ actual.describe
  | .expectedExpression actual => "expected expression, found " ++ actual.describe
  | .nestingTooDeep => "nesting is too deep"

/-- What an instruction wants to find on the stack. -/
inductive Expectation where
  | kind (k : Kind)
  | anyValue
  deriving DecidableEq

def Expectation.describe : Expectation → String
  | .kind k => k.name
  | .anyValue => "a value"

/-- Why an instruction cannot be executed. -/
inductive RunError where
  | notAnAssignmentTarget
  | typeMismatch (expected : Expectation) (actual : Kind)
  | divisionByZero
  | stackUnderflow
  | unresolvedJump
  /-- The sink did not take all of a printed line. -/
  | output
  /-- An index that names no variable or no instruction. -/
  | outOfRange (e : OutOfRange)
  deriving DecidableEq

def RunError.message : RunError → String
  | .notAnAssignmentTarget => "assignment destination is not a variable"
  | .typeMismatch expected actual =>
    "type mismatch: expected " ++ expected.describe ++ ", found " ++ actual.name
  | .divisionByZero => "division by zero"
  | .stackUnderflow => "operand stack underflow"
  | .unresolvedJump => "jump to an unresolved target"
  | .output => "failed to write output: sink is full"
  | .outOfRange e => e.message

inductive Fault where
  | lexical (e : LexicalError)
  | grammar (e : GrammarError)
  | draft (e : DraftError)
  | run (e : RunError)
  deriving DecidableEq

namespace Fault

def message : Fault → String
  | .lexical e => e.message
  | .grammar e => e.message
  | .draft e => e.message
  | .run e => e.message

end Fault

/-- The full text of a fault: its position, then its cause. -/
def Located.faultText (f : Located Fault) : String := f.message Fault.message

end StackLang
