/-!
# Operators

The operators of the machine with their spellings. Inequality has two spellings, every
other operator one; a prefix minus is spelled apart from subtraction.
-/

namespace StackLang

inductive Operator where
  | add
  | sub
  | negate
  | mul
  | div
  | eq
  | notEq
  | less
  | lessEq
  | greater
  | greaterEq
  | not
  | or
  | and
  deriving DecidableEq

namespace Operator

/-- The spelling under which an operator is listed. -/
def symbol : Operator → String
  | .add => "+"
  | .sub => "-"
  | .negate => "-1"
  | .mul => "*"
  | .div => "/"
  | .eq => "=="
  | .notEq => "<>"
  | .less => "<"
  | .lessEq => "<="
  | .greater => ">"
  | .greaterEq => ">="
  | .not => "!"
  | .or => "||"
  | .and => "&&"

def ofSymbol? (s : String) : Option Operator :=
  match s with
  | "+" => some .add
  | "-" => some .sub
  | "-1" => some .negate
  | "*" => some .mul
  | "/" => some .div
  | "==" => some .eq
  | "!=" => some .notEq
  | "<>" => some .notEq
  | "<" => some .less
  | "<=" => some .lessEq
  | ">" => some .greater
  | ">=" => some .greaterEq
  | "!" => some .not
  | "||" => some .or
  | "&&" => some .and
  | _ => none

def dump : Operator → String
  | .add => "Add"
  | .sub => "Sub"
  | .negate => "Negate"
  | .mul => "Mul"
  | .div => "Div"
  | .eq => "Eq"
  | .notEq => "NotEq"
  | .less => "Less"
  | .lessEq => "LessEq"
  | .greater => "Greater"
  | .greaterEq => "GreaterEq"
  | .not => "Not"
  | .or => "Or"
  | .and => "And"

theorem ofSymbol?_symbol (op : Operator) : ofSymbol? op.symbol = some op := by
  cases op <;> rfl

end Operator

end StackLang
