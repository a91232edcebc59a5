import StackLang.Decimal
import StackLang.Kind
import StackLang.Text.Quoted

/-!
# Values

Integers are 64-bit words in two's complement. The text of a value is what printing it
writes.
-/

namespace StackLang

inductive Value where
  | integer (n : Int64)
  | string (s : String)
  | boolean (b : Bool)
  deriving DecidableEq

namespace Value

def kind : Value → Kind
  | .integer _ => .integer
  | .string _ => .string
  | .boolean _ => .boolean

/-- The value that stands for a kind before anything is known. -/
def default : Kind → Value
  | .string => .string ""
  | .boolean => .boolean false
  | .integer | .void => .integer 0

def booleanText (b : Bool) : String := if b then "true" else "false"

def text : Value → String
  | .integer n => Decimal.ofInt n.toInt
  | .string s => s
  | .boolean b => booleanText b

def dump : Value → String
  | .integer n => "Integer(" ++ Decimal.ofInt n.toInt ++ ")"
  | .string s => "String(" ++ Text.Quoted.quote s ++ ")"
  | .boolean b => "Boolean(" ++ booleanText b ++ ")"

theorem kind_default (k : VariableKind) : (default k.toKind).kind = k.toKind := by
  cases k <;> rfl

theorem kind_ne_void (v : Value) : v.kind ≠ .void := by
  cases v <;> simp [kind]

end Value

end StackLang
