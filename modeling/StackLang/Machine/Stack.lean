import StackLang.Fault

/-!
# The operand stack

Operands are values, and variables that wait to be assigned. A computation takes
operands off the stack one by one and may fail on the way; what it took before it failed
stays off. The right operand of an operator lies on top, so it is taken, and its kind
checked, before the left one.
-/

namespace StackLang

inductive Operand where
  | value (v : Value)
  | target (var : Nat)
  deriving DecidableEq

def Operand.kind : Operand → Kind
  | .value v => v.kind
  | .target _ => .void

/-- A stack of operands, the top first. -/
abbrev Stack := List Operand

namespace Stack

/-- A computation on a stack. -/
abbrev Take (α : Type) := EStateM RunError Stack α

def take : Take Operand
  | [] => .error .stackUnderflow []
  | x :: s => .ok x s

def mismatch {α : Type} (expected : Expectation) (actual : Kind) : Take α :=
  throw (.typeMismatch expected actual)

def takeValue : Take Value := do
  match ← take with
  | .value v => return v
  | .target _ => mismatch .anyValue .void

def takeInteger : Take Int64 := do
  match ← take with
  | .value (.integer n) => return n
  | x => mismatch (.kind .integer) x.kind

def takeBoolean : Take Bool := do
  match ← take with
  | .value (.boolean b) => return b
  | x => mismatch (.kind .boolean) x.kind

def takeTarget : Take Nat := do
  match ← take with
  | .target x => return x
  | .value _ => throw .notAnAssignmentTarget

/-- Two integers and what becomes of them. -/
def integers (f : Int64 → Int64 → Value) : Take Value := do
  let right ← takeInteger
  let left ← takeInteger
  return f left right

/-- Two booleans and what becomes of them. -/
def booleans (f : Bool → Bool → Bool) : Take Value := do
  let right ← takeBoolean
  let left ← takeBoolean
  return .boolean (f left right)

/-- The sum of two integers, or two texts in a row if one of the values is a string. Of
two values that do not fit, the left one is blamed unless it is an integer. -/
def sum : Value → Value → Except RunError Value
  | .integer m, .integer n => .ok (.integer (m + n))
  | .string s, v => .ok (.string (s ++ v.text))
  | v, .string s => .ok (.string (v.text ++ s))
  | .integer _, v => .error (.typeMismatch (.kind .integer) v.kind)
  | v, _ => .error (.typeMismatch (.kind .integer) v.kind)

def add : Take Value := do
  let right ← takeValue
  let left ← takeValue
  match sum left right with
  | .ok v => return v
  | .error e => throw e

/-- A quotient is rounded toward zero; the least integer divided by minus one is itself.
-/
def divide : Take Value := do
  let right ← takeInteger
  let left ← takeInteger
  if right = 0 then throw .divisionByZero else return .integer (left / right)

/-- Takes the operands of an operator and gives its result. Both operands are always
taken. -/
def operate : Operator → Take Value
  | .add => add
  | .sub => integers fun m n => .integer (m - n)
  | .mul => integers fun m n => .integer (m * n)
  | .div => divide
  | .negate => do return .integer (-(← takeInteger))
  | .eq => integers fun m n => .boolean (m = n)
  | .notEq => integers fun m n => .boolean (m ≠ n)
  | .less => integers fun m n => .boolean (m < n)
  | .lessEq => integers fun m n => .boolean (m ≤ n)
  | .greater => integers fun m n => .boolean (n < m)
  | .greaterEq => integers fun m n => .boolean (n ≤ m)
  | .not => do return .boolean (!(← takeBoolean))
  | .or => booleans fun a b => a || b
  | .and => booleans fun a b => a && b

end Stack

end StackLang
