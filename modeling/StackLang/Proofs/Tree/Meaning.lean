import StackLang.Fault
import StackLang.Proofs.Tree.Basic
import StackLang.Sink

/-!
# What trees mean

The meaning of a tree, by its structure alone and without any machine. An expression has
a value under a valuation of the variables; operands are evaluated from left to right,
both operands of a connective always. Arithmetic is that of the integers, brought back
to 64 bits. A statement takes a state to a state, declarations do nothing, and an
assignment checks the kind that the variable was declared with.

Loops need not end. `exec` gives every loop at most `fuel` rounds each time it is
started, and a state in which the rounds ran out is marked as unfinished. A program
finishes, or faults, if it does so with some fuel; it runs forever if no fuel is enough.
-/

namespace StackLang

namespace Value

def asInteger : Value → Except RunError Int64
  | .integer n => .ok n
  | v => .error (.typeMismatch (.kind .integer) v.kind)

def asBoolean : Value → Except RunError Bool
  | .boolean b => .ok b
  | v => .error (.typeMismatch (.kind .boolean) v.kind)

/-- An integer in 64 bits, in two's complement. -/
def wrapped (n : Int) : Value := .integer (Int64.ofInt n)

end Value

namespace Tree

/-- The result of two integers. The right one is checked first. -/
def integers (f : Int → Int → Value) (left right : Value) : Except RunError Value := do
  let n ← right.asInteger
  let m ← left.asInteger
  return f m.toInt n.toInt

/-- The result of two booleans. The right one is checked first. -/
def booleans (f : Bool → Bool → Bool) (left right : Value) : Except RunError Value := do
  let b ← right.asBoolean
  let a ← left.asBoolean
  return .boolean (f a b)

/-- Texts in a row if one of the values is a string, else a sum. Here the left value is
checked first. -/
def plus (left right : Value) : Except RunError Value :=
  if left.kind = .string ∨ right.kind = .string then .ok (.string (left.text ++ right.text))
  else do
    let m ← left.asInteger
    let n ← right.asInteger
    return .wrapped (m.toInt + n.toInt)

/-- The quotient, rounded toward zero. -/
def quotient (left right : Value) : Except RunError Value := do
  let n ← right.asInteger
  let m ← left.asInteger
  if n.toInt = 0 then throw .divisionByZero
  return .wrapped (m.toInt.tdiv n.toInt)

def UnaryOperator.apply : UnaryOperator → Value → Except RunError Value
  | .negate, v => do return .wrapped (-(← v.asInteger).toInt)
  | .not, v => do return .boolean (!(← v.asBoolean))

def BinaryOperator.apply : BinaryOperator → Value → Value → Except RunError Value
  | .or => booleans fun a b => a || b
  | .and => booleans fun a b => a && b
  | .eq => integers fun m n => .boolean (m = n)
  | .notEq => integers fun m n => .boolean (m ≠ n)
  | .less => integers fun m n => .boolean (m < n)
  | .lessEq => integers fun m n => .boolean (m ≤ n)
  | .greater => integers fun m n => .boolean (n < m)
  | .greaterEq => integers fun m n => .boolean (n ≤ m)
  | .add => plus
  | .sub => integers fun m n => .wrapped (m - n)
  | .mul => integers fun m n => .wrapped (m * n)
  | .div => quotient

/-- Blames a position for an error. -/
def blame {α : Type} (pos : Position) (x : Except RunError α) : Except (Located RunError) α :=
  x.mapError fun e => ⟨pos, e⟩

namespace Expression

/-- The value of an expression where the variables have the values `ρ`. -/
def eval (ρ : String → Value) : Expression → Except (Located RunError) Value
  | .read name => .ok (ρ name.item)
  | .integer numeral => .ok (.wrapped (Decimal.value numeral.item.toList))
  | .string text => .ok (.string text.item)
  | .group inner => inner.eval ρ
  | .unary op operand => do
    let v ← operand.eval ρ
    blame op.pos (op.item.apply v)
  | .binary op left right => do
    let v ← left.eval ρ
    let w ← right.eval ρ
    blame op.pos (op.item.apply v w)

/-- The truth of a condition. One that is no boolean is the fault of the construct at
`pos`. -/
def test (pos : Position) (e : Expression) (ρ : String → Value) :
    Except (Located RunError) Bool := do
  let v ← e.eval ρ
  blame pos v.asBoolean

end Expression

/-- What statements work on. -/
structure State where
  values : String → Value
  sink : Sink

/-- How statements end. A fault keeps the state it happened in. -/
inductive Outcome where
  | done (s : State)
  | fault (f : Located RunError) (s : State)
  /-- Some loop is still going on. -/
  | unfinished (s : State)

namespace Outcome

def andThen (x : Outcome) (f : State → Outcome) : Outcome :=
  match x with
  | .done s => f s
  | .fault e s => .fault e s
  | .unfinished s => .unfinished s

/-- Goes on with a result, if there is one. -/
def ofResult {α : Type} (x : Except (Located RunError) α) (s : State) (f : α → Outcome) :
    Outcome :=
  match x with
  | .ok a => f a
  | .error e => .fault e s

end Outcome

namespace State

/-- The state behind an assignment to a variable of the given kind. -/
def assign (s : State) (name : String) (kind : VariableKind) (pos : Position) (v : Value) :
    Outcome :=
  if v.kind = kind.toKind then .done { s with values := Function.update s.values name v }
  else .fault ⟨pos, .typeMismatch (.kind kind.toKind) v.kind⟩ s

/-- The state behind a printed line; of a line that does not fit, a part is printed. -/
def print (s : State) (pos : Position) (text : String) : Outcome :=
  let line := (text ++ "\n").toUTF8
  let s' := { s with sink := s.sink.write line }
  if s.sink.fits line then .done s' else .fault ⟨pos, .output⟩ s'

end State

/-- At most `n` rounds of a loop. -/
def iterate (test : State → Except (Located RunError) Bool) (body : State → Outcome) :
    Nat → State → Outcome
  | 0, s => .unfinished s
  | n + 1, s => .ofResult (test s) s fun again =>
    if again then (body s).andThen (iterate test body n) else .done s

namespace Statement

mutual

/-- Executes a statement, with at most `fuel` rounds for every loop. The variables were
declared with the given kinds. -/
def exec (kinds : String → VariableKind) (fuel : Nat) : Statement → State → Outcome
  | .declare _ _, s => .done s
  | .assign name pos value, s =>
    .ofResult (value.eval s.values) s fun v => s.assign name.item (kinds name.item) pos v
  | .print pos value, s => .ofResult (value.eval s.values) s fun v => s.print pos v.text
  | .branch pos condition body _, s =>
    .ofResult (condition.test pos s.values) s fun b =>
      if b then execAll kinds fuel body s else .done s
  | .choice pos condition body _ other _, s =>
    .ofResult (condition.test pos s.values) s fun b =>
      if b then execAll kinds fuel body s else execAll kinds fuel other s
  | .loop pos condition body _, s =>
    iterate (fun s => condition.test pos s.values) (execAll kinds fuel body) fuel s

def execAll (kinds : String → VariableKind) (fuel : Nat) : List Statement → State → Outcome
  | [], s => .done s
  | t :: ts, s => (t.exec kinds fuel s).andThen (execAll kinds fuel ts)

end

/-- The kind that a name is declared with. -/
def kindOf (ss : List Statement) (name : String) : VariableKind :=
  ((declarations ss).lookup name).getD .integer

/-- How a program ends within the given fuel. -/
def outcome (ss : List Statement) (fuel : Nat) (s : State) : Outcome :=
  execAll (kindOf ss) fuel ss s

def Finishes (ss : List Statement) (s s' : State) : Prop := ∃ fuel, outcome ss fuel s = .done s'

def Faults (ss : List Statement) (s : State) (f : Located RunError) (s' : State) : Prop :=
  ∃ fuel, outcome ss fuel s = .fault f s'

def RunsForever (ss : List Statement) (s : State) : Prop :=
  ∀ fuel, ∃ s', outcome ss fuel s = .unfinished s'

end Statement

end Tree

end StackLang
