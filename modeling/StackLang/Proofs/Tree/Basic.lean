import StackLang.Proofs.Draft.Nest

/-!
# Trees of programs

The structure behind the tokens of a program: expressions with their operators, and
statements with the statements inside them. Parentheses are kept, since they count for
the nesting of operands. Every node has the positions that its events and its faults are
given.

`plains` and `nests` are the events that a tree is reported by, expressions in postfix
order. The names that a tree declares and uses, and its numerals, are listed in the order
of the text (`mentions`).
-/

namespace StackLang.Tree

inductive UnaryOperator where
  | negate
  | not
  deriving DecidableEq

def UnaryOperator.toOperator : UnaryOperator → Operator
  | .negate => .negate
  | .not => .not

inductive BinaryOperator where
  | or
  | and
  | eq
  | notEq
  | less
  | lessEq
  | greater
  | greaterEq
  | add
  | sub
  | mul
  | div
  deriving DecidableEq

def BinaryOperator.toOperator : BinaryOperator → Operator
  | .or => .or
  | .and => .and
  | .eq => .eq
  | .notEq => .notEq
  | .less => .less
  | .lessEq => .lessEq
  | .greater => .greater
  | .greaterEq => .greaterEq
  | .add => .add
  | .sub => .sub
  | .mul => .mul
  | .div => .div

inductive Expression where
  | read (name : Located String)
  | integer (numeral : Located String)
  | string (text : Located String)
  /-- An expression in parentheses. -/
  | group (inner : Expression)
  | unary (op : Located UnaryOperator) (operand : Expression)
  | binary (op : Located BinaryOperator) (left right : Expression)

inductive Statement where
  | declare (kind : VariableKind) (name : Located String)
  | assign (name : Located String) (pos : Position) (value : Expression)
  | print (pos : Position) (value : Expression)
  | branch (pos : Position) (condition : Expression) (body : List Statement) (close : Position)
  | choice (pos : Position) (condition : Expression) (body : List Statement) (middle : Position)
      (other : List Statement) (close : Position)
  | loop (pos : Position) (condition : Expression) (body : List Statement) (close : Position)

/-- A place of the text where a name is declared, where a name is assigned or read, or
where a numeral stands. -/
inductive Mention where
  | declares (kind : VariableKind) (name : String)
  | uses (name : String)
  | numeral (text : String)
  deriving DecidableEq

def Mention.declaration? : Mention → Option (String × VariableKind)
  | .declares kind name => some (name, kind)
  | _ => none

namespace Expression

/-- The events of an expression: operands before operators, left before right. -/
def plains : Expression → List Plain
  | .read name => [⟨name.pos, .read name.item, rfl⟩]
  | .integer numeral => [⟨numeral.pos, .integer numeral.item, rfl⟩]
  | .string text => [⟨text.pos, .string text.item, rfl⟩]
  | .group inner => inner.plains
  | .unary op operand => operand.plains ++ [⟨op.pos, .operator op.item.toOperator.symbol, rfl⟩]
  | .binary op left right =>
    left.plains ++ (right.plains ++ [⟨op.pos, .operator op.item.toOperator.symbol, rfl⟩])

def events (e : Expression) : List (Located Event) := e.plains.map Plain.located

/-- How deep operands lie inside one another. Binary operators do not count. -/
def depth : Expression → Nat
  | .read _ | .integer _ | .string _ => 1
  | .group inner => inner.depth + 1
  | .unary _ operand => operand.depth + 1
  | .binary _ left right => max left.depth right.depth

/-- The names and numerals of an expression, in the order of the text. -/
def mentions : Expression → List Mention
  | .read name => [.uses name.item]
  | .integer numeral => [.numeral numeral.item]
  | .string _ => []
  | .group inner => inner.mentions
  | .unary _ operand => operand.mentions
  | .binary _ left right => left.mentions ++ right.mentions

end Expression

namespace Statement

mutual

/-- The events of a statement. The head of a loop comes ahead of the condition, that of a
conditional behind it. -/
def nests : Statement → List Nest
  | .declare kind name => [.plain ⟨name.pos, .declare kind name.item, rfl⟩]
  | .assign name pos value =>
    .plain ⟨name.pos, .target name.item, rfl⟩ ::
      (value.plains.map Nest.plain ++ [.plain ⟨pos, .assign, isControl_assign⟩])
  | .print pos value => value.plains.map Nest.plain ++ [.plain ⟨pos, .print, isControl_print⟩]
  | .branch pos condition body close =>
    condition.plains.map Nest.plain ++ [.branch pos (nestsAll body) close]
  | .choice pos condition body middle other close =>
    condition.plains.map Nest.plain ++ [.choice pos (nestsAll body) middle (nestsAll other) close]
  | .loop pos condition body close => [.loop pos condition.plains pos (nestsAll body) close]

def nestsAll : List Statement → List Nest
  | [] => []
  | s :: ss => s.nests ++ nestsAll ss

end

mutual

/-- How deep statements and operands lie inside one another. -/
def depth : Statement → Nat
  | .declare _ _ => 1
  | .assign _ _ value => value.depth + 1
  | .print _ value => value.depth + 1
  | .branch _ condition body _ => max condition.depth (depthAll body) + 1
  | .choice _ condition body _ other _ =>
    max condition.depth (max (depthAll body) (depthAll other)) + 1
  | .loop _ condition body _ => max condition.depth (depthAll body) + 1

def depthAll : List Statement → Nat
  | [] => 0
  | s :: ss => max s.depth (depthAll ss)

end

mutual

/-- The names and numerals of a statement, in the order of the text. -/
def mentions : Statement → List Mention
  | .declare kind name => [.declares kind name.item]
  | .assign name _ value => .uses name.item :: value.mentions
  | .print _ value => value.mentions
  | .branch _ condition body _ => condition.mentions ++ mentionsAll body
  | .choice _ condition body _ other _ =>
    condition.mentions ++ (mentionsAll body ++ mentionsAll other)
  | .loop _ condition body _ => condition.mentions ++ mentionsAll body

def mentionsAll : List Statement → List Mention
  | [] => []
  | s :: ss => s.mentions ++ mentionsAll ss

end

/-- The declared variables, in the order of the text. -/
def declarations (ss : List Statement) : List (String × VariableKind) :=
  (mentionsAll ss).filterMap Mention.declaration?

/-- The events of statements in a row. -/
def events (ss : List Statement) : List (Located Event) := Nest.eventsAll (nestsAll ss)

end Statement

end StackLang.Tree
