import StackLang.Grammar.Reading

/-!
# The grammar of expressions

Binary operators bind in five tiers, from disjunction, the loosest, to products, and all
associate to the left. What they connect are operands: literals, variables, expressions
in parentheses, and operands behind a prefix operator. The events of an expression come
in postfix order.

Each operand takes one level of nesting, and the number of levels is limited. The reader
of operands recurses on the levels that are left, the reader of tiers on the list of
tiers, and a chain of operators on the tokens that are left.
-/

namespace StackLang.Grammar

/-- The operators of one tier, by the tokens that denote them. -/
abbrev Tier := TokenKind → Option Operator

def disjunction : Tier
  | .or => some .or
  | _ => none

def conjunction : Tier
  | .and => some .and
  | _ => none

def comparison : Tier
  | .eq => some .eq
  | .notEq => some .notEq
  | .less => some .less
  | .lessEq => some .lessEq
  | .greater => some .greater
  | .greaterEq => some .greaterEq
  | _ => none

def sum : Tier
  | .plus => some .add
  | .minus => some .sub
  | _ => none

def product : Tier
  | .star => some .mul
  | .slash => some .div
  | _ => none

/-- All tiers, the loosest first. -/
def tiers : List Tier := [disjunction, conjunction, comparison, sum, product]

/-- What follows a first operand: operators of one tier, each with a right operand, from
left to right. -/
def chain (tier : Tier) (right : Reader) (s : TokenStream) : Reading TokenStream := do
  let t ← peek s
  match tier t.kind with
  | none => return s
  | some op =>
    let rest ← right s.tail
    Reading.report t.pos (.operator op.symbol)
    if rest.length < s.length then chain tier right rest else return rest
termination_by s.length

/-- An expression of the given tiers over the given operands. -/
def binary (operand : Reader) : List Tier → Reader
  | [], s => do
    let rest ← operand s
    let _ ← peek rest
    return rest
  | tier :: tighter, s => do
    let rest ← binary operand tighter s
    chain tier (binary operand tighter) rest

/-- An operand, with the given number of levels left. -/
def operand : Nat → Reader
  | 0, s => do
    let (t, _) ← advance s
    .fail t.pos (.grammar .nestingTooDeep)
  | level + 1, s => do
    let (t, rest) ← advance s
    match t.kind with
    | .identifier =>
      Reading.report t.pos (.read t.text)
      return rest
    | .intLiteral =>
      Reading.report t.pos (.integer t.text)
      return rest
    | .strLiteral =>
      Reading.report t.pos (.string t.text)
      return rest
    | .lparen =>
      let rest ← binary (operand level) tiers rest
      let (_, rest) ← expect .rparen rest
      return rest
    | .minus =>
      let rest ← binary (operand level) [] rest
      Reading.report t.pos (.operator Operator.negate.symbol)
      return rest
    | .bang =>
      let rest ← binary (operand level) [] rest
      Reading.report t.pos (.operator Operator.not.symbol)
      return rest
    | actual => .fail t.pos (.grammar (.expectedExpression actual))

/-- A whole expression, whose operands have the given number of levels. -/
def expression (level : Nat) : Reader := binary (operand level) tiers

end StackLang.Grammar
