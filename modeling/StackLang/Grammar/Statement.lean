import StackLang.Grammar.Expression

/-!
# The grammar of statements

A program is a sequence of statements up to the end of the text: declarations,
assignments, output, conditionals and loops. A statement takes one level of nesting, as
an operand does, and a statement's parts have one level less.
-/

namespace StackLang.Grammar

/-- How many statements and operands may enclose one another. -/
def maxLevel : Nat := 256

/-- Whether a block ends before a token of this kind. The end of the text ends every
block. -/
def ends (terminators : List TokenKind) (kind : TokenKind) : Bool :=
  kind = .eof || terminators.contains kind

/-- Statements up to a terminator. -/
def block (terminators : List TokenKind) (statement : Reader) (s : TokenStream) :
    Reading TokenStream := do
  let t ← peek s
  if ends terminators t.kind then return s
  else
    let rest ← statement s
    if rest.length < s.length then block terminators statement rest else return rest
termination_by s.length

/-- The kind of a declared variable, behind the word that starts the declaration. -/
def declaredKind (s : TokenStream) : Reading (VariableKind × TokenStream) := do
  let t ← peek s
  match t.kind with
  | .keyword .integer => return (.integer, s.tail)
  | .keyword .string => return (.string, s.tail)
  | actual => .fail t.pos (.grammar (.unexpectedAny [.keyword .integer, .keyword .string] actual))

/-- The name of a declared variable and what ends the declaration. -/
def declaration (kind : VariableKind) (s : TokenStream) : Reading TokenStream := do
  let (name, rest) ← expect .identifier s
  Reading.report name.pos (.declare kind name.text)
  let (_, rest) ← expect .semicolon rest
  return rest

/-- The rest of an assignment to a named variable. -/
def assignment (name : Token) (level : Nat) (s : TokenStream) : Reading TokenStream := do
  Reading.report name.pos (.target name.text)
  let (t, rest) ← expect .assign s
  let rest ← expression level rest
  Reading.report t.pos .assign
  let (_, rest) ← expect .semicolon rest
  return rest

/-- What closes a conditional or a loop. -/
def closing (s : TokenStream) : Reading TokenStream := do
  let (t, rest) ← expect (.keyword .close) s
  Reading.report t.pos .close
  let (_, rest) ← expect .semicolon rest
  return rest

/-- The second branch of a conditional, if there is one. -/
def alternative (statement : Reader) (s : TokenStream) : Reading TokenStream := do
  let t ← peek s
  if t.kind = .keyword .otherwise then
    Reading.report t.pos .otherwise
    block [.keyword .close] statement s.tail
  else return s

/-- A statement, with the given number of levels left. -/
def statement : Nat → Reader
  | 0, s => do
    let (t, _) ← advance s
    .fail t.pos (.grammar .nestingTooDeep)
  | level + 1, s => do
    let (t, rest) ← advance s
    match t.kind with
    | .keyword .declare =>
      let (kind, rest) ← declaredKind rest
      declaration kind rest
    | .keyword .integer => declaration .integer rest
    | .keyword .string => declaration .string rest
    | .identifier => assignment t level rest
    | .keyword .print =>
      let rest ← expression level rest
      Reading.report t.pos .print
      let (_, rest) ← expect .semicolon rest
      return rest
    | .keyword .branch =>
      let rest ← expression level rest
      Reading.report t.pos .branch
      let rest ← block [.keyword .otherwise, .keyword .close] (statement level) rest
      let rest ← alternative (statement level) rest
      closing rest
    | .keyword .loop =>
      Reading.report t.pos .loop
      let rest ← expression level rest
      Reading.report t.pos .branch
      let rest ← block [.keyword .close] (statement level) rest
      closing rest
    | actual => .fail t.pos (.grammar (.expectedStatement actual))

/-- A whole program. -/
def program (s : TokenStream) : Reading Unit := do
  let rest ← block [] (statement maxLevel) s
  let _ ← expect .eof rest
  return ()

end StackLang.Grammar
