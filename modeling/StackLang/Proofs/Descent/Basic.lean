import StackLang.Proofs.Grammar.Climbing

/-!
# Recursive descent

The grammar as functions that call one another. Here a draft takes each event as soon as it
is reported, so that reading ends with the first thing found wrong, be it by the draft or by
the grammar. Nor are levels handed down: there is one counter, which is raised where a
statement or an operand begins and lowered where it ends, whether it ends well or not.

`respond` says what a function does in terms of the functions that it calls, and `run` ties
the knot. It does so within a budget, the number of calls that can be active at once. Each
call is noted when it is made, and once more when it returns, with the calls around it and
with the counter and the tokens before and after it.
-/

namespace StackLang

/-- What comes of a reading if a draft takes its events. -/
def Reading.onto {α : Type} (d : Draft) (r : Reading α) : Except (Located Fault) (α × Draft) :=
  match d.applyAll r.events with
  | .error e => .error (e.map .draft)
  | .ok d' => r.outcome.map fun a => (a, d')

namespace Descent

open Grammar

/-- A function of the descent with its arguments, the stream apart. -/
inductive Call where
  | program
  | statement
  /-- A statement behind its first token, one level deeper. -/
  | nestedStatement (t : Token)
  | statementAt (t : Token)
  | declaration (kind : VariableKind)
  | assignment (name : Token)
  | conditional (t : Token)
  | loop (t : Token)
  | block (terminators : List TokenKind)
  | closing
  | expression
  /-- What binds with the given power at least. -/
  | climb (power : Nat)
  /-- An operand behind its first token, one level deeper. -/
  | nestedOperand (t : Token)
  | operandAt (t : Token)
  deriving DecidableEq

namespace Call

/-- Whether the body of the call runs one level deeper. -/
def nests : Call → Bool
  | .nestedStatement _ | .nestedOperand _ => true
  | _ => false

def power? : Call → Option Nat
  | .climb power => some power
  | _ => none

/-- Whether the call is made in a loop. -/
def repeats : Call → Bool
  | .statement | .climb _ => true
  | _ => false

/-- The power is one that is ever asked for; the last is that of a prefix operator. -/
def Possible (c : Call) : Prop := ∀ power, c.power? = some power → power ∈ [0, 2, 4, 6, 8, 10, 11]

end Call

/-- How many of the calls run their bodies one level deeper. -/
def nesting (calls : List Call) : Nat := calls.countP Call.nests

/-- A call that has returned. -/
structure Visit where
  /-- The calls around it, the outermost first. -/
  outer : List Call
  call : Call
  /-- The counter when the call was made. -/
  entered : Nat
  /-- The counter when it returned. -/
  left : Nat
  /-- How many tokens were left when the call was made. -/
  before : Nat
  /-- How many it left, unless it failed. -/
  after : Option Nat

/-- The calls that are active during a visit. -/
def Visit.path (v : Visit) : List Call := v.outer ++ [v.call]

/-- Why the descent ends early. -/
inductive Stop where
  | fault (f : Located Fault)
  /-- The budget does not allow another call. -/
  | exhausted

structure Progress where
  depth : Nat := 0
  draft : Draft := .empty
  /-- The calls that were made, each with the calls around it. -/
  calls : List (List Call × Call) := []
  /-- Those that have returned. -/
  visits : List Visit := []

end Descent

/-- A part of the descent. What it has done stays done if it ends early. -/
abbrev Descent (α : Type) := EStateM Descent.Stop Descent.Progress α

namespace Descent

open Grammar

variable {α : Type}

/-- A reading whose events the draft takes. -/
def ofReading (r : Reading α) : Descent α := fun p =>
  match r.onto p.draft with
  | .ok (a, d) => .ok a { p with draft := d }
  | .error e => .error (.fault e) p

instance : MonadLift Reading Descent := ⟨ofReading⟩

/-- One level deeper, unless there is none left. -/
def deeper (t : Token) (x : Descent α) : Descent α := fun p =>
  if maxLevel ≤ p.depth then .error (.fault ⟨t.pos, .grammar .nestingTooDeep⟩) p
  else
    match x { p with depth := p.depth + 1 } with
    | .ok a q => .ok a { q with depth := q.depth - 1 }
    | .error e q => .error e { q with depth := q.depth - 1 }

/-- Notes a call when it is made and when it returns. -/
def noted (outer : List Call) (c : Call) (s : TokenStream) (x : Descent TokenStream) :
    Descent TokenStream := fun p =>
  let visit (q : Progress) (after : Option Nat) : Progress :=
    { q with visits := q.visits ++ [⟨outer, c, p.depth, q.depth, s.length, after⟩] }
  match x { p with calls := p.calls ++ [(outer, c)] } with
  | .ok rest q => .ok rest (visit q (some rest.length))
  | .error e q => .error e (visit q none)

section Functions

variable {m : Type → Type} [Monad m] [MonadLiftT Reading m]

/-- Statements up to a terminator. -/
def statements (terminators : List TokenKind) (statement : TokenStream → m TokenStream)
    (s : TokenStream) : m TokenStream := do
  let t ← peek s
  if ends terminators t.kind then return s
  else
    let rest ← statement s
    if rest.length < s.length then statements terminators statement rest else return rest
termination_by s.length

/-- What a function does, given how to go one level deeper and the functions that it calls. -/
def respond (deeper : Token → m TokenStream → m TokenStream)
    (callee : Call → TokenStream → m TokenStream) : Call → TokenStream → m TokenStream
  | .program, s => do
    let rest ← statements [] (callee .statement) s
    let (_, rest) ← expect .eof rest
    return rest
  | .statement, s => do
    let (t, rest) ← advance s
    callee (.nestedStatement t) rest
  | .nestedStatement t, s => deeper t (callee (.statementAt t) s)
  | .statementAt t, s =>
    match t.kind with
    | .keyword .declare => do
      let (kind, rest) ← declaredKind s
      callee (.declaration kind) rest
    | .keyword .integer => callee (.declaration .integer) s
    | .keyword .string => callee (.declaration .string) s
    | .identifier => callee (.assignment t) s
    | .keyword .print => do
      let rest ← callee .expression s
      Reading.report t.pos .print
      let (_, rest) ← expect .semicolon rest
      return rest
    | .keyword .branch => callee (.conditional t) s
    | .keyword .loop => callee (.loop t) s
    | actual =>
      monadLift (Reading.fail t.pos (.grammar (.expectedStatement actual)) : Reading TokenStream)
  | .declaration kind, s => do
    let (name, rest) ← expect .identifier s
    Reading.report name.pos (.declare kind name.text)
    let (_, rest) ← expect .semicolon rest
    return rest
  | .assignment name, s => do
    Reading.report name.pos (.target name.text)
    let (t, rest) ← expect .assign s
    let rest ← callee .expression rest
    Reading.report t.pos .assign
    let (_, rest) ← expect .semicolon rest
    return rest
  | .conditional t, s => do
    let rest ← callee .expression s
    Reading.report t.pos .branch
    let rest ← callee (.block [.keyword .otherwise, .keyword .close]) rest
    let next ← peek rest
    if next.kind = .keyword .otherwise then
      Reading.report next.pos .otherwise
      let rest ← callee (.block [.keyword .close]) rest.tail
      callee .closing rest
    else callee .closing rest
  | .loop t, s => do
    Reading.report t.pos .loop
    let rest ← callee .expression s
    Reading.report t.pos .branch
    let rest ← callee (.block [.keyword .close]) rest
    callee .closing rest
  | .block terminators, s => statements terminators (callee .statement) s
  | .closing, s => do
    let (t, rest) ← expect (.keyword .close) s
    Reading.report t.pos .close
    let (_, rest) ← expect .semicolon rest
    return rest
  | .expression, s => callee (.climb 0) s
  | .climb power, s => do
    let (t, rest) ← advance s
    let rest ← callee (.nestedOperand t) rest
    carryOn power (fun power => callee (.climb power)) rest
  | .nestedOperand t, s => deeper t (callee (.operandAt t) s)
  | .operandAt t, s =>
    match t.kind with
    | .identifier => do
      Reading.report t.pos (.read t.text)
      return s
    | .intLiteral => do
      Reading.report t.pos (.integer t.text)
      return s
    | .strLiteral => do
      Reading.report t.pos (.string t.text)
      return s
    | .lparen => do
      let rest ← callee .expression s
      let (_, rest) ← expect .rparen rest
      return rest
    | .minus => do
      let rest ← callee (.climb 11) s
      Reading.report t.pos (.operator Operator.negate.symbol)
      return rest
    | .bang => do
      let rest ← callee (.climb 11) s
      Reading.report t.pos (.operator Operator.not.symbol)
      return rest
    | actual =>
      monadLift (Reading.fail t.pos (.grammar (.expectedExpression actual)) : Reading TokenStream)

end Functions

/-- A call within a budget. -/
def run : (budget : Nat) → (outer : List Call) → Call → TokenStream → Descent TokenStream
  | 0, _, _, _ => throw .exhausted
  | budget + 1, outer, c, s => noted outer c s (respond deeper (run budget (outer ++ [c])) c s)

/-- How the descent through a source text ended, and all calls on the way. -/
structure Report where
  calls : List (List Call × Call)
  visits : List Visit
  outcome : Except Stop Program

/-- The descent through a source text. -/
def compile (budget : Nat) (source : String) : Report :=
  match run budget [] .program (TokenStream.ofSource source).significant {} with
  | .ok _ p => ⟨p.calls, p.visits, p.draft.finish.mapError fun e => .fault (e.map .draft)⟩
  | .error e p => ⟨p.calls, p.visits, .error e⟩

end Descent

end StackLang
