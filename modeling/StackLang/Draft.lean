import StackLang.Event
import StackLang.Program

/-!
# Drafts

A draft is a program under construction. It takes one event at a time and appends the
instructions for it, in the order of the events, so expressions arrive in postfix form
and need no further work. Control constructs need to know where they end before they are
there: the draft keeps a list of openings, innermost first, each an emitted jump whose
target is still missing.

* `branch` emits a conditional jump and opens it.
* `otherwise` closes the conditional jump at a marker for the second branch. In front of
  the marker it emits a jump that skips the second branch, and opens that one.
* `loop` emits a loop head and opens it; the condition and a `branch` follow.
* `close` closes the innermost opening at an end marker. If a loop head lies right below
  it, the construct is a loop, and a jump back to the head goes in front of the marker.

An event that does not fit is refused with a reason, and the draft stays as it was.
-/

namespace StackLang

/-- How control constructs can fail to match. -/
inductive Imbalance where
  | unterminatedBranch
  | unterminatedOtherwise
  | unterminatedLoop
  | otherwiseWithoutBranch
  | closeWithoutBlock
  deriving DecidableEq

def Imbalance.message : Imbalance → String
  | .unterminatedBranch => "`if` without `end`"
  | .unterminatedOtherwise => "`else` without `end`"
  | .unterminatedLoop => "`while` without `end`"
  | .otherwiseWithoutBranch => "`else` without `if`"
  | .closeWithoutBlock => "`end` without an open block"

/-- Why an event is refused, or a draft cannot be finished. -/
inductive DraftError where
  | duplicateDeclaration (name : String)
  | undeclaredVariable (name : String)
  | invalidInteger (text : String)
  | unknownOperator (spelling : String)
  | unbalanced (cause : Imbalance)
  deriving DecidableEq

def DraftError.message : DraftError → String
  | .duplicateDeclaration name => "variable " ++ name ++ " is already declared"
  | .undeclaredVariable name => "variable " ++ name ++ " is not declared"
  | .invalidInteger text => "invalid integer literal " ++ text
  | .unknownOperator spelling => "unknown operator spelling " ++ Text.Quoted.quote spelling
  | .unbalanced cause => "unbalanced control construct: " ++ cause.message

/-- What an emitted jump without a target was opened for. -/
inductive Role where
  | branch
  /-- The jump over a second branch. -/
  | skip
  | loop
  deriving DecidableEq

structure Opening where
  role : Role
  /-- The index of the jump. -/
  index : Nat
  pos : Position
  deriving DecidableEq

structure Draft where
  store : Store := {}
  code : Chain Instruction := {}
  /-- The jumps that have no target yet, innermost first. -/
  openings : List Opening := []

namespace Draft

def empty : Draft := {}

/-- Appends an instruction. -/
def emit (d : Draft) (pos : Position) (op : Operation) : Draft :=
  { d with code := d.code.push ⟨pos, op⟩ }

/-- Appends a jump without a target and opens it. -/
def openWith (d : Draft) (role : Role) (pos : Position) (op : Operation) : Draft :=
  { d.emit pos op with openings := ⟨role, d.code.size, pos⟩ :: d.openings }

/-- Gives the jump at an index its target. -/
def resolve (d : Draft) (index target : Nat) : Draft :=
  { d with code := d.code.modify index (Instruction.resolve target) }

def declare (d : Draft) (pos : Position) (kind : VariableKind) (name : String) :
    Except DraftError Draft :=
  match d.store.declare name kind with
  | .error _ => .error (.duplicateDeclaration name)
  | .ok (x, store) => .ok ({ d with store := store }.emit pos (.declare kind x))

/-- The index and the variable of a declared name. -/
def lookup (d : Draft) (name : String) : Except DraftError (Nat × Variable) :=
  match d.store.find? name with
  | none => .error (.undeclaredVariable name)
  | some x =>
    match d.store.get? x with
    | none => .error (.undeclaredVariable name)
    | some v => .ok (x, v)

def integer (d : Draft) (pos : Position) (text : String) : Except DraftError Draft :=
  match Decimal.readInt64? text.toList with
  | none => .error (.invalidInteger text)
  | some n => .ok (d.emit pos (.constant (.integer n)))

def operator (d : Draft) (pos : Position) (spelling : String) : Except DraftError Draft :=
  match Operator.ofSymbol? spelling with
  | none => .error (.unknownOperator spelling)
  | some op => .ok (d.emit pos (.operator op))

def otherwise (d : Draft) (pos : Position) : Except DraftError Draft :=
  match d.openings with
  | ⟨.branch, index, _⟩ :: outer =>
    let marked := ({ d with openings := outer }.openWith .skip pos (.jump none)).emit pos .otherwise
    .ok (marked.resolve index (d.code.size + 1))
  | _ => .error (.unbalanced .otherwiseWithoutBranch)

def close (d : Draft) (pos : Position) : Except DraftError Draft :=
  match d.openings with
  | [] => .error (.unbalanced .closeWithoutBlock)
  | inner :: ⟨.loop, head, _⟩ :: outer =>
    let looped := ({ d with openings := outer }.emit pos (.jump (some head))).emit pos .close
    .ok (looped.resolve inner.index (d.code.size + 1))
  | inner :: outer =>
    let ended := { d with openings := outer }.emit pos .close
    .ok (ended.resolve inner.index d.code.size)

/-- Takes an event at a position. -/
def take (d : Draft) (pos : Position) : Event → Except DraftError Draft
  | .declare kind name => d.declare pos kind name
  | .target name => (d.lookup name).map fun x => d.emit pos (.target x.1)
  | .read name => (d.lookup name).map fun x => d.emit pos (.read x.2.kind x.1)
  | .integer text => d.integer pos text
  | .string text => .ok (d.emit pos (.constant (.string text)))
  | .operator spelling => d.operator pos spelling
  | .assign => .ok (d.emit pos .assign)
  | .print => .ok (d.emit pos .print)
  | .branch => .ok (d.openWith .branch pos (.branch none))
  | .otherwise => d.otherwise pos
  | .loop => .ok (d.openWith .loop pos (.loop none))
  | .close => d.close pos

/-- Takes a located event; a refusal carries the position of the event. -/
def apply (d : Draft) (e : Located Event) : Except (Located DraftError) Draft :=
  (d.take e.pos e.item).mapError fun cause => ⟨e.pos, cause⟩

/-- Takes an event if it fits and leaves it out if not. -/
def absorb (d : Draft) (e : Located Event) : Draft :=
  match d.apply e with
  | .ok d' => d'
  | .error _ => d

/-- Takes events in order, up to the first that is refused. -/
def applyAll (d : Draft) : List (Located Event) → Except (Located DraftError) Draft
  | [] => .ok d
  | e :: es =>
    match d.apply e with
    | .ok d' => d'.applyAll es
    | .error cause => .error cause

/-- The construct to blame for a list of openings: the innermost one that is not closed.
A loop whose condition is complete counts from its head. -/
def unterminated? : List Opening → Option (Located Imbalance)
  | [] => none
  | ⟨.branch, _, _⟩ :: ⟨.loop, _, pos⟩ :: _ => some ⟨pos, .unterminatedLoop⟩
  | ⟨.branch, _, pos⟩ :: _ => some ⟨pos, .unterminatedBranch⟩
  | ⟨.skip, _, pos⟩ :: _ => some ⟨pos, .unterminatedOtherwise⟩
  | ⟨.loop, _, pos⟩ :: _ => some ⟨pos, .unterminatedLoop⟩

/-- The finished program, if no construct is open. -/
def finish (d : Draft) : Except (Located DraftError) Program :=
  match unterminated? d.openings with
  | some cause => .error (cause.map .unbalanced)
  | none => .ok ⟨d.code, d.store⟩

@[simp] theorem applyAll_nil (d : Draft) : d.applyAll [] = .ok d := rfl

theorem unterminated?_eq_none_iff (os : List Opening) : unterminated? os = none ↔ os = [] := by
  fun_cases unterminated? os <;> simp

end Draft

end StackLang
