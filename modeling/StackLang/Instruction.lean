import StackLang.Chain
import StackLang.Operator
import StackLang.Position
import StackLang.Value

/-!
# Instructions

An instruction is an operation at a position. Variables and jump targets are named by
index, the former in the store, the latter in the program. A jump target is absent until
it is known; `resolve` fills it in.
-/

namespace StackLang

inductive Operation where
  /-- A variable comes into being here; nothing happens when this is executed. -/
  | declare (kind : VariableKind) (var : Nat)
  /-- Names the variable that an assignment writes. -/
  | target (var : Nat)
  /-- Takes the value of a variable. -/
  | read (kind : VariableKind) (var : Nat)
  | assign
  | print
  /-- Leaves for the target if the condition is false. -/
  | branch (target : Option Nat)
  | otherwise
  /-- The head of a loop. -/
  | loop (target : Option Nat)
  | jump (target : Option Nat)
  | close
  | constant (v : Value)
  | operator (op : Operator)
  deriving DecidableEq

namespace Operation

/-- The kind of an operation: that of the variable or constant it brings up, and `void`
for all others. -/
def kind : Operation → Kind
  | .declare k _ => k.toKind
  | .read k _ => k.toKind
  | .constant v => v.kind
  | _ => .void

def mnemonic : Operation → String
  | .declare _ _ => "decl"
  | .target _ => "var"
  | .read _ _ => "var"
  | .assign => ":="
  | .print => "print"
  | .branch _ => "if"
  | .otherwise => "else"
  | .loop _ => "while"
  | .jump _ => "goto"
  | .close => "end"
  | .constant _ => "cte"
  | .operator op => op.symbol

def var? : Operation → Option Nat
  | .declare _ x => some x
  | .target x => some x
  | .read _ x => some x
  | _ => none

def target? : Operation → Option Nat
  | .branch t => t
  | .loop t => t
  | .jump t => t
  | _ => none

/-- Sets the target of a jump. -/
def resolve (target : Nat) : Operation → Operation
  | .branch _ => .branch (some target)
  | .loop _ => .loop (some target)
  | .jump _ => .jump (some target)
  | op => op

def dumpTarget : Option Nat → String
  | none => "None"
  | some t => "Some(" ++ Chain.dumpIndex t ++ ")"

def dump : Operation → String
  | .declare _ x => "Declare(" ++ Chain.dumpIndex x ++ ")"
  | .target x => "Variable(" ++ Chain.dumpIndex x ++ ")"
  | .read _ x => "Variable(" ++ Chain.dumpIndex x ++ ")"
  | .assign => "Assign"
  | .print => "Print"
  | .branch t => "If(" ++ dumpTarget t ++ ")"
  | .otherwise => "Else"
  | .loop t => "While(" ++ dumpTarget t ++ ")"
  | .jump t => "Goto(" ++ dumpTarget t ++ ")"
  | .close => "End"
  | .constant v => "Constant(" ++ v.dump ++ ")"
  | .operator op => "Operator(" ++ op.dump ++ ")"

@[simp] theorem kind_resolve (t : Nat) (op : Operation) : (op.resolve t).kind = op.kind := by
  cases op <;> rfl

@[simp] theorem var?_resolve (t : Nat) (op : Operation) : (op.resolve t).var? = op.var? := by
  cases op <;> rfl

end Operation

structure Instruction where
  pos : Position
  op : Operation
  deriving DecidableEq

namespace Instruction

def kind (i : Instruction) : Kind := i.op.kind

def resolve (target : Nat) (i : Instruction) : Instruction := { i with op := i.op.resolve target }

def dump (i : Instruction) : String :=
  "Instr \x7b pos: " ++ i.pos.dump ++ ", kind: " ++ i.kind.dump ++ ", op: " ++ i.op.dump ++ " \x7d"

end Instruction

end StackLang
