import StackLang.Machine.Stack
import StackLang.Sink

/-!
# The machine

The machine executes the instruction at its program counter, one step at a time. It has
come to an end when a step has failed, or when the counter has left the program. A
failed step keeps what it did before it failed: operands it took are gone, and bytes it
wrote are written.
-/

namespace StackLang

structure Machine where
  /-- The index of the next instruction. -/
  counter : Nat := 0
  stack : Stack := []
  store : Store := {}
  sink : Sink := {}
  /-- What stopped the machine. -/
  fault : Option (Located RunError) := none

namespace Machine

variable {α : Type}

/-- A computation on a machine. -/
abbrev Action (α : Type) := EStateM RunError Machine α

def onStack (x : Stack.Take α) : Action α := fun m =>
  match x m.stack with
  | .ok a s => .ok a { m with stack := s }
  | .error e s => .error e { m with stack := s }

def push (x : Operand) : Action Unit := fun m => .ok () { m with stack := x :: m.stack }

/-- The variable at an index. -/
def fetch (x : Nat) : Action Variable := fun m =>
  match m.store.get x with
  | .ok v => .ok v m
  | .error e => .error (.outOfRange e) m

/-- Assigns a value of the variable's kind. -/
def assign (x : Nat) (v : Value) : Action Unit := do
  let target ← fetch x
  if v.kind = target.kind.toKind then modify fun m => { m with store := m.store.write x v }
  else throw (.typeMismatch (.kind target.kind.toKind) v.kind)

/-- Writes a text and a line feed. -/
def printLine (text : String) : Action Unit := fun m =>
  let bytes := (text ++ "\n").toUTF8
  let m' := { m with sink := m.sink.write bytes }
  if m.sink.fits bytes then .ok () m' else .error .output m'

/-- The index behind the current instruction. -/
def following : Action Nat := fun m => .ok (m.counter + 1) m

/-- The index that a jump goes to. -/
def landing (p : Program) : Option Nat → Action Nat
  | none => throw .unresolvedJump
  | some t => if t < p.size then return t else throw (.outOfRange ⟨p.size, t⟩)

/-- Executes an operation; the result is the index of the instruction that comes next.
-/
def execute (p : Program) : Operation → Action Nat
  | .declare _ _ => following
  | .otherwise => following
  | .loop _ => following
  | .close => following
  | .assign => do
    let v ← onStack Stack.takeValue
    let x ← onStack Stack.takeTarget
    assign x v
    following
  | .print => do
    let v ← onStack Stack.takeValue
    printLine v.text
    following
  | .branch t => do
    let b ← onStack Stack.takeBoolean
    if b then following else landing p t
  | .jump t => landing p t
  | .target x => do
    push (.target x)
    following
  | .read _ x => do
    let v ← fetch x
    push (.value v.value)
    following
  | .constant v => do
    push (.value v)
    following
  | .operator op => do
    let v ← onStack (Stack.operate op)
    push (.value v)
    following

/-- The instruction that comes next, unless the machine has come to an end. -/
def current? (p : Program) (m : Machine) : Option Instruction :=
  match m.fault with
  | none => p.code.get? m.counter
  | some _ => none

/-- One step; a machine at its end stays as it is. -/
def step (p : Program) (m : Machine) : Machine :=
  match m.current? p with
  | none => m
  | some i =>
    match execute p i.op m with
    | .ok next m' => { m' with counter := next }
    | .error e m' => { m' with fault := some ⟨i.pos, e⟩ }

theorem step_of_current?_eq_none (p : Program) (m : Machine) (h : m.current? p = none) :
    m.step p = m := by
  simp [step, h]

end Machine

end StackLang
