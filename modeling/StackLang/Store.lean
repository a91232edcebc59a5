import StackLang.Chain
import StackLang.Value

/-!
# The store of variables

Variables live in one flat store, in the order of their declarations, and are named by
their index once declared. The name and the kind of a variable never change; its value
does. A name is looked up by its first declaration, and a second declaration of a name
is refused, so there is only one.
-/

namespace StackLang

structure Variable where
  name : String
  kind : VariableKind
  value : Value
  deriving DecidableEq

structure Store where
  slots : Chain Variable := {}

namespace Store

def empty : Store := {}

def size (s : Store) : Nat := s.slots.size

/-- The index of the variable with a name. -/
def find? (s : Store) (name : String) : Option Nat :=
  s.slots.items.findIdx? fun x => x.name = name

def get? (s : Store) (i : Nat) : Option Variable := s.slots.get? i

def get (s : Store) (i : Nat) : Except OutOfRange Variable := s.slots.get i

/-- Adds a variable with the default value of its kind. -/
def add (s : Store) (name : String) (kind : VariableKind) : Store :=
  ⟨s.slots.push ⟨name, kind, Value.default kind.toKind⟩⟩

/-- Declares a name: the index of the new variable and the store with it, or the index
that has the name already. -/
def declare (s : Store) (name : String) (kind : VariableKind) : Except Nat (Nat × Store) :=
  match s.find? name with
  | some i => .error i
  | none => .ok (s.size, s.add name kind)

/-- Writes a value of any kind; past the end nothing happens. -/
def write (s : Store) (i : Nat) (v : Value) : Store :=
  ⟨s.slots.modify i fun x => { x with value := v }⟩

/-- Writes by name; an unknown name changes nothing. -/
def writeNamed (s : Store) (name : String) (v : Value) : Store :=
  match s.find? name with
  | some i => s.write i v
  | none => s

@[simp] theorem size_empty : empty.size = 0 := rfl

@[simp] theorem size_add (s : Store) (name : String) (kind : VariableKind) :
    (s.add name kind).size = s.size + 1 := by
  simp [size, add]

@[simp] theorem size_write (s : Store) (i : Nat) (v : Value) : (s.write i v).size = s.size := by
  simp [size, write]

theorem get?_add (s : Store) (name : String) (kind : VariableKind) (i : Nat) :
    (s.add name kind).get? i =
      if i = s.size then some ⟨name, kind, Value.default kind.toKind⟩ else s.get? i :=
  s.slots.get?_push _ i

theorem get?_write (s : Store) (i : Nat) (v : Value) (j : Nat) :
    (s.write i v).get? j =
      if i = j then (s.get? j).map fun x => { x with value := v } else s.get? j :=
  s.slots.get?_modify i _ j

end Store

end StackLang
