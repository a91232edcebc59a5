import StackLang.Instruction
import StackLang.Store
import StackLang.Text.Blank
import StackLang.Text.Column

/-!
# Programs

A program is a chain of instructions and the store it starts from. Its listing has one
line for each instruction: the index, a tag for the kind, the mnemonic and the operand,
in columns.
-/

namespace StackLang

structure Program where
  code : Chain Instruction := {}
  store : Store := {}

namespace Program

def size (p : Program) : Nat := p.code.size

def dump (p : Program) : String := p.code.dump Instruction.dump

/-- The variable that an operation names. -/
def named? (store : Store) (op : Operation) : Option Variable := op.var?.bind store.get?

/-- The kind under which an instruction is listed: where a variable is named, the kind
of that variable. -/
def listedKind (store : Store) (op : Operation) : Kind :=
  match named? store op with
  | some x => x.kind.toKind
  | none => op.kind

def operandText (store : Store) (op : Operation) : String :=
  match op with
  | .constant (.string s) => "\"" ++ s ++ "\""
  | .constant v => v.text
  | op =>
    match named? store op, op.target? with
    | some x, _ => x.name
    | none, some t => Decimal.ofNat t
    | none, none => ""

/-- The line of an instruction before its trailing blanks are dropped. -/
def fullLine (store : Store) (index : Nat) (i : Instruction) : String :=
  Text.alignRight 5 (Decimal.ofNat index) ++ ":  " ++ (listedKind store i.op).tag ++
    Text.alignLeft 6 i.op.mnemonic ++ operandText store i.op

def line (store : Store) (index : Nat) (i : Instruction) : String :=
  String.ofList (Text.trimEnd (fullLine store index i).toList)

def listing (p : Program) : String :=
  String.join (p.code.entries.map fun e => line p.store e.1 e.2 ++ "\n")

end Program

end StackLang
