/-!
# Kinds

Every value is an integer, a string or a boolean; `void` is the kind of what carries no
value. Variables hold integers or strings only, so they have a type of kinds of their
own.
-/

namespace StackLang

inductive Kind where
  | void
  | integer
  | string
  | boolean
  deriving DecidableEq

namespace Kind

def all : List Kind := [.void, .integer, .string, .boolean]

def name : Kind → String
  | .void => "void"
  | .integer => "integer"
  | .string => "string"
  | .boolean => "boolean"

/-- The kind as a tag of five columns. -/
def tag : Kind → String
  | .void => "     "
  | .integer => "int  "
  | .string => "str  "
  | .boolean => "bool "

def dump : Kind → String
  | .void => "Void"
  | .integer => "Integer"
  | .string => "String"
  | .boolean => "Boolean"

end Kind

/-- The kinds a variable can be declared with. -/
inductive VariableKind where
  | integer
  | string
  deriving DecidableEq

namespace VariableKind

def toKind : VariableKind → Kind
  | .integer => .integer
  | .string => .string

theorem toKind_injective (k l : VariableKind) (h : k.toKind = l.toKind) : k = l := by
  cases k <;> cases l <;> simp_all [toKind]

end VariableKind

end StackLang
