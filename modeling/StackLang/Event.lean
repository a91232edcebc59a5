import StackLang.Kind

/-!
# Events

An event reports one recognised construct. Expressions come in postfix order, the head
of a loop before its condition, the head of a conditional after it. The position of an
event is that of the token that names the construct.
-/

namespace StackLang

inductive Event where
  | declare (kind : VariableKind) (name : String)
  /-- The variable that the coming assignment writes. -/
  | target (name : String)
  | read (name : String)
  | integer (text : String)
  | string (text : String)
  | operator (spelling : String)
  | assign
  | print
  /-- The condition of a conditional or a loop is complete. -/
  | branch
  | otherwise
  /-- A loop starts; its condition follows. -/
  | loop
  | close
  deriving DecidableEq

end StackLang
