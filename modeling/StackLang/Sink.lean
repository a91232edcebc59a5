/-!
# Output sinks

A sink takes bytes up to its limit, if it has one. Of a text that does not fit it keeps
the bytes that do, even when that cuts a character.
-/

namespace StackLang

structure Sink where
  limit : Option Nat := none
  written : ByteArray := .empty

namespace Sink

/-- Whether there is room for all of the bytes. -/
def fits (s : Sink) (bytes : ByteArray) : Bool :=
  match s.limit with
  | none => true
  | some n => s.written.size + bytes.size ≤ n

/-- The sink after as many of the bytes as fit. -/
def write (s : Sink) (bytes : ByteArray) : Sink :=
  match s.limit with
  | none => { s with written := s.written ++ bytes }
  | some n => { s with written := s.written ++ bytes.extract 0 (n - s.written.size) }

/-- A sink with the same limit and nothing in it. -/
def renew (s : Sink) : Sink := { limit := s.limit }

@[simp] theorem limit_write (s : Sink) (bytes : ByteArray) : (s.write bytes).limit = s.limit := by
  unfold write
  split <;> simp_all

end Sink

end StackLang
