import StackLang.Grammar.Statement

/-!
# From a text to a program

The grammar reports events, and a draft takes them in order. The first event that the
draft refuses decides the fault; if it takes them all, a fault of the grammar does; and
then the draft has to be complete.
-/

namespace StackLang

namespace Reading

/-- The program that a reading describes. -/
def compile (r : Reading Unit) : Except (Located Fault) Program :=
  match Draft.empty.applyAll r.events with
  | .error e => .error (e.map .draft)
  | .ok d =>
    match r.outcome with
    | .error e => .error e
    | .ok () => d.finish.mapError fun e => e.map .draft

end Reading

namespace Grammar

/-- Reads the significant tokens of a source text. -/
def readSource (source : String) : Reading Unit := program (TokenStream.ofSource source).significant

end Grammar

/-- The program of a source text. -/
def Program.ofSource (source : String) : Except (Located Fault) Program :=
  (Grammar.readSource source).compile

end StackLang
