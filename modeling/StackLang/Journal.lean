import StackLang.Compilation
import StackLang.Machine.Run

/-!
# The journal

A record for everything that happens on the way from a text to the end of a run. Nothing
keeps a journal while it works: what a draft emitted and resolved shows in the
difference that an event made, and the steps of a run show in the machines it went
through.
-/

namespace StackLang

inductive Record where
  | emitted (index : Nat) (i : Instruction)
  | resolved (index target : Nat)
  | built (size slots : Nat)
  | stepped (index : Nat) (op : Operation) (depth : Nat)
  | finished (steps : Nat)

namespace Record

def text : Record → String
  | .emitted index i =>
    "TRACE emit " ++ Text.alignRight 5 (Decimal.ofNat index) ++ ": " ++ i.kind.tag ++ " " ++
      i.op.dump ++ " at " ++ i.pos.text
  | .resolved index target =>
    "TRACE backpatch " ++ Decimal.ofNat index ++ " -> " ++ Decimal.ofNat target
  | .built size slots =>
    "DEBUG built program with " ++ Decimal.ofNat size ++ " instructions and " ++
      Decimal.ofNat slots ++ " variables"
  | .stepped index op depth =>
    "TRACE step " ++ Text.alignRight 5 (Decimal.ofNat index) ++ ": " ++ op.dump ++
      " (stack depth " ++ Decimal.ofNat depth ++ ")"
  | .finished steps => "DEBUG run finished after " ++ Decimal.ofNat steps ++ " steps"

end Record

namespace Journal

/-- The instructions of `after` that `before` does not have yet. -/
def emissions (before after : Draft) : List Record :=
  (List.range' before.code.size (after.code.size - before.code.size)).filterMap fun i =>
    (after.code.get? i).map (.emitted i)

/-- The jumps that were open in `before` and have a target in `after`. -/
def resolutions (before after : Draft) : List Record :=
  before.openings.filterMap fun o =>
    match (after.code.get? o.index).bind (·.op.target?) with
    | some t => some (.resolved o.index t)
    | none => none

/-- What an event did to a draft. -/
def ofEvent (before after : Draft) : List Record :=
  emissions before after ++ resolutions before after

/-- What events did, up to the first that is refused. -/
def ofEvents (d : Draft) : List (Located Event) → List Record
  | [] => []
  | e :: es =>
    match d.apply e with
    | .ok d' => ofEvent d d' ++ ofEvents d' es
    | .error _ => []

def ofProgram (p : Program) : List Record := [.built p.size p.store.size]

/-- The records of making a program from a reading. -/
def ofReading (r : Reading Unit) : List Record :=
  ofEvents .empty r.events ++
    match r.compile with
    | .ok p => ofProgram p
    | .error _ => []

/-- The steps of a run from a machine that has made `count` steps before; at most `n`
more. -/
def ofRun (p : Program) : (n count : Nat) → Machine → List Record
  | 0, _, _ => []
  | n + 1, count, m =>
    match m.current? p, m.fault with
    | some i, _ => .stepped m.counter i.op m.stack.length :: ofRun p n (count + 1) (m.step p)
    | none, none => [.finished count]
    | none, some _ => []

/-- The steps of consecutive runs. -/
def ofRuns (p : Program) (steps : Nat) (keepStack : Bool) : (n : Nat) → Machine → List Record
  | 0, _ => []
  | n + 1, m => ofRun p steps 0 m ++ ofRuns p steps keepStack n ((m.run p steps).restart keepStack)

end Journal

end StackLang
