import StackLang.CommandLine

/-!
# The command

Carries out the plan of a command line: reads the file, prints, and runs the machine in
slices, so that its output appears while it runs.
-/

namespace StackLang.CommandLine

def readSource (file : String) : IO (Except ReadError ByteArray) := do
  try
    return .ok (← IO.FS.readBinFile file)
  catch e =>
    match e with
    | .noFileOrDirectory .. => return .error .notFound
    | .permissionDenied .. => return .error .accessDenied
    | .inappropriateType _ code _ =>
      return .error (if code = 20 then .notADirectory else .isDirectory)
    | e => return .error (.other (toString e))

/-- The number of steps between two writes. -/
def slice : Nat := 65536

partial def drive (p : Program) (m : Machine) : IO Machine := do
  let m := m.run p slice
  let out ← IO.getStdout
  out.write m.sink.written
  out.flush
  if (m.current? p).isSome then drive p { m with sink := m.sink.renew } else return m

def finish (ending : Ending) : IO UInt32 := do
  (← IO.getStderr).putStr ending.report
  return ending.code.toUInt32

end StackLang.CommandLine

open StackLang StackLang.CommandLine in
def main (args : List String) : IO UInt32 := do
  match Request.ofArgs? args with
  | none =>
    (← IO.getStderr).putStrLn "usage: stacklang [--emit tokens|listing] [--no-run] FILE"
    return usageCode.toUInt32
  | some r =>
    let plan := Plan.ofFile r (← readSource r.file)
    let out ← IO.getStdout
    out.putStr plan.text
    out.flush
    match plan.finale with
    | .ends ending => finish ending
    | .runs p => finish (.ofMachine (← drive p (.start p.store none)))
