import StackLang.Compilation
import StackLang.Machine.Run

/-!
# The command line

One source file is compiled and run. `--emit tokens` prints its tokens instead, `--emit
listing` prints the listing before the run, and `--no-run` leaves the run out. Each
option may stand once, in any place; behind `--` there are no options any more. Anything
else is a usage error.

The command line is a plan first: what to print, and which program to run behind that.
Whoever carries out the plan reads the file and runs the machine.
-/

namespace StackLang.CommandLine

/-- An intermediate form to print. -/
inductive Form where
  | tokens
  | listing
  deriving DecidableEq

def Form.ofName? (s : String) : Option Form :=
  match s with
  | "tokens" => some .tokens
  | "listing" => some .listing
  | _ => none

structure Options where
  file : Option String := none
  emit : Option Form := none
  noRun : Bool := false

namespace Options

def withFile (o : Options) (file : String) : Option Options :=
  if file = "" ∨ o.file.isSome then none else some { o with file := some file }

def withForm (o : Options) (name : String) : Option Options :=
  match Form.ofName? name with
  | some form => if o.emit.isSome then none else some { o with emit := some form }
  | none => none

def withoutRun (o : Options) : Option Options :=
  if o.noRun then none else some { o with noRun := true }

/-- The value of an argument that gives one behind an equals sign. -/
def value? (name arg : String) : Option String :=
  if (name ++ "=").toList.isPrefixOf arg.toList then
    some (String.ofList (arg.toList.drop (name.length + 1)))
  else none

/-- Arguments behind `--`: all of them name files. -/
def takeFiles (o : Options) : List String → Option Options
  | [] => some o
  | arg :: args => (o.withFile arg).bind fun o => o.takeFiles args

/-- Takes the arguments from left to right. -/
def take (o : Options) : List String → Option Options
  | [] => some o
  | "--" :: args => o.takeFiles args
  | "--no-run" :: args => o.withoutRun.bind fun o => o.take args
  | ["--emit"] => none
  | "--emit" :: name :: args => (o.withForm name).bind fun o => o.take args
  | arg :: args =>
    match value? "--emit" arg with
    | some name => (o.withForm name).bind fun o => o.take args
    | none =>
      if arg.toList.head? = some '-' ∧ arg ≠ "-" then none
      else (o.withFile arg).bind fun o => o.take args

end Options

/-- What the arguments ask for. -/
structure Request where
  file : String
  emit : Option Form
  noRun : Bool

/-- The request of an argument list; `none` is a usage error. -/
def Request.ofArgs? (args : List String) : Option Request :=
  match ({} : Options).take args with
  | some o => o.file.map fun file => ⟨file, o.emit, o.noRun⟩
  | none => none

/-- Why a source file cannot be read. -/
inductive ReadError where
  | notFound
  | accessDenied
  | notADirectory
  | isDirectory
  | notText
  | other (cause : String)

def ReadError.message : ReadError → String
  | .notFound => "No such file or directory (os error 2)"
  | .accessDenied => "Permission denied (os error 13)"
  | .notADirectory => "Not a directory (os error 20)"
  | .isDirectory => "Is a directory (os error 21)"
  | .notText => "stream did not contain valid UTF-8"
  | .other cause => cause

/-- The text of a source file. -/
def decode (bytes : ByteArray) : Except ReadError String :=
  match String.fromUTF8? bytes with
  | some source => .ok source
  | none => .error .notText

/-- How a command ends. -/
inductive Ending where
  | success
  | failure (message : String)

namespace Ending

def code : Ending → Nat
  | .success => 0
  | .failure _ => 1

/-- What goes to the error output. -/
def report : Ending → String
  | .success => ""
  | .failure message => "error: " ++ message ++ "\n"

def ofFault (f : Located Fault) : Ending := .failure f.faultText

/-- How a command ends when its machine has come to an end. -/
def ofMachine (m : Machine) : Ending :=
  match m.fault with
  | some e => ofFault (e.map .run)
  | none => .success

end Ending

def usageCode : Nat := 2

inductive Finale where
  | ends (ending : Ending)
  | runs (p : Program)

/-- A text to print, and what comes behind it. -/
structure Plan where
  text : String
  finale : Finale

namespace Plan

def unreadable (file : String) (e : ReadError) : Plan :=
  ⟨"", .ends (.failure ("failed to read " ++ file ++ ": " ++ e.message))⟩

def tokens (source : String) : Plan :=
  let lines := (TokenStream.ofSource source).significant.toList.map fun t => t.line ++ "\n"
  ⟨String.join lines, .ends .success⟩

/-- The listing of a program under its heading. The heading of the run follows if there
is one. -/
def listing (p : Program) (noRun : Bool) : String :=
  "Executable code:\n" ++ p.listing ++ if noRun then "" else "Execution:\n"

def program (r : Request) (p : Program) : Plan :=
  ⟨if r.emit = some .listing then listing p r.noRun else "",
    if r.noRun then .ends .success else .runs p⟩

/-- The plan for a request, given the text of its file. -/
def ofSource (r : Request) (source : String) : Plan :=
  if r.emit = some .tokens then tokens source
  else
    match Program.ofSource source with
    | .error f => ⟨"", .ends (.ofFault f)⟩
    | .ok p => program r p

/-- The plan for a request, given what reading its file gave. -/
def ofFile (r : Request) (content : Except ReadError ByteArray) : Plan :=
  match content.bind decode with
  | .error e => unreadable r.file e
  | .ok source => ofSource r source

end Plan

end StackLang.CommandLine
