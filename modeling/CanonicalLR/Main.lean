import CanonicalLR.CommandLine.Run

/-!
# The program

Reads the grammar file that the arguments name and prints its parse table.
-/

namespace CanonicalLR.CommandLine

/-- The content of the file that the arguments name, under its name. -/
def readNamed (arguments : List Argument) : IO (Argument → Except FileFault ByteArray) := do
  match Request.read arguments with
  | .ok request =>
    let name := request.grammar.getD []
    try
      let content ← IO.FS.readBinFile (Text.shown name)
      return fun asked => if asked = name then .ok content else .error .missing
    catch _ => return fun _ => .error .missing
  | .error _ => return fun _ => .error .missing

/-- Prints the outcome of a run and returns its exit code. -/
def report : Except FileFault Outcome → IO UInt32
  | .ok outcome => do
    IO.print outcome.stdout
    IO.eprint outcome.stderr
    return outcome.exit.toUInt32
  | .error .notText => do
    IO.eprintln "error: the grammar file is not UTF-8 text"
    return 1
  | .error _ => do
    IO.eprintln "error: the grammar file cannot be read"
    return 1

/-- Runs the program on arguments that are well-formed texts. -/
def runOn (arguments : List String) : IO UInt32 := do
  let given := arguments.map Text.points
  report (run (← readNamed given) given)

end CanonicalLR.CommandLine

def main (arguments : List String) : IO UInt32 := CanonicalLR.CommandLine.runOn arguments
