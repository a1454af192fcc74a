import HangulScript.Command.Directory

/-!
# The command line

The outer layer: it finds the file that a task reads, hands its text to
`Command.perform`, writes what that says is to be written, and prints the answer.
-/

namespace HangulScript
namespace Command

/-- What is printed for a fault. -/
def Fault.message : Fault → String
  | .notJson => "the tree file is no JSON text"
  | .noTree e => e.message?.getD "the tree file holds no tree"
  | .reading _ => "the program cannot be read"
  | .evaluation (.defect d) => d.message?.getD "the tree is no program"
  | .evaluation _ => "the program cannot be run"
  | .isDirectory => "a directory stands where a file is needed"
  | .noDirectory => "the directory of a file is not there"

/-- Prints an answer and gives the exit status. -/
def finish (response : Response) : IO UInt32 := do
  IO.print response.output
  IO.eprint response.complaint
  match response.exit with
  | .status code => return code.toUInt32
  | .fault f =>
    IO.eprintln f.message
    return 1

/-- The text of a file, if the file is there. -/
def textOfFile (path : String) : IO (Option String) := do
  try
    let text ← IO.FS.readFile path
    return some text
  catch _ => return none

/-- Carries out arguments. -/
def start (args : List String) : IO UInt32 :=
  match Options.ofArguments args with
  | .error stop => finish (stopped stop)
  | .ok o =>
    match o.task with
    | .error stop => finish (stopped stop)
    | .ok task => do
      let text ← textOfFile task.input
      let effect := perform o task text
      for (path, text) in effect.files do
        IO.FS.writeFile path text
      finish effect.response

end Command
end HangulScript

/-- The command. -/
def main (args : List String) : IO UInt32 := HangulScript.Command.start args
