import HangulScript.Command.Options
import HangulScript.Command.Path
import HangulScript.Diagnosis.Report
import HangulScript.Json.Printer
import HangulScript.Json.Reader
import HangulScript.Session
import HangulScript.Tree.Encoding

/-!
# What the command does

There are three tasks: running a program file, writing the tree of a program file into
a tree file beside it, and running a tree file.  Each reads one file, and given the
text of that file --- or that there is none --- everything else is determined: what is
printed, the exit status, and what is written to which file.  `perform` is that
function; opening files is left to others.

An error of the program ends the command with status 1 and a report.  The report shows
the source line only if a program file was read, since a tree file has no lines to
show.  A tree file that holds no tree, or a tree that no text gives, ends it with a
fault instead.

## When the telling begins

What a run tells goes to the debug file, and without one in front of any report.  The
file is opened when verbosity was asked for and the program is about to run, so a
program that cannot be read leaves no such file, and one that fails leaves it with what
was told up to then.
-/

namespace HangulScript
namespace Command

/-- What there is to do. -/
inductive Task where
  /-- Write the tree of a program file into a file. -/
  | emitTree (path : String)
  /-- Run a tree file. -/
  | runTree (path : String)
  /-- Run a program file. -/
  | runProgram (path : String)
  deriving DecidableEq

namespace Task

/-- The file that a task reads. -/
def input : Task → String
  | emitTree path | runTree path | runProgram path => path

end Task

namespace Options

/-- A value that is given and not empty. -/
def given (value : Option String) : Option String := value.filter (· != "")

/-- The task that options name, writing a tree before running one and that before
running a program. -/
def task (o : Options) : Except Stop Task :=
  match given o.emitTree, given o.runTree, given o.program with
  | some path, _, _ => .ok (.emitTree (plainPath path))
  | none, some path, _ => .ok (.runTree (plainPath path))
  | none, none, some path => .ok (.runProgram (plainPath path))
  | none, none, none => .error (.misuse "missing program file; or use --emit-ast/--ast")

/-- The file that a run is told to. -/
def debugPath (o : Options) : Option String :=
  if o.verbosity = 0 then none else given o.debugFile

end Options

/-! ## Answers -/

/-- What ends the command other than an exit status. -/
inductive Fault where
  /-- A tree file that is no JSON text. -/
  | notJson
  /-- A tree file that holds no tree. -/
  | noTree (e : EncodingError)
  /-- A source text that could not be read for another reason than an error in it. -/
  | reading (failure : ReadingFailure)
  /-- A tree that no text gives. -/
  | evaluation (failure : Failure)
  /-- A directory where a file is needed. -/
  | isDirectory
  /-- A file to write in a directory that is not there. -/
  | noDirectory
  deriving DecidableEq

/-- How the command ends. -/
inductive Exit where
  | status (code : Nat)
  | fault (f : Fault)
  deriving DecidableEq

/-- What the command answers: how it ends, and what it prints. -/
structure Response where
  exit : Exit
  output : String
  complaint : String
  deriving DecidableEq

/-- An answer together with what is written into which file before it ends. -/
structure Effect where
  response : Response
  files : List (String × String)
  deriving DecidableEq

namespace Effect

/-- An effect on no file. -/
def of (exit : Exit) (output complaint : String) : Effect := ⟨⟨exit, output, complaint⟩, []⟩

end Effect

/-- A text as a line. -/
def line (text : String) : String := text ++ "\n"

/-- The answer to arguments that are not carried out. -/
def stopped : Stop → Response
  | .help =>
    ⟨.status 0,
      line "usage: nuri [-h] [-v] [--debug-file FILE] [--emit-ast FILE | --ast FILE] [FILE]", ""⟩
  | .misuse message => ⟨.status 2, "", line ("nuri: error: " ++ message)⟩

/-! ## Running -/

/-- Runs a tree and tells of it; the source text is shown in reports. -/
def run (o : Options) (tree : Node) (source : Option String) : Effect :=
  let report := ((Session.start o.verbosity).run Session.root tree).1
  let told := String.join (report.events.map fun e => line e.line)
  let files := (o.debugPath.map fun path => (path, told)).toList
  let complaint := if o.debugPath.isSome then "" else told
  let response := match report.outcome with
    | .ok value => ⟨.status 0, line (value.text?.getD ""), complaint⟩
    | .error (.evaluation (.error e)) => ⟨.status 1, "", complaint ++ line (e.report source)⟩
    | .error (.evaluation failure) => ⟨.fault (.evaluation failure), "", complaint⟩
    | .error (.reading failure) => ⟨.fault (.reading failure), "", complaint⟩
  ⟨response, files⟩

/-- Reads a program and goes on with its tree. -/
def withTree (source : String) (next : Node → Effect) : Effect :=
  match Grammar.programOf source with
  | .ok tree => next tree
  | .error (.error e) => .of (.status 1) "" (line (e.report (some source)))
  | .error failure => .of (.fault (.reading failure)) "" ""

/-- The file that the tree of a program file is written into. -/
def treePath (path : String) : String := path ++ ".ast.json"

/-- Carries out a task, given the text of its file. -/
def performOn (o : Options) (task : Task) (text : String) : Effect :=
  let source := String.ofList (Source.withNewlines text.toList)
  match task with
  | .emitTree path =>
    withTree source fun tree =>
      ⟨⟨.status 0, line (treePath path), ""⟩,
        [(treePath path, String.ofList tree.toJson.toText)]⟩
  | .runTree _ =>
    match Json.ofText? source.toList with
    | none => .of (.fault .notJson) "" ""
    | some value =>
      match Node.ofJson value with
      | .ok tree => run o tree none
      | .error e => .of (.fault (.noTree e)) "" ""
  | .runProgram _ => withTree source fun tree => run o tree (some source)

/-- Carries out a task, given the text of its file if there is one. -/
def perform (o : Options) (task : Task) (text : Option String) : Effect :=
  match text with
  | some text => performOn o task text
  | none => .of (.status 1) "" (line ("Error: file " ++ task.input ++ " not found"))

end Command
end HangulScript
