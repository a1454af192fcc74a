import HangulScript.Command.Execution

/-!
# The command in a directory

A directory is a list of files with their texts, in the order in which they were made.
It holds no other directories.  Running the command in one gives an answer and the
directory as it is afterwards, and a sequence of commands is run one after the other.

A path without steps is the directory itself, and one of double dots leads to a
directory around it; neither can be read or written as a file.  Any other path with
more than one step leads into a directory that is not there.
-/

namespace HangulScript
namespace Command

/-- The files of a directory with their texts. -/
abbrev Directory := List (String × String)

namespace Directory

/-- Whether a path is the directory itself or one around it. -/
def isAround (path : String) : Bool := (steps path.toList).all (· == ['.', '.'])

/-- A file written into a directory; a file that is there is replaced in its place. -/
def write (path text : String) : Directory → Directory
  | [] => [(path, text)]
  | f :: rest => if f.1 = path then (path, text) :: rest else f :: write path text rest

/-- What there is at a path. -/
inductive Found where
  | nothing
  | directory
  | file (text : String)

/-- Looks a path up. -/
def find (d : Directory) (path : String) : Found :=
  match d.lookup path with
  | some text => .file text
  | none => if isAround path then .directory else .nothing

/-- Whether a file can be written at a path, and why not. -/
def obstacle? (path : String) : Option Fault :=
  if isAround path then some .isDirectory
  else if '/' ∈ path.toList then some .noDirectory
  else none

/-- Carries out a task in a directory.  An obstacle to the debug file stops it before
the program is run, but not before it is read. -/
def performIn (d : Directory) (o : Options) (task : Task) : Response × Directory :=
  let carriedOut (text : Option String) : Response × Directory :=
    let effect := perform o task text
    match effect.files.findSome? fun f => obstacle? (plainPath f.1) with
    | some fault => (⟨.fault fault, "", ""⟩, d)
    | none => (effect.response, effect.files.foldl (fun d f => write (plainPath f.1) f.2 d) d)
  match d.find task.input with
  | .directory => (⟨.fault .isDirectory, "", ""⟩, d)
  | .file text => carriedOut (some text)
  | .nothing => carriedOut none

/-- Runs the command with arguments in a directory. -/
def execute (d : Directory) (args : List String) : Response × Directory :=
  match Options.ofArguments args with
  | .error stop => (stopped stop, d)
  | .ok o =>
    match o.task with
    | .error stop => (stopped stop, d)
    | .ok task => d.performIn o task

/-- Runs the command several times, each time in the directory that the time before
left. -/
def executeAll (d : Directory) : List (List String) → List Response × Directory
  | [] => ([], d)
  | args :: rest =>
    let (response, d) := d.execute args
    let (responses, d) := executeAll d rest
    (response :: responses, d)

end Directory
end Command
end HangulScript
