import HangulScript.Evaluation.Rules
import HangulScript.Tree.Grammar

/-!
# Sessions

A session is a store of scopes that outlives single programs: each program is run in
one of its scopes, usually the root, and finds there what earlier programs bound.  A
program that fails leaves behind what it bound before it failed.

Every run answers with its outcome and with the events that were recorded while it
went on, the earliest first.
-/

namespace HangulScript

/-- Why a source text or a tree has no value. -/
inductive RunFailure where
  | reading (failure : ReadingFailure)
  | evaluation (failure : Failure)
  deriving DecidableEq

namespace RunFailure

/-- The error of the program that a failure is, if it is one. -/
def error? : RunFailure → Option Error
  | reading (.error e) => some e
  | evaluation (.error e) => some e
  | _ => none

end RunFailure

/-- The answer to a run. -/
structure RunReport where
  outcome : Except RunFailure Value
  events : List Event

/-- A verbosity, and the scopes that programs run in. -/
structure Session where
  verbosity : Nat
  store : Store

namespace Session

/-- The scope that a session begins with. -/
def root : ScopeId := 0

/-- A session with an empty root scope. -/
def start (verbosity : Nat) : Session := ⟨verbosity, Store.empty.addRoot.1⟩

/-- A further scope inside another. -/
def addChild (s : Session) (parent : ScopeId) : ScopeId × Session :=
  let (store, id) := s.store.addChild parent
  (id, { s with store := store })

/-- Runs a tree in a scope. -/
def run (s : Session) (scope : ScopeId) (tree : Node) : RunReport × Session :=
  let (outcome, machine) :=
    Evaluation.program s.verbosity Evaluation.nestingLimit scope tree ⟨s.store, []⟩
  (⟨outcome.mapError .evaluation, machine.events.reverse⟩, { s with store := machine.store })

/-- Runs a source text in a scope.  A text that holds no program changes nothing. -/
def runSource (s : Session) (scope : ScopeId) (source : String) : RunReport × Session :=
  match Grammar.programOf source with
  | .ok tree => s.run scope tree
  | .error failure => (⟨.error (.reading failure), []⟩, s)

end Session

/-- Runs a source text in a session of its own. -/
def runProgram (source : String) : RunReport × Session :=
  (Session.start 0).runSource Session.root source

end HangulScript
