import HangulScript.Diagnosis.Basic
import HangulScript.Evaluation.Event
import HangulScript.Evaluation.Operator
import HangulScript.Evaluation.Store

/-!
# Machines and runs

Evaluating works on a machine: the store of scopes and the events recorded so far.  A
run takes a machine to an outcome and a machine.  The machine comes out in any case.
What a run had bound and recorded when it failed stays bound and recorded, and that is
why a run is not a function into an outcome *with* a machine.

A run fails in one of three ways.  An error is the program's own fault.  Exhaustion
means that the nesting limit was reached; it becomes an error where the program as a
whole is evaluated.  A defect means that the tree is none that reading a text can give.
-/

namespace HangulScript

/-- What is wrong with a tree that no text gives. -/
inductive Defect where
  /-- Something without statements where a program or a block belongs. -/
  | noStatements
  /-- Something else than a name for a parameter. -/
  | noName
  /-- A marker where the text of a value is needed. -/
  | noText
  /-- A node of this kind where a statement belongs. -/
  | notAStatement (kind : String)
  /-- A node of this kind where an expression belongs. -/
  | notAnExpression (kind : String)
  /-- A text that is no operator of the needed sort. -/
  | unknownOperator (operator : UnknownOperator)
  deriving DecidableEq

namespace Defect

/-- The message of an operator that is none. -/
def operatorMessage (operator : UnknownOperator) : String :=
  operator.job.label ++ ": unexpected operator " ++ operator.op

/-- The message of a defect, where it has one. -/
def message? : Defect → Option String
  | noStatements | noName | noText => none
  | notAStatement kind => some ("execute: unexpected node type " ++ kind)
  | notAnExpression kind => some ("evaluate: unexpected node type " ++ kind)
  | unknownOperator operator => some (operatorMessage operator)

end Defect

/-- How a run fails. -/
inductive Failure where
  | error (e : Error)
  | exhausted
  | defect (d : Defect)
  deriving DecidableEq

/-- The scopes, and the events recorded so far, the latest first. -/
structure Machine where
  store : Store
  events : List Event

/-- A run: from a machine to an outcome and a machine. -/
def Run (α : Type) : Type := Machine → Except Failure α × Machine

namespace Run

/-- The run that does nothing and succeeds. -/
def done {α : Type} (a : α) : Run α := fun m => (.ok a, m)

/-- One run after another; the second is left out when the first fails. -/
def andThen {α β : Type} (x : Run α) (f : α → Run β) : Run β := fun m =>
  match x m with
  | (.ok a, m) => f a m
  | (.error e, m) => (.error e, m)

instance : Monad Run where
  pure := done
  bind := andThen

@[simp] theorem pure_apply {α : Type} (a : α) (m : Machine) : (pure a : Run α) m = (.ok a, m) :=
  rfl

theorem bind_apply {α β : Type} (x : Run α) (f : α → Run β) (m : Machine) :
    (x >>= f) m =
      match x m with
      | (.ok a, m) => f a m
      | (.error e, m) => (.error e, m) :=
  rfl

/-- The run that fails. -/
def fail {α : Type} (failure : Failure) : Run α := fun m => (.error failure, m)

/-- The run that fails with an error of the program. -/
def error {α : Type} (cause : Cause) (range : Range) : Run α := fail (.error ⟨cause, range⟩)

/-- The run that fails for a defect of the tree. -/
def defect {α : Type} (d : Defect) : Run α := fail (.defect d)

/-- A result, or the defect that there is none. -/
def orDefect {α : Type} (d : Defect) : Option α → Run α
  | some a => done a
  | none => defect d

/-- The result of an operator. -/
def applied {α : Type} : Except UnknownOperator α → Run α
  | .ok a => done a
  | .error operator => defect (.unknownOperator operator)

/-! ## The machine's own steps -/

/-- The value of a name in a scope, if it is bound. -/
def get? (scope : ScopeId) (name : String) : Run (Option Value) := fun m =>
  (.ok (m.store.get? scope name), m)

/-- Binds a name in a scope. -/
def bindIn (scope : ScopeId) (name : String) (value : Value) : Run Unit := fun m =>
  (.ok (), { m with store := m.store.bind scope name value })

/-- Makes a scope inside another. -/
def addChild (parent : ScopeId) : Run ScopeId := fun m =>
  let (store, id) := m.store.addChild parent
  (.ok id, { m with store := store })

/-- Records an event. -/
def record (e : Event) : Run Unit := fun m => (.ok (), { m with events := e :: m.events })

/-- Does something if the verbosity asks for it. -/
def whenVerbose (verbosity needed : Nat) (action : Run Unit) : Run Unit :=
  if needed ≤ verbosity then action else done ()

/-- The text of a value that is about to be recorded. -/
def textOf (value : Value) : Run String := orDefect .noText value.text?

end Run
end HangulScript
