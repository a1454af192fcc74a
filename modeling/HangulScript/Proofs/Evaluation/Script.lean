import HangulScript.Proofs.Evaluation.Frame
import HangulScript.Proofs.Evaluation.Realization

/-!
# What evaluating does with a machine

A run is a function on machines, and a function does not say in which steps it came to its
result.  Two things about runs are about the steps, though: what a run cut short has done up
to then, and what two runs that do the same, or nearly the same, do one after the other.  A
*script* has the steps.  It is the tree of everything that evaluating may come to do with a
machine: it asks for a name and goes on with the answer, binds a name, makes a scope and goes
on with its number, or records an event, and at its leaves it is done or has failed.

Every rule of evaluation has its script, and to carry the script out is to evaluate
(`run_expression`, `program_eq_run`).  The scripts are the same rules with other steps, so
nothing is decided twice: what the scripts do is what the evaluator does.

## Nothing comes after a failure

A failure is a leaf, and what would have come behind it is not in the script.  No step can
ask whether there was a failure, and none can go on from one.

The failure with which a script ends when no levels are left is given to it.  Evaluating has
one for that, and with another one in its place the script is the same but for that leaf.
-/

namespace HangulScript

/-- The steps that are taken with a machine, as they depend on its answers. -/
inductive Script (α : Type) where
  | done (a : α)
  | fail (failure : Failure)
  | get? (scope : ScopeId) (name : String) (next : Option Value → Script α)
  | bindIn (scope : ScopeId) (name : String) (value : Value) (next : Script α)
  | addChild (parent : ScopeId) (next : ScopeId → Script α)
  | record (e : Event) (next : Script α)

namespace Script

variable {α β : Type}

/-- One script after another; the second is left out where the first fails. -/
def andThen : Script α → (α → Script β) → Script β
  | done a, f => f a
  | fail failure, _ => fail failure
  | get? scope name next, f => get? scope name fun value => (next value).andThen f
  | bindIn scope name value next, f => bindIn scope name value (next.andThen f)
  | addChild parent next, f => addChild parent fun id => (next id).andThen f
  | record e next, f => record e (next.andThen f)

instance : Monad Script where
  pure := done
  bind := andThen

/-- Carries a script out. -/
def run : Script α → Run α
  | done a => pure a
  | fail failure => Run.fail failure
  | get? scope name next => Run.get? scope name >>= fun value => (next value).run
  | bindIn scope name value next => Run.bindIn scope name value >>= fun _ => next.run
  | addChild parent next => Run.addChild parent >>= fun id => (next id).run
  | record e next => Run.record e >>= fun _ => next.run

/-- A script without steps leaves the machine as it is. -/
@[simp] theorem run_pure (a : α) : (pure a : Script α).run = pure a := rfl

/-- Carrying out one script after another. -/
@[simp] theorem run_bind (s : Script α) (f : α → Script β) :
    (s >>= f).run = s.run >>= fun a => (f a).run := by
  induction s with
  | done a => rfl
  | fail failure => rfl
  | get? scope name next ih =>
    show (Run.get? scope name >>= fun value => (next value >>= f).run) = _
    simp only [ih, run, bind_assoc]
  | bindIn scope name value next ih =>
    show (Run.bindIn scope name value >>= fun _ => (next >>= f).run) = _
    simp only [ih, run, bind_assoc]
  | addChild parent next ih =>
    show (Run.addChild parent >>= fun id => (next id >>= f).run) = _
    simp only [ih, run, bind_assoc]
  | record e next ih =>
    show (Run.record e >>= fun _ => (next >>= f).run) = _
    simp only [ih, run, bind_assoc]

section Apply

variable (m : Machine)

/-! A script that is carried out on a machine takes its first step and goes on. -/

/-- Asking for a name is answered by the store of the machine. -/
theorem run_get?_apply (scope : ScopeId) (name : String) (next : Option Value → Script α) :
    (get? scope name next).run m = (next (m.store.get? scope name)).run m := rfl

/-- Binding a name changes the store and nothing else. -/
theorem run_bindIn_apply (scope : ScopeId) (name : String) (value : Value) (next : Script α) :
    (bindIn scope name value next).run m =
      next.run { m with store := m.store.bind scope name value } := rfl

/-- A new scope has the number that comes next. -/
theorem run_addChild_apply (parent : ScopeId) (next : ScopeId → Script α) :
    (addChild parent next).run m =
      (next m.store.scopes.size).run { m with store := (m.store.addChild parent).1 } := by
  rw [← Store.addChild_snd m.store parent]
  rfl

/-- An event is put in front of those recorded before. -/
theorem run_record_apply (e : Event) (next : Script α) :
    (record e next).run m = next.run { m with events := e :: m.events } := rfl

end Apply

/-! ## Steps -/

/-- The script that fails with an error of the program. -/
def error (cause : Cause) (range : Range) : Script α := fail (.error ⟨cause, range⟩)

/-- The script that fails for a defect of the tree. -/
def defect (d : Defect) : Script α := fail (.defect d)

/-- A result, or the defect that there is none. -/
def orDefect (d : Defect) : Option α → Script α
  | some a => done a
  | none => defect d

/-- Does something if the verbosity asks for it. -/
def whenVerbose (verbosity needed : Nat) (action : Script Unit) : Script Unit :=
  if needed ≤ verbosity then action else done ()

/-- The text of a value that is about to be recorded. -/
def textOf (value : Value) : Script String := orDefect .noText value.text?

/-- The outcome of a run that does not look at the machine, as a script without steps. -/
def outcomeOf (x : Run α) : Script α :=
  match (x ⟨Store.empty, []⟩).1 with
  | .ok a => done a
  | .error failure => fail failure

/-- What there may be none of is carried out as it is evaluated. -/
@[simp] theorem run_orDefect (d : Defect) (x : Option α) :
    (orDefect d x).run = Run.orDefect d x := by
  cases x <;> rfl

/-- The verbosity is asked when the script is made, and so the step is in it or is not. -/
@[simp] theorem run_whenVerbose (verbosity needed : Nat) (action : Script Unit) :
    (whenVerbose verbosity needed action).run = Run.whenVerbose verbosity needed action.run := by
  unfold whenVerbose Run.whenVerbose
  split <;> rfl

/-- Only a marker has no text. -/
@[simp] theorem run_textOf (value : Value) : (textOf value).run = Run.textOf value :=
  run_orDefect _ _

@[simp] theorem run_get? (scope : ScopeId) (name : String) :
    (get? scope name done).run = Run.get? scope name := rfl

@[simp] theorem run_bindIn (scope : ScopeId) (name : String) (value : Value) :
    (bindIn scope name value (done ())).run = Run.bindIn scope name value := rfl

@[simp] theorem run_addChild (parent : ScopeId) :
    (addChild parent done).run = Run.addChild parent := rfl

@[simp] theorem run_record (e : Event) : (record e (done ())).run = Run.record e := rfl

/-! ## The rules as scripts -/

section Rules

variable (verbosity : Nat) (eval : Node → ScopeId → Script Value)

mutual

/-- The script of a statement. -/
def statement (scope : ScopeId) : Node → Script Value
  | .expressionStatement _ expression => eval expression scope
  | .returnStatement _ expression => do return .returned (← eval expression scope)
  | .branch range predicate consequence alternative => do
    match ← eval predicate scope with
    | .boolean _ decision =>
      whenVerbose verbosity 3 (record (.branch range (Value.truthText decision)) (done ()))
      if decision then block scope consequence
      else if alternative.isAbsent then return .empty range
      else block scope alternative
    | other => error (.badPredicate other.typeName) predicate.range
  | node => defect (.notAStatement node.kindName)

/-- The script of a block. -/
def block (scope : ScopeId) : Node → Script Value
  | .program range inner => statements scope (.empty range) inner
  | .block range inner => statements scope (.empty range) inner
  | _ => defect .noStatements

/-- The script of statements up to the first marker. -/
def statements (scope : ScopeId) (last : Value) : List Node → Script Value
  | [] => return last
  | first :: rest => do
    let value ← statement scope first
    if value.isReturned then return value
    else statements scope value rest

end

/-- The script of binding a name and recording it. -/
def bindName (scope : ScopeId) (name : String) (value : Value) : Script Unit := do
  bindIn scope name value (done ())
  whenVerbose verbosity 2 do
    let text ← textOf value
    record (.binding name text) (done ())

/-- The script of binding parameters to arguments. -/
def bindParams (scope : ScopeId) : List Node → List Value → Script Unit
  | param :: params, value :: values => do
    let name ← orDefect .noName param.name?
    bindName verbosity scope name value
    bindParams scope params values
  | _, _ => return ()

/-- The script of a call. -/
def callFunction (params : List Node) (body : Node) (captured : ScopeId) (values : List Value)
    (range : Range) : Script Value := do
  if values.length ≠ params.length then error (.arity params.length values.length) range
  else
    whenVerbose verbosity 1 do
      let names ← orDefect .noName (Value.paramNames? params)
      record (.call (Value.signature names) values.length range) (done ())
    let scope ← addChild captured done
    bindParams verbosity scope params values
    match ← block verbosity eval scope body with
    | .returned value => return value
    | _ => error .missingReturn body.range

/-- The script of arguments. -/
def arguments (scope : ScopeId) : List Node → Script (List Value)
  | [] => return []
  | first :: rest => do
    let value ← eval first scope
    let values ← arguments scope rest
    return value :: values

/-- The script of an expression, given the scripts of the expressions inside it. -/
def expressionWith (node : Node) (scope : ScopeId) : Script Value :=
  match node with
  | .number range value => return .number range value
  | .boolean range value => return .boolean range value
  | .string range value => return .string range value
  | .identifier range name => do
    match ← get? scope name done with
    | some value => return value
    | none => error (.unboundIdentifier name) range
  | .unary range op operand => do
    let value ← eval operand scope
    outcomeOf (Evaluation.unaryResult range op value)
  | .binary range op left right => do
    let x ← eval left scope
    let y ← eval right scope
    outcomeOf (Evaluation.binaryResult range op x y)
  | .assignment range left right =>
    match left.name? with
    | none => error .badAssignmentTarget range
    | some name => do
      let value ← eval right scope
      bindName verbosity scope name value
      return value
  | .function range params body => return .function range params body scope
  | .call range callee args => do
    match ← eval callee scope with
    | .function _ params body captured =>
      let values ← arguments eval scope args
      callFunction verbosity eval params body captured values range
    | other => error (.notCallable other.typeName) callee.range
  | node => defect (.notAnExpression node.kindName)

/-- The script of the statements of a program. -/
def topLevel (scope : ScopeId) (last : Value) : List Node → Script Value
  | [] => return last
  | first :: rest => do
    let value ← statement verbosity eval scope first
    if value.isReturned then error .topLevelReturn first.range
    else
      whenVerbose verbosity 1 do
        let text ← textOf value
        record (.statement first.range text) (done ())
      topLevel scope value rest

/-- The script of a program. -/
def programWith (scope : ScopeId) (node : Node) : Script Value :=
  match node.statements? with
  | some inner => topLevel verbosity eval scope (.empty node.range) inner
  | none => defect .noStatements

end Rules

/-- The script of an expression with a number of levels left, and the failure with which it
ends if there is none. -/
def expression (bottom : Failure) (verbosity : Nat) : (limit : Nat) → Node → ScopeId → Script Value
  | 0 => fun _ _ => fail bottom
  | limit + 1 => expressionWith verbosity (expression bottom verbosity limit)

/-- The script of a program with a number of levels. -/
def program (bottom : Failure) (verbosity limit : Nat) (scope : ScopeId) (node : Node) :
    Script Value :=
  programWith verbosity (expression bottom verbosity limit) scope node

end Script

/-! ## Carrying out is evaluating -/

namespace Evaluation

/-- Evaluates an expression with a number of levels left, and fails in a given way if there is
none. -/
def expressionOver (bottom : Failure) (verbosity : Nat) : (limit : Nat) → Evaluator
  | 0 => fun _ _ => Run.fail bottom
  | limit + 1 => expressionWith verbosity (expressionOver bottom verbosity limit)

/-- Evaluating ends in exhaustion where no levels are left. -/
theorem expressionOver_exhausted (verbosity limit : Nat) :
    expressionOver .exhausted verbosity limit = expression verbosity limit := by
  induction limit with
  | zero => rfl
  | succ limit ih => rw [expressionOver, expression, ih]

/-- What an outcome is to whoever asked for a whole program: exhaustion is an error of the
program. -/
def reported (range : Range) : Except Failure Value → Except Failure Value
  | .error .exhausted => .error (.error ⟨.callStackExhausted, range⟩)
  | outcome => outcome

theorem program_eq (verbosity limit : Nat) (scope : ScopeId) (node : Node) (m : Machine) :
    program verbosity limit scope node m =
      (reported node.range (programWith verbosity (expression verbosity limit) scope node m).1,
        (programWith verbosity (expression verbosity limit) scope node m).2) := by
  unfold program
  split
  next h => rw [h, reported]
  next h =>
    generalize programWith verbosity _ scope node m = result at h ⊢
    rcases result with ⟨outcome, m'⟩
    cases outcome with
    | ok v => rfl
    | error failure =>
      cases failure with
      | exhausted => exact absurd rfl (h m')
      | error e => rfl
      | defect d => rfl

end Evaluation

namespace Script

open Evaluation (Evaluator)

section Rules

variable {verbosity : Nat} {eval : Node → ScopeId → Script Value} {eval' : Evaluator}

/-- An operator in front of an operand never looks at the machine, so its outcome on the empty one
is its outcome. -/
theorem run_unaryResult (range : Range) (op : String) (v : Value) :
    (outcomeOf (Evaluation.unaryResult range op v)).run = Evaluation.unaryResult range op v := by
  rcases Evaluation.unaryResult_eq range op v with ⟨w, -, h⟩ | ⟨-, h⟩ <;> rw [h] <;> rfl

/-- Neither does an operator between two operands. -/
theorem run_binaryResult (range : Range) (op : String) (v w : Value) :
    (outcomeOf (Evaluation.binaryResult range op v w)).run =
      Evaluation.binaryResult range op v w := by
  rcases Evaluation.binaryResult_eq range op v w with ⟨u, -, h⟩ | ⟨-, h⟩ <;> rw [h] <;> rfl

/-- A name is bound, and then recorded by the text of its value. -/
theorem run_bindName (scope : ScopeId) (name : String) (value : Value) :
    (bindName verbosity scope name value).run =
      Evaluation.bindName verbosity scope name value := by
  simp only [bindName, Evaluation.bindName, run_bind, run_bindIn, run_whenVerbose, run_textOf,
    run_record]

/-- Parameters are bound one after the other, as far as both lists go. -/
theorem run_bindParams (scope : ScopeId) (params : List Node) (values : List Value) :
    (bindParams verbosity scope params values).run =
      Evaluation.bindParams verbosity scope params values := by
  induction params generalizing values with
  | nil => rfl
  | cons param params ih =>
    cases values with
    | nil => rfl
    | cons value values =>
      simp only [bindParams, Evaluation.bindParams, run_bind, run_orDefect, run_bindName, ih]

mutual

/-- **Statements**, with the scripts of the expressions in them given.  All that is decided on the
way is decided on a value that both have. -/
theorem run_statement (he : ∀ node scope, (eval node scope).run = eval' node scope)
    (scope : ScopeId) : ∀ node : Node,
    (statement verbosity eval scope node).run = Evaluation.statement verbosity eval' scope node
  | .expressionStatement _ expression => he expression scope
  | .returnStatement _ expression => by
    simp only [statement, Evaluation.statement, run_bind, he, run_pure]
  | .branch range predicate consequence alternative => by
    have hc := run_block he scope consequence
    have ha := run_block he scope alternative
    rw [statement, Evaluation.statement, run_bind, he]
    congr 1
    funext v
    cases v with
    | boolean r decision =>
      simp only [run_bind, run_whenVerbose, run_record]
      congr 1
      funext _
      cases decision with
      | true => exact hc
      | false =>
        simp only [Bool.false_eq_true, if_false]
        split
        · rfl
        · exact ha
    | _ => rfl
  | .absent | .program .. | .block .. | .number .. | .boolean .. | .string .. | .identifier ..
  | .unary .. | .binary .. | .assignment .. | .function .. | .call .. => rfl

/-- A block is carried out as its statements are. -/
theorem run_block (he : ∀ node scope, (eval node scope).run = eval' node scope)
    (scope : ScopeId) : ∀ node : Node,
    (block verbosity eval scope node).run = Evaluation.block verbosity eval' scope node
  | .program range inner => run_statements he scope (.empty range) inner
  | .block range inner => run_statements he scope (.empty range) inner
  | .absent | .expressionStatement .. | .returnStatement .. | .branch .. | .number ..
  | .boolean .. | .string .. | .identifier .. | .unary .. | .binary .. | .assignment ..
  | .function .. | .call .. => rfl

/-- Statements are carried out up to the first marker. -/
theorem run_statements (he : ∀ node scope, (eval node scope).run = eval' node scope)
    (scope : ScopeId) (last : Value) : ∀ nodes : List Node,
    (statements verbosity eval scope last nodes).run =
      Evaluation.statements verbosity eval' scope last nodes
  | [] => rfl
  | first :: rest => by
    have hr := fun value => run_statements he scope value rest
    rw [statements, Evaluation.statements, run_bind, run_statement he scope first]
    congr 1
    funext v
    split
    · rfl
    · exact hr v

end

variable (he : ∀ node scope, (eval node scope).run = eval' node scope)

include he

/-- A call asks for the number of its new scope and goes on in that scope. -/
theorem run_callFunction (params : List Node) (body : Node) (captured : ScopeId)
    (values : List Value) (range : Range) :
    (callFunction verbosity eval params body captured values range).run =
      Evaluation.callFunction verbosity eval' params body captured values range := by
  unfold callFunction Evaluation.callFunction
  split
  · rfl
  · simp only [run_bind, run_whenVerbose, run_orDefect, run_record, run_addChild,
      run_bindParams, run_block he]
    congr 1
    funext _
    congr 1
    funext scope
    congr 1
    funext _
    congr 1
    funext v
    cases v <;> rfl

/-- Arguments are carried out from left to right. -/
theorem run_arguments (scope : ScopeId) (nodes : List Node) :
    (arguments eval scope nodes).run = Evaluation.arguments eval' scope nodes := by
  induction nodes with
  | nil => rfl
  | cons first rest ih =>
    simp only [arguments, Evaluation.arguments, run_bind, he, ih, run_pure]

/-- **Expressions**, with the scripts of the expressions in them given. -/
theorem run_expressionWith (node : Node) (scope : ScopeId) :
    (expressionWith verbosity eval node scope).run =
      Evaluation.expressionWith verbosity eval' node scope := by
  cases node with
  | identifier range name =>
    simp only [expressionWith, Evaluation.expressionWith, run_bind, run_get?]
    congr 1
    funext v
    cases v <;> rfl
  | unary range op operand =>
    simp only [expressionWith, Evaluation.expressionWith, run_bind, he, run_unaryResult]
  | binary range op left right =>
    simp only [expressionWith, Evaluation.expressionWith, run_bind, he, run_binaryResult]
  | assignment range left right =>
    simp only [expressionWith, Evaluation.expressionWith]
    cases left.name? with
    | none => rfl
    | some name => simp only [run_bind, he, run_bindName, run_pure]
  | call range callee args =>
    simp only [expressionWith, Evaluation.expressionWith, run_bind, he]
    congr 1
    funext v
    cases v with
    | function r params body captured =>
      simp only [run_bind, run_arguments he, run_callFunction he]
    | _ => rfl
  | _ => rfl

/-- The statements of a program are carried out one after the other, each recorded behind it. -/
theorem run_topLevel (scope : ScopeId) (last : Value) (nodes : List Node) :
    (topLevel verbosity eval scope last nodes).run =
      Evaluation.topLevel verbosity eval' scope last nodes := by
  induction nodes generalizing last with
  | nil => rfl
  | cons first rest ih =>
    rw [topLevel, Evaluation.topLevel, run_bind, run_statement he]
    congr 1
    funext v
    split
    · rfl
    · simp only [run_bind, run_whenVerbose, run_textOf, run_record, ih]

/-- A program is carried out as its statements are. -/
theorem run_programWith (scope : ScopeId) (node : Node) :
    (programWith verbosity eval scope node).run =
      Evaluation.programWith verbosity eval' scope node := by
  unfold programWith Evaluation.programWith
  cases node.statements? with
  | none => rfl
  | some inner => exact run_topLevel he scope _ inner

end Rules

/-- **To carry out the script of an expression is to evaluate it.** -/
theorem run_expression (bottom : Failure) (verbosity limit : Nat) (node : Node) (scope : ScopeId) :
    (expression bottom verbosity limit node scope).run =
      Evaluation.expressionOver bottom verbosity limit node scope := by
  induction limit generalizing node scope with
  | zero => rfl
  | succ limit ih => exact run_expressionWith ih node scope

/-- To carry out the script of a program is to evaluate it, with any failure where no levels are
left. -/
theorem run_program (bottom : Failure) (verbosity limit : Nat) (scope : ScopeId) (node : Node) :
    (program bottom verbosity limit scope node).run =
      Evaluation.programWith verbosity (Evaluation.expressionOver bottom verbosity limit) scope
        node :=
  run_programWith (run_expression bottom verbosity limit) scope node

/-- **To carry out the script of a program is to evaluate it**, but for how exhaustion is
reported. -/
theorem program_eq_run (verbosity limit : Nat) (scope : ScopeId) (node : Node) (m : Machine) :
    Evaluation.program verbosity limit scope node m =
      (Evaluation.reported node.range
          ((program .exhausted verbosity limit scope node).run m).1,
        ((program .exhausted verbosity limit scope node).run m).2) := by
  rw [run_program, Evaluation.expressionOver_exhausted, Evaluation.program_eq]

end Script
end HangulScript
