import HangulScript.Evaluation.Machine
import HangulScript.Text.Order

/-!
# The rules of evaluation

A program evaluates its statements in order and has the value of the last one.  A
statement is an expression, a return or a branch; a block is statements again.

* Operands go from left to right, a callee before its arguments.  That it can be
  called is checked before the arguments are evaluated, their number after.  The target
  of an assignment is checked before its right side is evaluated.
* Assignment binds in the current scope, whatever outer scopes bind.
* The arms of a branch are evaluated in the current scope.  Only a call makes a scope,
  and makes it inside the scope that its function was made in.
* A return ends the statements around it with a marker.  The nearest call takes the
  value out of it; a function body that ends without one is an error, and so is a
  marker that reaches the program.

## Levels

Statements contain expressions, and expressions contain statements only through the
body of a called function, so a tree does not bound an evaluation.  The nesting limit
does.  `expression` goes by recursion on it, one level for every expression inside
another; the rules for statements and for one level of expressions are given the
evaluation of the expressions one level down, and recur on the tree alone.
-/

namespace HangulScript
namespace Evaluation

/-- How expressions are evaluated at some level: in a scope. -/
abbrev Evaluator := Node → ScopeId → Run Value

/-! ## Statements -/

mutual

/-- Evaluates a statement. -/
def statement (verbosity : Nat) (eval : Evaluator) (scope : ScopeId) : Node → Run Value
  | .expressionStatement _ expression => eval expression scope
  | .returnStatement _ expression => do return .returned (← eval expression scope)
  | .branch range predicate consequence alternative => do
    match ← eval predicate scope with
    | .boolean _ decision =>
      Run.whenVerbose verbosity 3 (Run.record (.branch range (Value.truthText decision)))
      if decision then block verbosity eval scope consequence
      else if alternative.isAbsent then return .empty range
      else block verbosity eval scope alternative
    | other => Run.error (.badPredicate other.typeName) predicate.range
  | node => Run.defect (.notAStatement node.kindName)

/-- Evaluates a block, or a program that stands for one. -/
def block (verbosity : Nat) (eval : Evaluator) (scope : ScopeId) : Node → Run Value
  | .program range inner => statements verbosity eval scope (.empty range) inner
  | .block range inner => statements verbosity eval scope (.empty range) inner
  | _ => Run.defect .noStatements

/-- Evaluates statements up to the first marker.  The value is that of the last
statement, and a given one if there is none. -/
def statements (verbosity : Nat) (eval : Evaluator) (scope : ScopeId) (last : Value) :
    List Node → Run Value
  | [] => return last
  | first :: rest => do
    let value ← statement verbosity eval scope first
    if value.isReturned then return value
    else statements verbosity eval scope value rest

end

/-! ## Operators -/

/-- The value of an operator in front of an operand. -/
def unaryResult (range : Range) (op : String) (operand : Value) : Run Value :=
  match operand with
  | .number _ x =>
    if op = "+" then return .number range x
    else if op = "-" then return .number range x.neg
    else Run.error (.badUnary op operand.typeName) range
  | .boolean _ b =>
    if op = "!" then return .boolean range !b
    else Run.error (.badUnary op operand.typeName) range
  | _ => Run.error (.badUnary op operand.typeName) range

/-- The value of an operator between two operands. -/
def binaryResult (range : Range) (op : String) (left right : Value) : Run Value :=
  let refused := Run.error (.badBinary op left.typeName right.typeName) range
  match left, right with
  | .number _ x, .number _ y =>
    if op ∈ Operator.arithmeticOperators then do
      return .number range (← Run.applied (Operator.arithmetic op x y))
    else if op ∈ Operator.comparisons then do
      return .boolean range (← Run.applied (Operator.holds op (x.compare? y)))
    else refused
  | .boolean _ a, .boolean _ b =>
    if op ∈ Operator.comparisons then do
      return .boolean range (← Run.applied (Operator.holds op (some (Operator.truthOrder a b))))
    else refused
  | .string _ s, .string _ t =>
    if op ∈ Operator.comparisons then do
      let order := Text.order s.toList t.toList
      return .boolean range (← Run.applied (Operator.holds op (some order)))
    else refused
  | _, _ => refused

/-! ## Calls -/

/-- Binds a name in a scope and records it. -/
def bindName (verbosity : Nat) (scope : ScopeId) (name : String) (value : Value) : Run Unit := do
  Run.bindIn scope name value
  Run.whenVerbose verbosity 2 do
    let text ← Run.textOf value
    Run.record (.binding name text)

/-- Binds the parameters of a function to its arguments, one after the other. -/
def bindParams (verbosity : Nat) (scope : ScopeId) : List Node → List Value → Run Unit
  | param :: params, value :: values => do
    let name ← Run.orDefect .noName param.name?
    bindName verbosity scope name value
    bindParams verbosity scope params values
  | _, _ => return ()

/-- Calls a function: its parameters, its body and the scope it was made in, with
values for the parameters, from a place in the tree. -/
def callFunction (verbosity : Nat) (eval : Evaluator) (params : List Node) (body : Node)
    (captured : ScopeId) (values : List Value) (range : Range) : Run Value := do
  if values.length ≠ params.length then Run.error (.arity params.length values.length) range
  else
    Run.whenVerbose verbosity 1 do
      let names ← Run.orDefect .noName (Value.paramNames? params)
      Run.record (.call (Value.signature names) values.length range)
    let scope ← Run.addChild captured
    bindParams verbosity scope params values
    match ← block verbosity eval scope body with
    | .returned value => return value
    | _ => Run.error .missingReturn body.range

/-- Evaluates arguments from left to right. -/
def arguments (eval : Evaluator) (scope : ScopeId) : List Node → Run (List Value)
  | [] => return []
  | first :: rest => do
    let value ← eval first scope
    let values ← arguments eval scope rest
    return value :: values

/-! ## Expressions -/

/-- Evaluates an expression, given how the expressions inside it are evaluated. -/
def expressionWith (verbosity : Nat) (eval : Evaluator) (node : Node) (scope : ScopeId) :
    Run Value :=
  match node with
  | .number range value => return .number range value
  | .boolean range value => return .boolean range value
  | .string range value => return .string range value
  | .identifier range name => do
    match ← Run.get? scope name with
    | some value => return value
    | none => Run.error (.unboundIdentifier name) range
  | .unary range op operand => do
    let value ← eval operand scope
    unaryResult range op value
  | .binary range op left right => do
    let x ← eval left scope
    let y ← eval right scope
    binaryResult range op x y
  | .assignment range left right =>
    match left.name? with
    | none => Run.error .badAssignmentTarget range
    | some name => do
      let value ← eval right scope
      bindName verbosity scope name value
      return value
  | .function range params body => return .function range params body scope
  | .call range callee args => do
    match ← eval callee scope with
    | .function _ params body captured =>
      let values ← arguments eval scope args
      callFunction verbosity eval params body captured values range
    | other => Run.error (.notCallable other.typeName) callee.range
  | node => Run.defect (.notAnExpression node.kindName)

/-- Evaluates an expression with a number of levels left. -/
def expression (verbosity : Nat) : (limit : Nat) → Evaluator
  | 0 => fun _ _ => Run.fail .exhausted
  | limit + 1 => expressionWith verbosity (expression verbosity limit)

/-! ## Programs -/

/-- Evaluates the statements of a program. -/
def topLevel (verbosity : Nat) (eval : Evaluator) (scope : ScopeId) (last : Value) :
    List Node → Run Value
  | [] => return last
  | first :: rest => do
    let value ← statement verbosity eval scope first
    if value.isReturned then Run.error .topLevelReturn first.range
    else
      Run.whenVerbose verbosity 1 do
        let text ← Run.textOf value
        Run.record (.statement first.range text)
      topLevel verbosity eval scope value rest

/-- Evaluates a program, or a block that stands for one, and leaves exhaustion as it
is. -/
def programWith (verbosity : Nat) (eval : Evaluator) (scope : ScopeId) (node : Node) :
    Run Value :=
  match node.statements? with
  | some inner => topLevel verbosity eval scope (.empty node.range) inner
  | none => Run.defect .noStatements

/-- Evaluates a program.  Reaching the limit is an error of the whole program. -/
def program (verbosity limit : Nat) (scope : ScopeId) (node : Node) : Run Value := fun m =>
  match programWith verbosity (expression verbosity limit) scope node m with
  | (.error .exhausted, m) => (.error (.error ⟨.callStackExhausted, node.range⟩), m)
  | outcome => outcome

/-- How deeply expressions may be nested, those in called functions included. -/
def nestingLimit : Nat := 1000

end Evaluation
end HangulScript
