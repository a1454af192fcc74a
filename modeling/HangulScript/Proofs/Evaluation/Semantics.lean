import HangulScript.Evaluation.Operator
import HangulScript.Evaluation.Store
import HangulScript.Diagnosis.Basic
import HangulScript.Text.Order

/-!
# The natural semantics

What the language means, as rules.  A task in a scope of a store comes to an outcome and
leaves a store.  There is no limit, nothing is recorded, and there are no markers: a return is
an outcome of its own, an *abrupt completion*.  It passes through the statements and blocks
around it by the rules for these, ends at the call that is nearest, and at a program that no
call is in between is an error.

The rules are syntax directed.  They fix the order: operands from left to right, what is
called before its arguments, the target of an assignment before its right side; that a value
can be called before the arguments, their number after.  A failure is an outcome too, and the
store it leaves is the one it had come to.

There is no rule for a tree that is not shaped, and none for a task that does not end.
-/

namespace HangulScript

/-- A store with names bound to values in a scope, one after the other. -/
def Store.bindAll (scope : ScopeId) : List (String × Value) → Store → Store
  | [], s => s
  | (name, value) :: rest, s => bindAll scope rest (s.bind scope name value)

namespace Evaluation

/-- What a task comes to. -/
inductive Outcome where
  /-- A value. -/
  | value (v : Value)
  /-- The values of arguments. -/
  | values (vs : List Value)
  /-- An abrupt completion: a return with a value. -/
  | returns (v : Value)
  /-- An error. -/
  | raises (e : Error)

/-- What there is to be done. -/
inductive Task where
  | expression (node : Node)
  | arguments (nodes : List Node)
  /-- A function, given by its parameters, its body and the scope it was made in, is applied to
  values at a range. -/
  | application (params : List Node) (body : Node) (captured : ScopeId) (values : List Value)
      (range : Range)
  | statement (node : Node)
  | block (node : Node)
  /-- The statements that are left of a block, behind one that had this value. -/
  | statements (last : Value) (nodes : List Node)
  | program (node : Node)
  /-- The statements that are left of a program, behind one that had this value. -/
  | topLevel (last : Value) (nodes : List Node)

/-! ## Operators -/

/-- What an operator in front of a value means. -/
inductive FrontMeans (range : Range) : String → Value → Value → Prop
  | plus {r : Range} {x : Double} : FrontMeans range "+" (.number r x) (.number range x)
  | minus {r : Range} {x : Double} : FrontMeans range "-" (.number r x) (.number range x.neg)
  | negation {r : Range} {b : Bool} : FrontMeans range "!" (.boolean r b) (.boolean range !b)

/-- Two values that can be compared, and how they compare. -/
inductive Compare : Value → Value → Option Ordering → Prop
  | numbers {r r' : Range} {x y : Double} : Compare (.number r x) (.number r' y) (x.compare? y)
  | booleans {r r' : Range} {a b : Bool} :
      Compare (.boolean r a) (.boolean r' b) (some (Operator.truthOrder a b))
  | strings {r r' : Range} {a b : String} :
      Compare (.string r a) (.string r' b) (some (Text.order a.toList b.toList))

/-- What an operator between two values means. -/
inductive InfixMeans (range : Range) : String → Value → Value → Value → Prop
  | arithmetic {op : String} {r r' : Range} {x y z : Double} : Operator.arithmetic op x y = .ok z →
      InfixMeans range op (.number r x) (.number r' y) (.number range z)
  | comparison {op : String} {left right : Value} {order : Option Ordering} {b : Bool} :
      Compare left right order → Operator.holds op order = .ok b →
        InfixMeans range op left right (.boolean range b)

/-! ## Rules -/

/-- In a scope of a store, a task comes to an outcome and leaves a store. -/
inductive Evaluates : Store → ScopeId → Task → Outcome → Store → Prop
  -- Literals and names
  | number {s : Store} {scope : ScopeId} {r : Range} {x : Double} :
      Evaluates s scope (.expression (.number r x)) (.value (.number r x)) s
  | boolean {s : Store} {scope : ScopeId} {r : Range} {b : Bool} :
      Evaluates s scope (.expression (.boolean r b)) (.value (.boolean r b)) s
  | string {s : Store} {scope : ScopeId} {r : Range} {text : String} :
      Evaluates s scope (.expression (.string r text)) (.value (.string r text)) s
  | function {s : Store} {scope : ScopeId} {r : Range} {params : List Node} {body : Node} :
      Evaluates s scope (.expression (.function r params body))
        (.value (.function r params body scope)) s
  | name {s : Store} {scope : ScopeId} {r : Range} {name : String} {v : Value} :
      s.get? scope name = some v →
      Evaluates s scope (.expression (.identifier r name)) (.value v) s
  | unbound {s : Store} {scope : ScopeId} {r : Range} {name : String} :
      s.get? scope name = none →
      Evaluates s scope (.expression (.identifier r name)) (.raises ⟨.unboundIdentifier name, r⟩) s
  -- Operators
  | unary {s s₁ : Store} {scope : ScopeId} {r : Range} {op : String} {e : Node} {v w : Value} :
      Evaluates s scope (.expression e) (.value v) s₁ → FrontMeans r op v w →
      Evaluates s scope (.expression (.unary r op e)) (.value w) s₁
  | unaryRefused {s s₁ : Store} {scope : ScopeId} {r : Range} {op : String} {e : Node}
      {v : Value} :
      Evaluates s scope (.expression e) (.value v) s₁ → (∀ w, ¬ FrontMeans r op v w) →
      Evaluates s scope (.expression (.unary r op e)) (.raises ⟨.badUnary op v.typeName, r⟩) s₁
  | unaryRaises {s s₁ : Store} {scope : ScopeId} {r : Range} {op : String} {e : Node}
      {err : Error} :
      Evaluates s scope (.expression e) (.raises err) s₁ →
      Evaluates s scope (.expression (.unary r op e)) (.raises err) s₁
  | binary {s s₁ s₂ : Store} {scope : ScopeId} {r : Range} {op : String} {a b : Node}
      {v v' w : Value} :
      Evaluates s scope (.expression a) (.value v) s₁ →
      Evaluates s₁ scope (.expression b) (.value v') s₂ → InfixMeans r op v v' w →
      Evaluates s scope (.expression (.binary r op a b)) (.value w) s₂
  | binaryRefused {s s₁ s₂ : Store} {scope : ScopeId} {r : Range} {op : String} {a b : Node}
      {v v' : Value} :
      Evaluates s scope (.expression a) (.value v) s₁ →
      Evaluates s₁ scope (.expression b) (.value v') s₂ → (∀ w, ¬ InfixMeans r op v v' w) →
      Evaluates s scope (.expression (.binary r op a b))
        (.raises ⟨.badBinary op v.typeName v'.typeName, r⟩) s₂
  | leftRaises {s s₁ : Store} {scope : ScopeId} {r : Range} {op : String} {a b : Node}
      {err : Error} :
      Evaluates s scope (.expression a) (.raises err) s₁ →
      Evaluates s scope (.expression (.binary r op a b)) (.raises err) s₁
  | rightRaises {s s₁ s₂ : Store} {scope : ScopeId} {r : Range} {op : String} {a b : Node}
      {v : Value} {err : Error} :
      Evaluates s scope (.expression a) (.value v) s₁ →
      Evaluates s₁ scope (.expression b) (.raises err) s₂ →
      Evaluates s scope (.expression (.binary r op a b)) (.raises err) s₂
  -- Assignments: the target is looked at first
  | assignment {s s₁ : Store} {scope : ScopeId} {r r' : Range} {name : String} {b : Node}
      {v : Value} :
      Evaluates s scope (.expression b) (.value v) s₁ →
      Evaluates s scope (.expression (.assignment r (.identifier r' name) b)) (.value v)
        (s₁.bind scope name v)
  | badTarget {s : Store} {scope : ScopeId} {r : Range} {a b : Node} : a.name? = none →
      Evaluates s scope (.expression (.assignment r a b)) (.raises ⟨.badAssignmentTarget, r⟩) s
  | assignedRaises {s s₁ : Store} {scope : ScopeId} {r r' : Range} {name : String} {b : Node}
      {err : Error} :
      Evaluates s scope (.expression b) (.raises err) s₁ →
      Evaluates s scope (.expression (.assignment r (.identifier r' name) b)) (.raises err) s₁
  -- Calls: what is called, that it can be, the arguments, and then the application
  | call {s s₁ s₂ s₃ : Store} {scope captured : ScopeId} {r r' : Range} {f body : Node}
      {args params : List Node} {vs : List Value} {o : Outcome} :
      Evaluates s scope (.expression f) (.value (.function r' params body captured)) s₁ →
      Evaluates s₁ scope (.arguments args) (.values vs) s₂ →
      Evaluates s₂ scope (.application params body captured vs r) o s₃ →
      Evaluates s scope (.expression (.call r f args)) o s₃
  | notCallable {s s₁ : Store} {scope : ScopeId} {r : Range} {f : Node} {args : List Node}
      {v : Value} :
      Evaluates s scope (.expression f) (.value v) s₁ →
      (∀ r' params body captured, v ≠ .function r' params body captured) →
      Evaluates s scope (.expression (.call r f args)) (.raises ⟨.notCallable v.typeName, f.range⟩)
        s₁
  | calleeRaises {s s₁ : Store} {scope : ScopeId} {r : Range} {f : Node} {args : List Node}
      {err : Error} :
      Evaluates s scope (.expression f) (.raises err) s₁ →
      Evaluates s scope (.expression (.call r f args)) (.raises err) s₁
  | argumentsRaise {s s₁ s₂ : Store} {scope captured : ScopeId} {r r' : Range} {f body : Node}
      {args params : List Node} {err : Error} :
      Evaluates s scope (.expression f) (.value (.function r' params body captured)) s₁ →
      Evaluates s₁ scope (.arguments args) (.raises err) s₂ →
      Evaluates s scope (.expression (.call r f args)) (.raises err) s₂
  | noArguments {s : Store} {scope : ScopeId} : Evaluates s scope (.arguments []) (.values []) s
  | argument {s s₁ s₂ : Store} {scope : ScopeId} {a : Node} {rest : List Node} {v : Value}
      {vs : List Value} :
      Evaluates s scope (.expression a) (.value v) s₁ →
      Evaluates s₁ scope (.arguments rest) (.values vs) s₂ →
      Evaluates s scope (.arguments (a :: rest)) (.values (v :: vs)) s₂
  | argumentRaises {s s₁ : Store} {scope : ScopeId} {a : Node} {rest : List Node} {err : Error} :
      Evaluates s scope (.expression a) (.raises err) s₁ →
      Evaluates s scope (.arguments (a :: rest)) (.raises err) s₁
  | laterRaises {s s₁ s₂ : Store} {scope : ScopeId} {a : Node} {rest : List Node} {v : Value}
      {err : Error} :
      Evaluates s scope (.expression a) (.value v) s₁ →
      Evaluates s₁ scope (.arguments rest) (.raises err) s₂ →
      Evaluates s scope (.arguments (a :: rest)) (.raises err) s₂
  -- Applications: the body in a fresh scope inside the captured one, up to a return
  | arity {s : Store} {scope captured : ScopeId} {r : Range} {params : List Node} {body : Node}
      {vs : List Value} : vs.length ≠ params.length →
      Evaluates s scope (.application params body captured vs r)
        (.raises ⟨.arity params.length vs.length, r⟩) s
  | returned {s s₁ : Store} {scope captured : ScopeId} {r : Range} {params : List Node}
      {body : Node} {vs : List Value} {names : List String} {v : Value} :
      vs.length = params.length → Value.paramNames? params = some names →
      Evaluates ((s.addChild captured).1.bindAll (s.addChild captured).2 (names.zip vs))
        (s.addChild captured).2 (.block body) (.returns v) s₁ →
      Evaluates s scope (.application params body captured vs r) (.value v) s₁
  | missingReturn {s s₁ : Store} {scope captured : ScopeId} {r : Range} {params : List Node}
      {body : Node} {vs : List Value} {names : List String} {v : Value} :
      vs.length = params.length → Value.paramNames? params = some names →
      Evaluates ((s.addChild captured).1.bindAll (s.addChild captured).2 (names.zip vs))
        (s.addChild captured).2 (.block body) (.value v) s₁ →
      Evaluates s scope (.application params body captured vs r)
        (.raises ⟨.missingReturn, body.range⟩) s₁
  | bodyRaises {s s₁ : Store} {scope captured : ScopeId} {r : Range} {params : List Node}
      {body : Node} {vs : List Value} {names : List String} {err : Error} :
      vs.length = params.length → Value.paramNames? params = some names →
      Evaluates ((s.addChild captured).1.bindAll (s.addChild captured).2 (names.zip vs))
        (s.addChild captured).2 (.block body) (.raises err) s₁ →
      Evaluates s scope (.application params body captured vs r) (.raises err) s₁
  -- Statements
  | expressionStatement {s s₁ : Store} {scope : ScopeId} {r : Range} {e : Node} {o : Outcome} :
      Evaluates s scope (.expression e) o s₁ →
      Evaluates s scope (.statement (.expressionStatement r e)) o s₁
  | returnStatement {s s₁ : Store} {scope : ScopeId} {r : Range} {e : Node} {v : Value} :
      Evaluates s scope (.expression e) (.value v) s₁ →
      Evaluates s scope (.statement (.returnStatement r e)) (.returns v) s₁
  | returnRaises {s s₁ : Store} {scope : ScopeId} {r : Range} {e : Node} {err : Error} :
      Evaluates s scope (.expression e) (.raises err) s₁ →
      Evaluates s scope (.statement (.returnStatement r e)) (.raises err) s₁
  | branchTrue {s s₁ s₂ : Store} {scope : ScopeId} {r r' : Range} {p c a : Node} {o : Outcome} :
      Evaluates s scope (.expression p) (.value (.boolean r' true)) s₁ →
      Evaluates s₁ scope (.block c) o s₂ → Evaluates s scope (.statement (.branch r p c a)) o s₂
  | branchFalse {s s₁ s₂ : Store} {scope : ScopeId} {r r' : Range} {p c a : Node} {o : Outcome} :
      Evaluates s scope (.expression p) (.value (.boolean r' false)) s₁ → a.isAbsent = false →
      Evaluates s₁ scope (.block a) o s₂ → Evaluates s scope (.statement (.branch r p c a)) o s₂
  | branchNeither {s s₁ : Store} {scope : ScopeId} {r r' : Range} {p c a : Node} :
      Evaluates s scope (.expression p) (.value (.boolean r' false)) s₁ → a.isAbsent = true →
      Evaluates s scope (.statement (.branch r p c a)) (.value (.empty r)) s₁
  | badPredicate {s s₁ : Store} {scope : ScopeId} {r : Range} {p c a : Node} {v : Value} :
      Evaluates s scope (.expression p) (.value v) s₁ → (∀ r' b, v ≠ .boolean r' b) →
      Evaluates s scope (.statement (.branch r p c a))
        (.raises ⟨.badPredicate v.typeName, p.range⟩) s₁
  | predicateRaises {s s₁ : Store} {scope : ScopeId} {r : Range} {p c a : Node} {err : Error} :
      Evaluates s scope (.expression p) (.raises err) s₁ →
      Evaluates s scope (.statement (.branch r p c a)) (.raises err) s₁
  -- Blocks: statements up to the first that completes abruptly
  | block {s s₁ : Store} {scope : ScopeId} {r : Range} {inner : List Node} {o : Outcome} :
      Evaluates s scope (.statements (.empty r) inner) o s₁ →
      Evaluates s scope (.block (.block r inner)) o s₁
  | noStatements {s : Store} {scope : ScopeId} {last : Value} :
      Evaluates s scope (.statements last []) (.value last) s
  | statement {s s₁ s₂ : Store} {scope : ScopeId} {last v : Value} {first : Node}
      {rest : List Node} {o : Outcome} :
      Evaluates s scope (.statement first) (.value v) s₁ →
      Evaluates s₁ scope (.statements v rest) o s₂ →
      Evaluates s scope (.statements last (first :: rest)) o s₂
  | statementReturns {s s₁ : Store} {scope : ScopeId} {last v : Value} {first : Node}
      {rest : List Node} :
      Evaluates s scope (.statement first) (.returns v) s₁ →
      Evaluates s scope (.statements last (first :: rest)) (.returns v) s₁
  | statementRaises {s s₁ : Store} {scope : ScopeId} {last : Value} {first : Node}
      {rest : List Node} {err : Error} :
      Evaluates s scope (.statement first) (.raises err) s₁ →
      Evaluates s scope (.statements last (first :: rest)) (.raises err) s₁
  -- Programs: a return is an error at the statement it comes out of
  | program {s s₁ : Store} {scope : ScopeId} {r : Range} {inner : List Node} {o : Outcome} :
      Evaluates s scope (.topLevel (.empty r) inner) o s₁ →
      Evaluates s scope (.program (.program r inner)) o s₁
  | topLevelDone {s : Store} {scope : ScopeId} {last : Value} :
      Evaluates s scope (.topLevel last []) (.value last) s
  | topLevelStatement {s s₁ s₂ : Store} {scope : ScopeId} {last v : Value} {first : Node}
      {rest : List Node} {o : Outcome} :
      Evaluates s scope (.statement first) (.value v) s₁ →
      Evaluates s₁ scope (.topLevel v rest) o s₂ →
      Evaluates s scope (.topLevel last (first :: rest)) o s₂
  | topLevelReturn {s s₁ : Store} {scope : ScopeId} {last v : Value} {first : Node}
      {rest : List Node} :
      Evaluates s scope (.statement first) (.returns v) s₁ →
      Evaluates s scope (.topLevel last (first :: rest)) (.raises ⟨.topLevelReturn, first.range⟩) s₁
  | topLevelRaises {s s₁ : Store} {scope : ScopeId} {last : Value} {first : Node}
      {rest : List Node} {err : Error} :
      Evaluates s scope (.statement first) (.raises err) s₁ →
      Evaluates s scope (.topLevel last (first :: rest)) (.raises err) s₁

/-- What is raised is an error of evaluation. -/
theorem Evaluates.family_eq {s s' : Store} {scope : ScopeId} {task : Task} {e : Error}
    (h : Evaluates s scope task (.raises e) s') : e.cause.family = .evaluation := by
  generalize ho : Outcome.raises e = o at h
  induction h with
  | unbound | unaryRefused | binaryRefused | badTarget | notCallable | arity | missingReturn
  | badPredicate | topLevelReturn =>
    cases ho
    rfl
  -- Errors of parts are passed on, and so is what a part comes to as the last one.
  | unaryRaises _ ih | leftRaises _ ih | assignedRaises _ ih | calleeRaises _ ih
  | argumentRaises _ ih | bodyRaises _ _ _ ih | returnRaises _ ih | predicateRaises _ ih
  | statementRaises _ ih | topLevelRaises _ ih | rightRaises _ _ _ ih | argumentsRaise _ _ _ ih
  | laterRaises _ _ _ ih | call _ _ _ _ _ ih | expressionStatement _ ih | branchTrue _ _ _ ih
  | branchFalse _ _ _ _ ih | block _ ih | statement _ _ _ ih | program _ ih
  | topLevelStatement _ _ _ ih => exact ih ho
  | _ => cases ho

end Evaluation
end HangulScript
