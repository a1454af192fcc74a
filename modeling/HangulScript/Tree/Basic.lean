import HangulScript.Number.Double
import HangulScript.Source.Range

/-!
# Program trees

A program is a tree of nodes: the program itself, three kinds of statements, the
block that function bodies and branches share, and nine kinds of expressions.  Every
node carries the range of the text it stands for.

## Why one type

A tree need not come from a text.  It can be read from a file, and then anything may
stand anywhere: an expression where a statement belongs, a number for a function
body, nothing at all for an operand.  Running such a tree has a defined outcome, so
such trees are values like all others, and there is one type of nodes, with `absent`
for the place that holds nothing.  The trees that reading a text can give are singled
out by a predicate on this type, not by a type of their own.

For the same reason operators are kept as text.  An operator the language does not
have is refused when it is applied.
-/

namespace HangulScript

/-- A node of a program tree, or the absence of one. -/
inductive Node where
  | absent
  | program (range : Range) (statements : List Node)
  | block (range : Range) (statements : List Node)
  | expressionStatement (range : Range) (expression : Node)
  | returnStatement (range : Range) (expression : Node)
  | branch (range : Range) (predicate consequence alternative : Node)
  | number (range : Range) (value : Double)
  | boolean (range : Range) (value : Bool)
  | string (range : Range) (value : String)
  | identifier (range : Range) (name : String)
  | unary (range : Range) (op : String) (operand : Node)
  | binary (range : Range) (op : String) (left right : Node)
  | assignment (range : Range) (left right : Node)
  | function (range : Range) (params : List Node) (body : Node)
  | call (range : Range) (callee : Node) (args : List Node)
  deriving Inhabited

namespace Node

/-- The range of a node.  An absent node covers nothing; it is given the origin, and
no rule of the language ever asks for it. -/
def range : Node → Range
  | absent => Range.point Position.origin
  | program r _ | block r _ | expressionStatement r _ | returnStatement r _ | branch r _ _ _
  | number r _ | boolean r _ | string r _ | identifier r _ | unary r _ _ | binary r _ _ _
  | assignment r _ _ | function r _ _ | call r _ _ => r

/-- The same node over another range. -/
def withRange (r : Range) : Node → Node
  | absent => absent
  | program _ statements => program r statements
  | block _ statements => block r statements
  | expressionStatement _ e => expressionStatement r e
  | returnStatement _ e => returnStatement r e
  | branch _ p c a => branch r p c a
  | number _ v => number r v
  | boolean _ v => boolean r v
  | string _ v => string r v
  | identifier _ n => identifier r n
  | unary _ op e => unary r op e
  | binary _ op a b => binary r op a b
  | assignment _ a b => assignment r a b
  | function _ ps b => function r ps b
  | call _ f args => call r f args

/-- The name of a node's kind, as tree files and messages give it. -/
def kindName : Node → String
  | absent => "NoneType"
  | program .. => "Program"
  | block .. => "Block"
  | expressionStatement .. => "ExpressionStatement"
  | returnStatement .. => "Return"
  | branch .. => "Branch"
  | number .. => "NumberLiteral"
  | boolean .. => "BooleanLiteral"
  | string .. => "StringLiteral"
  | identifier .. => "Identifier"
  | unary .. => "Prefix"
  | binary .. => "Infix"
  | assignment .. => "Assignment"
  | function .. => "Function"
  | call .. => "Call"

/-- Whether there is no node. -/
def isAbsent : Node → Bool
  | absent => true
  | _ => false

/-- The statements a node holds, if it is one of the two kinds that hold some. -/
def statements? : Node → Option (List Node)
  | program _ statements | block _ statements => some statements
  | _ => none

/-- The name an identifier node holds. -/
def name? : Node → Option String
  | identifier _ name => some name
  | _ => none

/-! ## Equality

Two nodes are equal when they agree in every field and every range.  A node holds
lists of nodes, so equality of nodes and of lists of nodes are decided together. -/

mutual

/-- Whether two nodes are equal. -/
def beq : Node → Node → Bool
  | absent, absent => true
  | program r ss, program r' ss' => r == r' && beqAll ss ss'
  | block r ss, block r' ss' => r == r' && beqAll ss ss'
  | expressionStatement r e, expressionStatement r' e' => r == r' && beq e e'
  | returnStatement r e, returnStatement r' e' => r == r' && beq e e'
  | branch r p c a, branch r' p' c' a' => r == r' && beq p p' && beq c c' && beq a a'
  | number r v, number r' v' => r == r' && v == v'
  | boolean r v, boolean r' v' => r == r' && v == v'
  | string r v, string r' v' => r == r' && v == v'
  | identifier r n, identifier r' n' => r == r' && n == n'
  | unary r op e, unary r' op' e' => r == r' && op == op' && beq e e'
  | binary r op a b, binary r' op' a' b' => r == r' && op == op' && beq a a' && beq b b'
  | assignment r a b, assignment r' a' b' => r == r' && beq a a' && beq b b'
  | function r ps b, function r' ps' b' => r == r' && beqAll ps ps' && beq b b'
  | call r f as, call r' f' as' => r == r' && beq f f' && beqAll as as'
  | _, _ => false

/-- Whether two lists of nodes are equal. -/
def beqAll : List Node → List Node → Bool
  | [], [] => true
  | n :: ns, n' :: ns' => beq n n' && beqAll ns ns'
  | _, _ => false

end

mutual

theorem beq_eq_true_iff : ∀ m n : Node, beq m n = true ↔ m = n
  | absent, n => by cases n <;> simp [beq]
  | program _ ss, n => by cases n <;> simp [beq, beqAll_eq_true_iff ss]
  | block _ ss, n => by cases n <;> simp [beq, beqAll_eq_true_iff ss]
  | expressionStatement _ e, n => by cases n <;> simp [beq, beq_eq_true_iff e]
  | returnStatement _ e, n => by cases n <;> simp [beq, beq_eq_true_iff e]
  | branch _ p c a, n => by
    cases n <;>
      simp [beq, beq_eq_true_iff p, beq_eq_true_iff c, beq_eq_true_iff a, and_assoc]
  | number _ _, n => by cases n <;> simp [beq]
  | boolean _ _, n => by cases n <;> simp [beq]
  | string _ _, n => by cases n <;> simp [beq]
  | identifier _ _, n => by cases n <;> simp [beq]
  | unary _ _ e, n => by cases n <;> simp [beq, beq_eq_true_iff e, and_assoc]
  | binary _ _ a b, n => by
    cases n <;> simp [beq, beq_eq_true_iff a, beq_eq_true_iff b, and_assoc]
  | assignment _ a b, n => by
    cases n <;> simp [beq, beq_eq_true_iff a, beq_eq_true_iff b, and_assoc]
  | function _ ps b, n => by
    cases n <;> simp [beq, beqAll_eq_true_iff ps, beq_eq_true_iff b, and_assoc]
  | call _ f as, n => by
    cases n <;> simp [beq, beq_eq_true_iff f, beqAll_eq_true_iff as, and_assoc]

theorem beqAll_eq_true_iff : ∀ ms ns : List Node, beqAll ms ns = true ↔ ms = ns
  | [], ns => by cases ns <;> simp [beqAll]
  | m :: ms, ns => by
    cases ns <;> simp [beqAll, beq_eq_true_iff m, beqAll_eq_true_iff ms]

end

instance : DecidableEq Node := fun m n => decidable_of_iff _ (beq_eq_true_iff m n)

end Node
end HangulScript
