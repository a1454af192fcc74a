import HangulScript.Tree.Basic

/-!
# Parts of a tree

The parts of a tree are the tree itself and the parts of its children.  The parameters of a
function are among its children, and so is the place where a branch has no alternative: a
part can be absent.

An expression or a statement can stand alone: as a statement, it is a program.
-/

namespace HangulScript
namespace Node

/-- The nodes that a node holds. -/
def children : Node → List Node
  | .program _ inner | .block _ inner => inner
  | .expressionStatement _ e | .returnStatement _ e | .unary _ _ e => [e]
  | .branch _ p c a => [p, c, a]
  | .binary _ _ a b | .assignment _ a b => [a, b]
  | .function _ ps b => ps ++ [b]
  | .call _ f as => f :: as
  | .absent | .number .. | .boolean .. | .string .. | .identifier .. => []

/-- A node stands somewhere in a tree. -/
inductive IsPartOf (n : Node) : Node → Prop
  | whole : IsPartOf n n
  | inside {m tree : Node} : m ∈ tree.children → IsPartOf n m → IsPartOf n tree

theorem isPartOf_iff {n tree : Node} :
    n.IsPartOf tree ↔ n = tree ∨ ∃ m ∈ tree.children, n.IsPartOf m := by
  constructor
  · intro h
    cases h with
    | whole => exact Or.inl rfl
    | inside hm h => exact Or.inr ⟨_, hm, h⟩
  · rintro (rfl | ⟨m, hm, h⟩)
    · exact .whole
    · exact .inside hm h

/-- What a part holds is a part. -/
theorem IsPartOf.child {c n tree : Node} (h : n.IsPartOf tree) (hc : c ∈ n.children) :
    c.IsPartOf tree := by
  induction h with
  | whole => exact .inside hc .whole
  | inside hm _ ih => exact .inside hm ih

@[simp] theorem children_withRange (r : Range) (n : Node) :
    (n.withRange r).children = n.children := by
  cases n <;> rfl

/-! ## Standing alone -/

/-- Whether a node is of one of the kinds of expressions. -/
def isExpressionNode : Node → Bool
  | .number .. | .boolean .. | .string .. | .identifier .. | .unary .. | .binary ..
  | .assignment .. | .function .. | .call .. => true
  | _ => false

/-- Whether a node is of one of the kinds of statements. -/
def isStatementNode : Node → Bool
  | .expressionStatement .. | .returnStatement .. | .branch .. => true
  | _ => false

/-- Whether a node is an expression or a statement. -/
def standsAlone (n : Node) : Bool := n.isExpressionNode || n.isStatementNode

/-- A statement as it is, an expression as the statement that it is. -/
def asStatement (n : Node) : Node :=
  if n.isExpressionNode then .expressionStatement n.range n else n

theorem range_asStatement (n : Node) : n.asStatement.range = n.range := by
  unfold asStatement
  split <;> rfl

theorem asStatement_of_isExpressionNode {n : Node} (h : n.isExpressionNode = true) :
    n.asStatement = .expressionStatement n.range n :=
  if_pos h

theorem isAbsent_of_isExpressionNode {n : Node} (h : n.isExpressionNode = true) :
    n.isAbsent = false := by
  cases n <;> first | rfl | cases h

theorem asStatement_of_isStatementNode {n : Node} (h : n.isStatementNode = true) :
    n.asStatement = n := by
  cases n <;> first | rfl | cases h

@[simp] theorem isExpressionNode_withRange (r : Range) (n : Node) :
    (n.withRange r).isExpressionNode = n.isExpressionNode := by
  cases n <;> rfl

end Node
end HangulScript
