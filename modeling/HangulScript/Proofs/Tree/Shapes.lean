import HangulScript.Proofs.Tree.Parts

/-!
# Shapes of trees

There is one type of nodes, and what may stand where is a predicate on it.  A *role* is a
place for a node: that of a program, of a block, of a statement, of an expression or of a
parameter.  A tree fits a role if it is of a kind that serves there and its own parts fit
theirs.  Operators are texts and may be any, numbers and strings as well.

Evaluating a node in a role evaluates its parts in their roles.  `Part` says which these are,
and everything that is proved about evaluating trees of a sort asks no more of the sort than
that it is closed under it.
-/

namespace HangulScript
namespace Node

/-- The places for a node in a tree. -/
inductive Role where
  | program
  | block
  | statement
  | expression
  | parameter
  deriving DecidableEq

/-- Whether a node is of a kind that evaluation takes in a role.  Programs and blocks can
stand for one another. -/
def serves (n : Node) : Role → Bool
  | .program | .block => n.statements?.isSome
  | .statement => n.isStatementNode
  | .expression => n.isExpressionNode
  | .parameter => n.name?.isSome

/-- Whether a node is a branch. -/
def isBranch : Node → Bool
  | .branch .. => true
  | _ => false

/-- What is evaluated, or bound, when a node is evaluated in a role. -/
inductive Part : Role → Node → Role → Node → Prop
  | ofProgram {n m : Node} {inner : List Node} : n.statements? = some inner → m ∈ inner →
      Part .program n .statement m
  | ofBlock {n m : Node} {inner : List Node} : n.statements? = some inner → m ∈ inner →
      Part .block n .statement m
  | expressionStatement {r : Range} {e : Node} :
      Part .statement (.expressionStatement r e) .expression e
  | returnStatement {r : Range} {e : Node} : Part .statement (.returnStatement r e) .expression e
  | predicate {r : Range} {p c a : Node} : Part .statement (.branch r p c a) .expression p
  | consequence {r : Range} {p c a : Node} : Part .statement (.branch r p c a) .block c
  | alternative {r : Range} {p c a : Node} : a.isAbsent = false →
      Part .statement (.branch r p c a) .block a
  | operand {r : Range} {op : String} {e : Node} : Part .expression (.unary r op e) .expression e
  | left {r : Range} {op : String} {a b : Node} :
      Part .expression (.binary r op a b) .expression a
  | right {r : Range} {op : String} {a b : Node} :
      Part .expression (.binary r op a b) .expression b
  | assigned {r : Range} {a b : Node} : Part .expression (.assignment r a b) .expression b
  | callee {r : Range} {f : Node} {args : List Node} :
      Part .expression (.call r f args) .expression f
  | argument {r : Range} {f a : Node} {args : List Node} : a ∈ args →
      Part .expression (.call r f args) .expression a
  | parameter {r : Range} {p b : Node} {ps : List Node} : p ∈ ps →
      Part .expression (.function r ps b) .parameter p
  | body {r : Range} {b : Node} {ps : List Node} : Part .expression (.function r ps b) .block b

mutual

/-- Whether a tree fits a role: the shapes that trees have by their definition. -/
def fits : Role → Node → Bool
  | .program, .program _ inner => fitAll .statement inner
  | .block, .block _ inner => fitAll .statement inner
  | .statement, .expressionStatement _ e => fits .expression e
  | .statement, .returnStatement _ e => fits .expression e
  | .statement, .branch _ p c a =>
    fits .expression p && fits .block c && (a.isAbsent || fits .block a)
  | .expression, .number .. | .expression, .boolean .. | .expression, .string ..
  | .expression, .identifier .. => true
  | .expression, .unary _ _ e => fits .expression e
  | .expression, .binary _ _ a b => fits .expression a && fits .expression b
  | .expression, .assignment _ a b => fits .expression a && fits .expression b
  | .expression, .function _ ps b => fitAll .parameter ps && fits .block b
  | .expression, .call _ f args => fits .expression f && fitAll .expression args
  | .parameter, .identifier .. => true
  | _, _ => false

/-- Whether trees all fit a role. -/
def fitAll : Role → List Node → Bool
  | _, [] => true
  | role, n :: ns => fits role n && fitAll role ns

end

theorem fitAll_iff {role : Role} {ns : List Node} :
    fitAll role ns = true ↔ ∀ n ∈ ns, fits role n = true := by
  induction ns with
  | nil => simp [fitAll]
  | cons n ns ih => simp [fitAll, ih]

/-- What is evaluated or bound with a node is one of its children. -/
theorem Part.mem_children {role role' : Role} {n m : Node} (h : Part role n role' m) :
    m ∈ n.children := by
  cases h with
  | ofProgram hn hm | ofBlock hn hm =>
    cases n <;> cases hn <;> exact hm
  | argument hm => exact List.mem_cons_of_mem _ hm
  | parameter hm => exact List.mem_append_left _ hm
  | _ => simp [children]

/-- What fits a role serves in it. -/
theorem serves_of_fits {role : Role} {n : Node} (h : fits role n = true) :
    n.serves role = true := by
  cases role <;> cases n <;> first | rfl | cases h

/-- The parts of what fits fit. -/
theorem fits_part {role role' : Role} {n m : Node} (h : fits role n = true)
    (hp : Part role n role' m) : fits role' m = true := by
  cases hp with
  | ofProgram hn hm =>
    cases n <;> cases hn
    · exact fitAll_iff.mp h m hm
    · cases h
  | ofBlock hn hm =>
    cases n <;> cases hn
    · cases h
    · exact fitAll_iff.mp h m hm
  | alternative ha => simp_all [fits]
  | argument hm =>
    simp only [fits, Bool.and_eq_true] at h
    exact fitAll_iff.mp h.2 m hm
  | parameter hm =>
    simp only [fits, Bool.and_eq_true] at h
    exact fitAll_iff.mp h.1 m hm
  | _ => simp_all [fits]

end Node
end HangulScript
