import HangulScript.Proofs.Tree.Literals

/-!
# Statements that return

Two things can be said of the returns in a tree without running it.  A statement may return on
every way through it, and a list of statements does as soon as one of them does: what stands before
that one either returns earlier or goes on to it.  And a tree may hold a return statement somewhere,
those in function literals not counted, for they belong to the calls of these.
-/

namespace HangulScript
namespace Node

mutual

/-- Whether a statement, a block or a program always returns. -/
def alwaysReturns : Node → Bool
  | returnStatement _ _ => true
  | branch _ _ consequence alternative => alwaysReturns consequence && alwaysReturns alternative
  | program _ inner | block _ inner => anyReturns inner
  | _ => false

/-- Whether one of some statements always returns, and all of them together therefore do. -/
def anyReturns : List Node → Bool
  | [] => false
  | first :: rest => alwaysReturns first || anyReturns rest

end

theorem alwaysReturns_of_isAbsent {n : Node} (h : n.isAbsent = true) :
    n.alwaysReturns = false := by
  cases n <;> first | rfl | cases h

/-- A tree holds a return statement outside of the function literals in it. -/
def HoldsReturn (tree : Node) : Prop :=
  ∃ r e, (Node.returnStatement r e).StandsIn [tree] []

/-- What stands in a child stands in the whole, unless that is a literal. -/
theorem StandsIn.of_child {n c tree : Node} {around : List Node} (h : n.StandsIn [c] around)
    (ht : tree.isLiteral = false) (hc : c ∈ tree.children) : n.StandsIn [tree] around := by
  induction h with
  | top hn =>
    rw [List.mem_singleton.mp hn]
    exact .child (.top (List.mem_singleton_self tree)) ht hc
  | child _ hn hc' ih => exact .child ih hn hc'
  | body _ ih => exact .body ih

theorem holdsReturn_returnStatement (r : Range) (e : Node) :
    HoldsReturn (.returnStatement r e) :=
  ⟨r, e, .top (List.mem_singleton_self _)⟩

theorem HoldsReturn.of_child {c tree : Node} (h : c.HoldsReturn) (ht : tree.isLiteral = false)
    (hc : c ∈ tree.children) : tree.HoldsReturn := by
  obtain ⟨r, e, h⟩ := h
  exact ⟨r, e, h.of_child ht hc⟩

end Node
end HangulScript
