import HangulScript.Proofs.Tree.Parts

/-!
# The function literals around a node

Every node of a tree stands inside some function literals, one inside another, and possibly in
none.  This is where the names come from that a scope can bind.  A call of a literal makes a
scope for its parameters and for the names that are assigned in its body, those in literals
inside the body apart, which have scopes of their own.

The parameters of a literal are not counted among the nodes that stand in it.  They are names
to be bound, and are never evaluated.
-/

namespace HangulScript
namespace Node

/-- Whether a node is a function literal. -/
def isLiteral : Node → Bool
  | .function .. => true
  | _ => false

/-- A node stands in one of some trees, with exactly these function literals around it, the
innermost first. -/
inductive StandsIn (trees : List Node) : List Node → Node → Prop
  | top {tree : Node} : tree ∈ trees → StandsIn trees [] tree
  | child {around : List Node} {n c : Node} : StandsIn trees around n → n.isLiteral = false →
      c ∈ n.children → StandsIn trees around c
  | body {around : List Node} {r : Range} {ps : List Node} {b : Node} :
      StandsIn trees around (.function r ps b) → StandsIn trees (.function r ps b :: around) b

/-- The name that an assignment assigns to. -/
def target? : Node → Option String
  | .assignment _ left _ => left.name?
  | _ => none

/-- A name is assigned to in some trees, outside of all function literals in them. -/
def AssignedIn (trees : List Node) (name : String) : Prop :=
  ∃ n : Node, n.StandsIn trees [] ∧ n.target? = some name

/-- The names that belong to a place: to the innermost literal around it its parameters and what
is assigned to in its body, or to the trees what is assigned to in them. -/
def Owns (trees : List Node) : List Node → String → Prop
  | [], name => AssignedIn trees name
  | .function _ ps b :: _, name => name ∈ ps.filterMap name? ∨ AssignedIn [b] name
  | _ :: _, _ => False

/-- What has a literal around it stands in the body of that literal. -/
theorem StandsIn.inside {trees around : List Node} {n literal : Node}
    (h : n.StandsIn trees (literal :: around)) :
    ∃ r ps b, literal = .function r ps b ∧ n.StandsIn [b] [] := by
  generalize hall : literal :: around = all at h
  induction h with
  | top => cases hall
  | child _ hn hc ih =>
    obtain ⟨r, ps, b, hl, h⟩ := ih hall
    exact ⟨r, ps, b, hl, .child h hn hc⟩
  | body _ ih =>
    cases hall
    exact ⟨_, _, _, rfl, .top (List.mem_singleton_self _)⟩

/-- What an assignment assigns to belongs to the place where the assignment stands. -/
theorem StandsIn.owns {trees around : List Node} {n : Node} {name : String}
    (h : n.StandsIn trees around) (hn : n.target? = some name) : Owns trees around name := by
  cases around with
  | nil => exact ⟨n, h, hn⟩
  | cons literal around =>
    obtain ⟨r, ps, b, rfl, hb⟩ := h.inside
    exact Or.inr ⟨n, hb, hn⟩

end Node
end HangulScript
