import HangulScript.Proofs.Tree.Shapes

/-!
# Heights of trees

The *height* of a tree is the greatest number of expressions on a path into it that enters no
function body.  The bodies have heights of their own, and the *body height* of a tree is the
greatest of these, over all function literals in it, those inside of other bodies included.

Evaluating an expression evaluates its operands inside, so the height says how deeply evaluation
goes where nothing is called.  A call goes on in a body; if bodies hold no calls, it goes no
further than one of them.  `Bounded` is what has to be known of a tree to evaluate it with so many
levels, and its lemmas say how levels are spent: on the way from an expression to an expression
one, on the way from a statement to its parts none.
-/

namespace HangulScript
namespace Node

mutual

/-- The greatest number of expressions on a path into a tree that enters no function body.
Parameters are names that a function binds, and no expressions. -/
def height : Node → Nat
  | .absent => 0
  | .program _ inner | .block _ inner => heights inner
  | .expressionStatement _ e | .returnStatement _ e => height e
  | .branch _ p c a => max (height p) (max (height c) (height a))
  | .number .. | .boolean .. | .string .. | .identifier .. | .function .. => 1
  | .unary _ _ e => height e + 1
  | .binary _ _ a b | .assignment _ a b => max (height a) (height b) + 1
  | .call _ f args => max (height f) (heights args) + 1

/-- The greatest height of several trees. -/
def heights : List Node → Nat
  | [] => 0
  | n :: ns => max (height n) (heights ns)

end

mutual

/-- The greatest height of the bodies of the function literals in a tree, wherever they stand. -/
def bodyHeight : Node → Nat
  | .absent | .number .. | .boolean .. | .string .. | .identifier .. => 0
  | .program _ inner | .block _ inner => bodyHeights inner
  | .expressionStatement _ e | .returnStatement _ e | .unary _ _ e => bodyHeight e
  | .branch _ p c a => max (bodyHeight p) (max (bodyHeight c) (bodyHeight a))
  | .binary _ _ a b | .assignment _ a b => max (bodyHeight a) (bodyHeight b)
  | .function _ ps b => max (height b) (max (bodyHeights ps) (bodyHeight b))
  | .call _ f args => max (bodyHeight f) (bodyHeights args)

/-- The greatest body height of several trees. -/
def bodyHeights : List Node → Nat
  | [] => 0
  | n :: ns => max (bodyHeight n) (bodyHeights ns)

end

/-- No call stands in a tree, not even in a function body. -/
def CallFree (n : Node) : Prop := ∀ r f args, ¬ (call r f args).IsPartOf n

/-- No call stands in the body of a function literal. -/
def CallsOutside (n : Node) : Prop := ∀ r ps b, (function r ps b).IsPartOf n → b.CallFree

/-! ## Parts -/

theorem height_le_heights {n : Node} {ns : List Node} (h : n ∈ ns) : n.height ≤ heights ns := by
  induction ns with
  | nil => cases h
  | cons m ns ih =>
    rw [heights]
    rcases List.mem_cons.mp h with rfl | h
    · exact Nat.le_max_left ..
    · exact Nat.le_trans (ih h) (Nat.le_max_right ..)

theorem bodyHeight_le_bodyHeights {n : Node} {ns : List Node} (h : n ∈ ns) :
    n.bodyHeight ≤ bodyHeights ns := by
  induction ns with
  | nil => cases h
  | cons m ns ih =>
    rw [bodyHeights]
    rcases List.mem_cons.mp h with rfl | h
    · exact Nat.le_max_left ..
    · exact Nat.le_trans (ih h) (Nat.le_max_right ..)

/-- An expression in an expression is of less height. -/
theorem height_lt_of_part {n m : Node} (h : Part .expression n .expression m) :
    m.height < n.height := by
  cases h with
  | argument hm =>
    have := height_le_heights hm
    rw [height]
    omega
  | operand | left | right | assigned | callee =>
    rw [height]
    omega

/-- What stands in a statement, a block or a program is not higher. -/
theorem height_le_of_part {role role' : Role} {n m : Node} (h : Part role n role' m)
    (hr : role ≠ .expression) : m.height ≤ n.height := by
  cases h with
  | ofProgram hn hm | ofBlock hn hm =>
    cases n <;> cases hn <;> exact height_le_heights hm
  | expressionStatement | returnStatement => exact Nat.le_refl _
  | predicate | consequence | alternative =>
    rw [height]
    omega
  | _ => exact absurd rfl hr

theorem bodyHeight_le_of_mem_children {n m : Node} (h : m ∈ n.children) :
    m.bodyHeight ≤ n.bodyHeight := by
  cases n with
  | program r inner | block r inner => exact bodyHeight_le_bodyHeights h
  | expressionStatement r e | returnStatement r e | unary r op e =>
    obtain rfl := List.mem_singleton.mp h
    exact Nat.le_refl _
  | branch r p c a =>
    simp only [children, List.mem_cons, List.not_mem_nil, or_false] at h
    rw [bodyHeight]
    rcases h with rfl | rfl | rfl <;> omega
  | binary r op a b | assignment r a b =>
    simp only [children, List.mem_cons, List.not_mem_nil, or_false] at h
    rw [bodyHeight]
    rcases h with rfl | rfl <;> omega
  | function r ps b =>
    rw [bodyHeight]
    rcases List.mem_append.mp h with h | h
    · have := bodyHeight_le_bodyHeights h
      omega
    · obtain rfl := List.mem_singleton.mp h
      omega
  | call r f args =>
    rw [bodyHeight]
    rcases List.mem_cons.mp h with rfl | h
    · exact Nat.le_max_left ..
    · have := bodyHeight_le_bodyHeights h
      omega
  | _ => cases h

/-- No call stands in a tree if it is none and none stands in its children. -/
theorem callFree_iff {n : Node} :
    n.CallFree ↔ (∀ r f args, n ≠ .call r f args) ∧ ∀ m ∈ n.children, m.CallFree := by
  refine ⟨fun h => ⟨fun r f args he => h r f args (he ▸ .whole), fun m hm r f args hp =>
    h r f args (.inside hm hp)⟩, fun h r f args hp => ?_⟩
  rcases isPartOf_iff.mp hp with rfl | ⟨m, hm, hp⟩
  · exact h.1 r f args rfl
  · exact h.2 m hm r f args hp

/-- No call stands in the literals in a tree if it stands in none of those in its children, and the
tree is no literal with a call in its body. -/
theorem callsOutside_iff {n : Node} :
    n.CallsOutside ↔
      (∀ r ps b, n = .function r ps b → b.CallFree) ∧ ∀ m ∈ n.children, m.CallsOutside := by
  refine ⟨fun h => ⟨fun r ps b he => h r ps b (he ▸ .whole), fun m hm r ps b hp =>
    h r ps b (.inside hm hp)⟩, fun h r ps b hp => ?_⟩
  rcases isPartOf_iff.mp hp with he | ⟨m, hm, hp⟩
  · exact h.1 r ps b he.symm
  · exact h.2 m hm r ps b hp

mutual

/-- Whether no call stands in the bodies of the literals in a tree; and if the tree stands in such
a body, whether no call stands in it at all. -/
def callsOutside (inBody : Bool) : Node → Bool
  | .absent | .number .. | .boolean .. | .string .. | .identifier .. => true
  | .program _ inner | .block _ inner => callOutside inBody inner
  | .expressionStatement _ e | .returnStatement _ e | .unary _ _ e => callsOutside inBody e
  | .branch _ p c a => callsOutside inBody p && callsOutside inBody c && callsOutside inBody a
  | .binary _ _ a b | .assignment _ a b => callsOutside inBody a && callsOutside inBody b
  | .function _ ps b => callOutside inBody ps && callsOutside true b
  | .call _ f args => !inBody && callsOutside inBody f && callOutside inBody args

/-- The same of several trees. -/
def callOutside (inBody : Bool) : List Node → Bool
  | [] => true
  | n :: ns => callsOutside inBody n && callOutside inBody ns

end

mutual

theorem callsOutside_eq_true_iff (inBody : Bool) : ∀ n : Node,
    callsOutside inBody n = true ↔ (inBody = true → n.CallFree) ∧ n.CallsOutside
  | .program _ inner | .block _ inner => by
    rw [callFree_iff, callsOutside_iff]
    simp only [callsOutside, children, callOutside_eq_true_iff inBody inner]
    grind
  | .expressionStatement _ e | .returnStatement _ e | .unary _ _ e => by
    rw [callFree_iff, callsOutside_iff]
    simp [callsOutside, children, callsOutside_eq_true_iff inBody e]
  | .branch _ p c a => by
    rw [callFree_iff, callsOutside_iff]
    simp only [callsOutside, children, Bool.and_eq_true, callsOutside_eq_true_iff inBody p,
      callsOutside_eq_true_iff inBody c, callsOutside_eq_true_iff inBody a]
    grind
  | .binary _ _ a b | .assignment _ a b => by
    rw [callFree_iff, callsOutside_iff]
    simp only [callsOutside, children, Bool.and_eq_true, callsOutside_eq_true_iff inBody a,
      callsOutside_eq_true_iff inBody b]
    grind
  | .function _ ps b => by
    rw [callFree_iff, callsOutside_iff]
    simp only [callsOutside, children, Bool.and_eq_true, callOutside_eq_true_iff inBody ps,
      callsOutside_eq_true_iff true b]
    grind
  | .call _ f args => by
    rw [callFree_iff, callsOutside_iff]
    simp only [callsOutside, children, Bool.and_eq_true, callsOutside_eq_true_iff inBody f,
      callOutside_eq_true_iff inBody args]
    grind
  | .absent | .number .. | .boolean .. | .string .. | .identifier .. => by
    rw [callFree_iff, callsOutside_iff]
    simp [callsOutside, children]

theorem callOutside_eq_true_iff (inBody : Bool) : ∀ ns : List Node,
    callOutside inBody ns = true ↔ ∀ n ∈ ns, (inBody = true → n.CallFree) ∧ n.CallsOutside
  | [] => by simp [callOutside]
  | n :: ns => by
    simp [callOutside, callsOutside_eq_true_iff inBody n, callOutside_eq_true_iff inBody ns]

end

instance (n : Node) : Decidable n.CallsOutside :=
  decidable_of_iff (callsOutside false n = true) (by simp [callsOutside_eq_true_iff])

/-- An expression is something. -/
theorem height_pos {n : Node} (h : fits .expression n = true) : 0 < n.height := by
  cases n <;> first | cases h; done | (rw [height]; omega)

/-! ## Levels -/

/-- A tree in a role can be evaluated with so many levels, if the functions that it calls have
bodies of at most some height: it calls nothing and is no higher, or it leaves the levels that a
body may need.  And the bodies of its own literals hold no calls and are of at most that height. -/
structure Bounded (bodies levels : Nat) (role : Role) (n : Node) : Prop where
  fits : fits role n = true
  bodyHeight_le : n.bodyHeight ≤ bodies
  callsOutside : n.CallsOutside
  height_le : n.CallFree ∧ n.height ≤ levels ∨ n.height + bodies ≤ levels

namespace Bounded

variable {bodies levels levels' : Nat} {role role' : Role} {n m : Node}

/-- A program needs no more levels than its height and the height of its bodies. -/
theorem of_fits (h : Node.fits role n = true) (hc : n.CallsOutside) :
    n.Bounded n.bodyHeight (n.height + n.bodyHeight) role :=
  ⟨h, Nat.le_refl _, hc, Or.inr (Nat.le_refl _)⟩

theorem mono (h : n.Bounded bodies levels role) (hl : levels ≤ levels') :
    n.Bounded bodies levels' role :=
  ⟨h.fits, h.bodyHeight_le, h.callsOutside,
    h.height_le.imp (fun hf => ⟨hf.1, Nat.le_trans hf.2 hl⟩) fun hh => Nat.le_trans hh hl⟩

/-- From a statement, a block or a program to what stands in it. -/
theorem part (h : n.Bounded bodies levels role) (hp : Part role n role' m)
    (hr : role ≠ .expression) : m.Bounded bodies levels role' := by
  have hm := hp.mem_children
  have hh := height_le_of_part hp hr
  refine ⟨fits_part h.fits hp, Nat.le_trans (bodyHeight_le_of_mem_children hm) h.bodyHeight_le,
    (callsOutside_iff.mp h.callsOutside).2 m hm, ?_⟩
  refine h.height_le.imp (fun hf => ⟨(callFree_iff.mp hf.1).2 m hm, ?_⟩) fun hle => ?_ <;> omega

/-- From an expression to an expression in it, which is one level down. -/
theorem operand (h : n.Bounded bodies (levels + 1) .expression)
    (hp : Part .expression n .expression m) : m.Bounded bodies levels .expression := by
  have hm := hp.mem_children
  have hh := height_lt_of_part hp
  refine ⟨fits_part h.fits hp, Nat.le_trans (bodyHeight_le_of_mem_children hm) h.bodyHeight_le,
    (callsOutside_iff.mp h.callsOutside).2 m hm, ?_⟩
  refine h.height_le.imp (fun hf => ⟨(callFree_iff.mp hf.1).2 m hm, ?_⟩) fun hle => ?_ <;> omega

/-- The body of a literal can be evaluated with the levels that are left for bodies. -/
theorem body {r : Range} {ps : List Node} {b : Node}
    (h : (function r ps b).Bounded bodies levels .expression) : b.Bounded bodies bodies .block := by
  have hm : b ∈ (function r ps b).children := List.mem_append_right _ (List.mem_singleton_self b)
  have hb := h.bodyHeight_le
  rw [bodyHeight] at hb
  refine ⟨fits_part h.fits .body, by omega, (callsOutside_iff.mp h.callsOutside).2 b hm,
    Or.inl ⟨?_, by omega⟩⟩
  exact h.callsOutside r ps b .whole

/-- A call leaves the levels that a body may need. -/
theorem bodies_le {r : Range} {f : Node} {args : List Node}
    (h : (call r f args).Bounded bodies (levels + 1) .expression) : bodies ≤ levels := by
  rcases h.height_le with ⟨hf, -⟩ | hh
  · exact absurd .whole (hf r f args)
  · have := height_pos h.fits
    omega

/-- An expression needs a level. -/
theorem levels_pos (h : n.Bounded bodies levels .expression) : 0 < levels := by
  have := height_pos h.fits
  rcases h.height_le with ⟨-, hh⟩ | hh <;> omega

end Bounded
end Node
end HangulScript
