import HangulScript.Evaluation.Operator
import HangulScript.Proofs.Rendering.Image
import HangulScript.Proofs.Tree.Shapes

/-!
# Renderable trees have their shapes

A tree that can be written has a node of the right kind in every place, and every operator in it
is one that the evaluator knows.  This is said of the tree as a whole by `Node.fits`, and of its
single parts by going down from a part to its children.
-/

namespace HangulScript

namespace Operator

/-- The operators that stand in front of an operand. -/
def fronts : List String := ["+", "-", "!"]

/-- The operators that stand between two operands, assignment apart. -/
def infixes : List String := arithmeticOperators ++ comparisons

end Operator

namespace Node

open Grammar

/-- Whether the operator of a node, if it has one, is one of the language. -/
def hasKnownOperator : Node → Bool
  | .unary _ op _ => Operator.fronts.contains op
  | .binary _ op _ _ => Operator.infixes.contains op
  | _ => true

/-! ## The whole tree -/

mutual

theorem fits_of_isExpression : ∀ n : Node, n.IsExpression → fits .expression n = true
  | .number .., _ | .boolean .., _ | .string .., _ | .identifier .., _ => rfl
  | .unary _ _ e, h => fits_of_isExpression e h.2
  | .binary _ _ a b, h => by
    rw [fits, fits_of_isExpression a h.2.1, fits_of_isExpression b h.2.2, Bool.and_true]
  | .assignment _ a b, h => by
    rw [fits, fits_of_isExpression a h.1, fits_of_isExpression b h.2, Bool.and_true]
  | .function _ ps b, h => by
    have hps : fitAll .parameter ps = true := by
      refine fitAll_iff.mpr fun p hp => ?_
      obtain ⟨range, name, rfl, -⟩ := h.1 p hp
      rfl
    rw [fits, hps, fits_of_isBlock b h.2, Bool.and_true]
  | .call _ f as, h => by
    rw [fits, fits_of_isExpression f h.1, fitAll_of_areExpressions as h.2, Bool.and_true]
  | .absent, h | .program .., h | .block .., h | .expressionStatement .., h
  | .returnStatement .., h | .branch .., h => h.elim

theorem fitAll_of_areExpressions : ∀ ns : List Node, AreExpressions ns →
    fitAll .expression ns = true
  | [], _ => rfl
  | n :: ns, h => by
    rw [fitAll, fits_of_isExpression n h.1, fitAll_of_areExpressions ns h.2, Bool.and_true]

theorem fits_of_isBlock : ∀ n : Node, n.IsBlock → fits .block n = true
  | .block _ inner, h => fitAll_of_areStatements inner h
  | .absent, h | .program .., h | .expressionStatement .., h | .returnStatement .., h
  | .branch .., h | .number .., h | .boolean .., h | .string .., h | .identifier .., h
  | .unary .., h | .binary .., h | .assignment .., h | .function .., h | .call .., h => h.elim

theorem fits_of_isStatement : ∀ n : Node, n.IsStatement → fits .statement n = true
  | .expressionStatement _ e, h => fits_of_isExpression e h
  | .returnStatement _ e, h => fits_of_isExpression e h
  | .branch _ p c a, h => by
    have ha : (a.isAbsent || fits .block a) = true := by
      rcases h.2.2 with ha | ha
      · rw [ha, Bool.true_or]
      · rw [fits_of_isBlock a ha, Bool.or_true]
    rw [fits, fits_of_isExpression p h.1, fits_of_isBlock c h.2.1, ha]
    rfl
  | .absent, h | .program .., h | .block .., h | .number .., h | .boolean .., h | .string .., h
  | .identifier .., h | .unary .., h | .binary .., h | .assignment .., h | .function .., h
  | .call .., h => h.elim

theorem fitAll_of_areStatements : ∀ ns : List Node, AreStatements ns →
    fitAll .statement ns = true
  | [], _ => rfl
  | n :: ns, h => by
    rw [fitAll, fits_of_isStatement n h.1, fitAll_of_areStatements ns h.2.2, Bool.and_true]

end

/-- **A tree that can be written fits.** -/
theorem fits_of_renderable {n : Node} (h : n.Renderable) : fits .program n = true := by
  cases n with
  | program range inner => exact fitAll_of_areStatements inner h
  | _ => exact h.elim

/-! ## Its parts -/

/-- A node that can be written in some role, or the absence of one. -/
inductive Written : Node → Prop
  | program {n : Node} : n.Renderable → Written n
  | block {n : Node} : n.IsBlock → Written n
  | statement {n : Node} : n.IsStatement → Written n
  | expression {n : Node} : n.IsExpression → Written n
  | parameter {n : Node} : IsParameter n → Written n
  | absent {n : Node} : n.isAbsent = true → Written n

theorem isStatement_of_mem {n : Node} {ns : List Node} (h : AreStatements ns) (hn : n ∈ ns) :
    n.IsStatement := by
  induction ns with
  | nil => cases hn
  | cons m ns ih =>
    rcases List.mem_cons.mp hn with rfl | hn
    · exact h.1
    · exact ih h.2.2 hn

/-- What can be written has children that can. -/
theorem Written.child {n c : Node} (h : n.Written) (hc : c ∈ n.children) : c.Written := by
  cases h with
  | program h =>
    cases n with
    | program range inner => exact .statement (isStatement_of_mem h hc)
    | _ => exact h.elim
  | block h =>
    cases n with
    | block range inner => exact .statement (isStatement_of_mem h hc)
    | _ => exact h.elim
  | statement h =>
    cases n with
    | expressionStatement range e =>
      obtain rfl := List.mem_singleton.mp hc
      exact .expression h
    | returnStatement range e =>
      obtain rfl := List.mem_singleton.mp hc
      exact .expression h
    | branch range p b a =>
      simp only [children, List.mem_cons, List.not_mem_nil, or_false] at hc
      rcases hc with rfl | rfl | rfl
      -- the predicate, the block, and the alternative, which may be missing
      · exact .expression h.1
      · exact .block h.2.1
      · exact h.2.2.elim .absent .block
    | _ => exact h.elim
  | expression h =>
    cases n with
    | unary range op e =>
      obtain rfl := List.mem_singleton.mp hc
      exact .expression h.2
    | binary range op a b =>
      simp only [children, List.mem_cons, List.not_mem_nil, or_false] at hc
      rcases hc with rfl | rfl
      · exact .expression h.2.1
      · exact .expression h.2.2
    | assignment range a b =>
      simp only [children, List.mem_cons, List.not_mem_nil, or_false] at hc
      rcases hc with rfl | rfl
      · exact .expression h.1
      · exact .expression h.2
    | function range ps b =>
      rcases List.mem_append.mp hc with hc | hc
      · exact .parameter (h.1 c hc)
      · obtain rfl := List.mem_singleton.mp hc
        exact .block h.2
    | call range f as =>
      rcases List.mem_cons.mp hc with rfl | hc
      · exact .expression h.1
      · exact .expression ((areExpressions_iff as).mp h.2 c hc)
    | number | boolean | string | identifier => cases hc
    | _ => exact h.elim
  | parameter h =>
    obtain ⟨range, name, rfl, -⟩ := h
    cases hc
  | absent h =>
    cases n with
    | absent => cases hc
    | _ => cases h

/-- The operators of the language, as texts, are those that the evaluator knows. -/
theorem sign_mem_fronts : ∀ kind ∈ frontOperators, String.ofList kind.sign ∈ Operator.fronts := by
  decide

theorem sign_mem_infixes : ∀ kind ∈ infixOperators, kind ≠ .assign →
    String.ofList kind.sign ∈ Operator.infixes := by
  decide

/-- What can be written and is of a kind of expressions that parameters are not is an
expression. -/
theorem Written.isExpression {n : Node} (h : n.Written) (hn : n.isExpressionNode = true)
    (hname : n.name? = none) : n.IsExpression := by
  cases h with
  | expression h => exact h
  | program h | block h | statement h => cases n <;> first | exact h.elim | cases hn
  | parameter h =>
    obtain ⟨range, name, rfl, -⟩ := h
    cases hname
  | absent h => cases n <;> first | cases h; done | cases hn

theorem Written.hasKnownOperator {n : Node} (h : n.Written) : n.hasKnownOperator = true := by
  cases n with
  | unary range op e =>
    obtain ⟨⟨kind, hkind, hop⟩, -⟩ := h.isExpression rfl rfl
    have hmem := sign_mem_fronts kind hkind
    rw [← hop, String.ofList_toList] at hmem
    exact List.contains_iff_mem.mpr hmem
  | binary range op a b =>
    obtain ⟨⟨kind, hkind, hne, hop⟩, -⟩ := h.isExpression rfl rfl
    have hmem := sign_mem_infixes kind hkind hne
    rw [← hop, String.ofList_toList] at hmem
    exact List.contains_iff_mem.mpr hmem
  | _ => rfl

/-- Every part of a tree that can be written can be written in its place. -/
theorem written_of_isPartOf {tree part : Node} (h : tree.Renderable)
    (hpart : part.IsPartOf tree) : part.Written := by
  have hwritten : ∀ {tree : Node}, part.IsPartOf tree → tree.Written → part.Written := by
    intro tree hpart
    induction hpart with
    | whole => exact id
    | inside hm _ ih => exact fun h => ih (h.child hm)
  exact hwritten hpart (.program h)

/-- **A tree that can be written has only operators of the language.** -/
theorem hasKnownOperator_of_renderable {tree part : Node} (h : tree.Renderable)
    (hpart : part.IsPartOf tree) : part.hasKnownOperator = true :=
  (written_of_isPartOf h hpart).hasKnownOperator

end Node
end HangulScript
