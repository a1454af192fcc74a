import HangulScript.Proofs.Evaluation.Regions
import HangulScript.Proofs.Evaluation.Semantics
import HangulScript.Proofs.Tree.Parts

/-!
# Every error has its node

An error of evaluation is raised at a node: its range is that of the node or of one of its
parts, and what its message names is what the node names, or the type of some value
(`Node.Raises`).  Which nodes can raise an error is then a question about trees alone.

Evaluation gets hold of nodes in two ways.  It goes down into a tree, and it calls a function,
whose parameters and body were put into a value and may have been carried far from where they
stood.  So the invariant is about values too: every function there is was a node of the sort.
Nothing that happens to a value makes another function of it.
-/

namespace HangulScript

/-- An error that evaluation raises at a node. -/
inductive Node.Raises : Node → Error → Prop
  | unbound {r : Range} {name : String} : Raises (.identifier r name) ⟨.unboundIdentifier name, r⟩
  | badUnary {r : Range} {op : String} {e : Node} {v : Value} :
      Raises (.unary r op e) ⟨.badUnary op v.typeName, r⟩
  | badBinary {r : Range} {op : String} {a b : Node} {v w : Value} :
      Raises (.binary r op a b) ⟨.badBinary op v.typeName w.typeName, r⟩
  | badTarget {r : Range} {a b : Node} : Raises (.assignment r a b) ⟨.badAssignmentTarget, r⟩
  | notCallable {r : Range} {f : Node} {args : List Node} {v : Value} :
      f.isExpressionNode = true → Raises (.call r f args) ⟨.notCallable v.typeName, f.range⟩
  | arity {r : Range} {f : Node} {args : List Node} {expected got : Nat} :
      Raises (.call r f args) ⟨.arity expected got, r⟩
  | missingReturn {r : Range} {params : List Node} {body : Node} :
      Raises (.function r params body) ⟨.missingReturn, body.range⟩
  | badPredicate {r : Range} {p c a : Node} {v : Value} :
      p.isExpressionNode = true → Raises (.branch r p c a) ⟨.badPredicate v.typeName, p.range⟩
  | topLevelReturn {n : Node} : n.isStatementNode = true → Raises n ⟨.topLevelReturn, n.range⟩

namespace Evaluation

variable {Q : Node → Prop} {s s' : Store} {scope : ScopeId}

/-! ## What comes from nodes of a sort -/

/-- A value that is a function was a node of the sort. -/
def FromNode (Q : Node → Prop) : Value → Prop
  | .function r params body _ => Q (.function r params body)
  | _ => True

/-- Everything that is bound is from nodes of the sort. -/
def BindsFromNodes (Q : Node → Prop) (s : Store) : Prop :=
  ∀ id name v, (s.bindings id).lookup name = some v → FromNode Q v

/-- A task of nodes of the sort.  An application is that of a function of the sort at a call of
the sort. -/
def Task.FromNodes (Q : Node → Prop) : Task → Prop
  | .expression n | .statement n | .block n | .program n => Q n
  | .arguments ns => ∀ n ∈ ns, Q n
  | .application params body _ values r =>
    (∃ own, Q (.function own params body)) ∧ (∃ f args, Q (.call r f args)) ∧
      ∀ v ∈ values, FromNode Q v
  | .statements last ns | .topLevel last ns => FromNode Q last ∧ ∀ n ∈ ns, Q n

/-- An outcome from nodes of the sort: an error is raised at one of them. -/
def Outcome.FromNodes (Q : Node → Prop) : Outcome → Prop
  | .value v | .returns v => FromNode Q v
  | .values vs => ∀ v ∈ vs, FromNode Q v
  | .raises e => ∃ n, Q n ∧ n.Raises e

theorem fromNode_of_frontMeans {r : Range} {op : String} {v w : Value}
    (h : FrontMeans r op v w) : FromNode Q w := by
  cases h <;> trivial

theorem fromNode_of_infixMeans {r : Range} {op : String} {v v' w : Value}
    (h : InfixMeans r op v v' w) : FromNode Q w := by
  cases h <;> trivial

namespace BindsFromNodes

theorem get? (h : BindsFromNodes Q s) {id : ScopeId} {name : String} {v : Value}
    (hv : s.get? id name = some v) : FromNode Q v := by
  induction id using Nat.strongRecOn with
  | _ id ih =>
    rw [Store.get?_eq, Option.or_eq_some_iff] at hv
    rcases hv with hv | ⟨-, hv⟩
    · exact h id name v hv
    · obtain ⟨p, hp, hv⟩ := Option.bind_eq_some_iff.mp hv
      exact ih p (Store.parent?_lt hp) hv

theorem bind (h : BindsFromNodes Q s) (id : ScopeId) (name : String) {v : Value}
    (hv : FromNode Q v) : BindsFromNodes Q (s.bind id name v) := by
  intro other name' w hw
  rw [Store.lookup_bindings_bind] at hw
  split at hw
  · cases hw
    exact hv
  · exact h other name' w hw

theorem addChild (h : BindsFromNodes Q s) (parent : ScopeId) :
    BindsFromNodes Q (s.addChild parent).1 := by
  intro id name v hv
  rw [Store.bindings_addChild] at hv
  exact h id name v hv

theorem bindAll (h : BindsFromNodes Q s) (id : ScopeId) {names : List String} {values : List Value}
    (hv : ∀ v ∈ values, FromNode Q v) : BindsFromNodes Q (s.bindAll id (names.zip values)) := by
  induction names generalizing s values with
  | nil => exact h
  | cons name names ih =>
    cases values with
    | nil => exact h
    | cons v values =>
      obtain ⟨hfirst, hrest⟩ := List.forall_mem_cons.mp hv
      exact ih (h.bind id name hfirst) hrest

/-- The store in which a body is evaluated. -/
theorem ofCall (h : BindsFromNodes Q s) (captured : ScopeId) {names : List String}
    {values : List Value} (hv : ∀ v ∈ values, FromNode Q v) :
    BindsFromNodes Q
      ((s.addChild captured).1.bindAll (s.addChild captured).2 (names.zip values)) :=
  (h.addChild captured).bindAll _ hv

end BindsFromNodes

/-! ## Kinds of nodes that are evaluated -/

theorem isExpressionNode_of_evaluates {n : Node} {o : Outcome}
    (h : Evaluates s scope (.expression n) o s') : n.isExpressionNode = true := by
  cases h <;> rfl

theorem isStatementNode_of_evaluates {n : Node} {o : Outcome}
    (h : Evaluates s scope (.statement n) o s') : n.isStatementNode = true := by
  cases h <;> rfl

/-! ## All rules -/

/-- **Values and errors come from nodes.**  If the sort is closed under parts, then from a store
and a task of the sort evaluation comes to a store and an outcome of the sort. -/
theorem fromNodes_of_evaluates (hQ : ∀ n, Q n → ∀ c ∈ n.children, Q c) {task : Task}
    {o : Outcome} (h : Evaluates s scope task o s') (hs : BindsFromNodes Q s)
    (ht : task.FromNodes Q) : BindsFromNodes Q s' ∧ o.FromNodes Q := by
  induction h with
  | number | boolean | string => exact ⟨hs, trivial⟩
  | function => exact ⟨hs, ht⟩
  | name hv => exact ⟨hs, hs.get? hv⟩
  | unbound => exact ⟨hs, _, ht, .unbound⟩
  -- Operators
  | unary _ hmeans ih =>
    obtain ⟨hs₁, -⟩ := ih hs (hQ _ ht _ (by simp [Node.children]))
    exact ⟨hs₁, fromNode_of_frontMeans hmeans⟩
  | unaryRefused _ _ ih =>
    obtain ⟨hs₁, -⟩ := ih hs (hQ _ ht _ (by simp [Node.children]))
    exact ⟨hs₁, _, ht, .badUnary⟩
  | unaryRaises _ ih => exact ih hs (hQ _ ht _ (by simp [Node.children]))
  | binary _ _ hmeans iha ihb =>
    obtain ⟨hs₁, -⟩ := iha hs (hQ _ ht _ (by simp [Node.children]))
    obtain ⟨hs₂, -⟩ := ihb hs₁ (hQ _ ht _ (by simp [Node.children]))
    exact ⟨hs₂, fromNode_of_infixMeans hmeans⟩
  | binaryRefused _ _ _ iha ihb =>
    obtain ⟨hs₁, -⟩ := iha hs (hQ _ ht _ (by simp [Node.children]))
    obtain ⟨hs₂, -⟩ := ihb hs₁ (hQ _ ht _ (by simp [Node.children]))
    exact ⟨hs₂, _, ht, .badBinary⟩
  | leftRaises _ ih => exact ih hs (hQ _ ht _ (by simp [Node.children]))
  | rightRaises _ _ iha ihb =>
    obtain ⟨hs₁, -⟩ := iha hs (hQ _ ht _ (by simp [Node.children]))
    exact ihb hs₁ (hQ _ ht _ (by simp [Node.children]))
  -- Assignments
  | @assignment _ _ scope _ _ name _ _ _ ih =>
    obtain ⟨hs₁, hv⟩ := ih hs (hQ _ ht _ (by simp [Node.children]))
    exact ⟨hs₁.bind scope name hv, hv⟩
  | badTarget => exact ⟨hs, _, ht, .badTarget⟩
  | assignedRaises _ ih => exact ih hs (hQ _ ht _ (by simp [Node.children]))
  -- Calls: the function that is applied was a node of the sort, wherever it comes from
  | call _ _ _ ihf iha iho =>
    obtain ⟨hs₁, hf⟩ := ihf hs (hQ _ ht _ (by simp [Node.children]))
    obtain ⟨hs₂, hvs⟩ := iha hs₁ fun n hn => hQ _ ht _ (by simp [Node.children, hn])
    exact iho hs₂ ⟨⟨_, hf⟩, ⟨_, _, ht⟩, hvs⟩
  | notCallable hf _ ih =>
    obtain ⟨hs₁, -⟩ := ih hs (hQ _ ht _ (by simp [Node.children]))
    exact ⟨hs₁, _, ht, .notCallable (isExpressionNode_of_evaluates hf)⟩
  | calleeRaises _ ih => exact ih hs (hQ _ ht _ (by simp [Node.children]))
  | argumentsRaise _ _ ihf iha =>
    obtain ⟨hs₁, -⟩ := ihf hs (hQ _ ht _ (by simp [Node.children]))
    exact iha hs₁ fun n hn => hQ _ ht _ (by simp [Node.children, hn])
  | noArguments => exact ⟨hs, fun v hv => nomatch hv⟩
  | argument _ _ iha ihr =>
    obtain ⟨hfirst, hrest⟩ := List.forall_mem_cons.mp ht
    obtain ⟨hs₁, hv⟩ := iha hs hfirst
    obtain ⟨hs₂, hvs⟩ := ihr hs₁ hrest
    exact ⟨hs₂, List.forall_mem_cons.mpr ⟨hv, hvs⟩⟩
  | argumentRaises _ ih => exact ih hs (List.forall_mem_cons.mp ht).1
  | laterRaises _ _ iha ihr =>
    obtain ⟨hfirst, hrest⟩ := List.forall_mem_cons.mp ht
    obtain ⟨hs₁, -⟩ := iha hs hfirst
    exact ihr hs₁ hrest
  -- Applications
  | arity =>
    obtain ⟨-, ⟨f, args, hcall⟩, -⟩ := ht
    exact ⟨hs, _, hcall, .arity⟩
  | @returned _ _ _ captured _ _ _ _ _ _ _ _ _ ih
  | @bodyRaises _ _ _ captured _ _ _ _ _ _ _ _ _ ih =>
    obtain ⟨⟨own, hf⟩, -, hvs⟩ := ht
    exact ih (hs.ofCall captured hvs) (hQ _ hf _ (by simp [Node.children]))
  | @missingReturn _ _ _ captured _ _ _ _ _ _ _ _ _ ih =>
    obtain ⟨⟨own, hf⟩, -, hvs⟩ := ht
    obtain ⟨hs₁, -⟩ := ih (hs.ofCall captured hvs) (hQ _ hf _ (by simp [Node.children]))
    exact ⟨hs₁, _, hf, .missingReturn⟩
  -- Statements and blocks
  | expressionStatement _ ih | returnStatement _ ih | returnRaises _ ih | predicateRaises _ ih =>
    exact ih hs (hQ _ ht _ (by simp [Node.children]))
  | branchTrue _ _ ihp ihb | branchFalse _ _ _ ihp ihb =>
    obtain ⟨hs₁, -⟩ := ihp hs (hQ _ ht _ (by simp [Node.children]))
    exact ihb hs₁ (hQ _ ht _ (by simp [Node.children]))
  | branchNeither _ _ ih =>
    obtain ⟨hs₁, -⟩ := ih hs (hQ _ ht _ (by simp [Node.children]))
    exact ⟨hs₁, trivial⟩
  | badPredicate hp _ ih =>
    obtain ⟨hs₁, -⟩ := ih hs (hQ _ ht _ (by simp [Node.children]))
    exact ⟨hs₁, _, ht, .badPredicate (isExpressionNode_of_evaluates hp)⟩
  | block _ ih | program _ ih => exact ih hs ⟨trivial, fun n hn => hQ _ ht n hn⟩
  | noStatements | topLevelDone => exact ⟨hs, ht.1⟩
  | statement _ _ ihf ihr | topLevelStatement _ _ ihf ihr =>
    obtain ⟨hfirst, hrest⟩ := List.forall_mem_cons.mp ht.2
    obtain ⟨hs₁, hv⟩ := ihf hs hfirst
    exact ihr hs₁ ⟨hv, hrest⟩
  | statementReturns _ ih | statementRaises _ ih | topLevelRaises _ ih =>
    exact ih hs (List.forall_mem_cons.mp ht.2).1
  | topLevelReturn hfirst ih =>
    obtain ⟨hn, -⟩ := List.forall_mem_cons.mp ht.2
    obtain ⟨hs₁, -⟩ := ih hs hn
    exact ⟨hs₁, _, hn, .topLevelReturn (isStatementNode_of_evaluates hfirst)⟩

end Evaluation
end HangulScript
