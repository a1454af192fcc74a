import HangulScript.Proofs.Evaluation.Exhaustion
import HangulScript.Proofs.Evaluation.Realization
import HangulScript.Proofs.Tree.Heights

/-!
# How deeply evaluation goes

The tree does not bound an evaluation, for a call goes on in the body of whatever function it
finds, and that may call again.  If no function body holds a call, it does: a call in the program
goes on in one body, and there evaluation ends at the leaves.  So never more evaluations of
expressions are under way at one time than the height of the program and the height of its bodies
come to together (`activations_bounded`).

A function is found by its name, passed as an argument, returned, and called far from its literal.
Wherever it comes from, it is one of the literals of the program, provided that nothing but these
can be found to begin with.  This is the invariant: what is found from a scope of the run is
*bounded*, that is, a function has a body that can be evaluated with the levels that are left for
bodies, and its scope is one of the run again.  Evaluation keeps this up (`boundedUpkeep`).

## Counting

The rules evaluate an expression inside another by the evaluator one level down, and the bodies of
called functions too.  So an evaluator that is told how many evaluations are under way around it,
and tells those inside that it is one more, counts them (`countedExpression`).  It fails as soon
as there is one too many.  That it does the same as the evaluator, whatever it would fail with,
says that there never is.
-/

namespace HangulScript

/-- A function has a body that can be evaluated with the levels that are left for bodies, and was
made in a scope of a region.  The other values have no bodies. -/
def Value.Bounded (bodies : Nat) (R : ScopeId → Prop) : Value → Prop
  | .function _ _ body captured => body.Bounded bodies bodies .block ∧ R captured
  | .returned v => v.Bounded bodies R
  | _ => True

/-- The scopes that are yet to be made belong to a region, and from its scopes only bounded values
are found. -/
structure Store.Bounded (bodies : Nat) (R : ScopeId → Prop) (s : Store) : Prop where
  newer : ∀ id, s.scopes.size ≤ id → R id
  found : ∀ id name v, R id → s.get? id name = some v → v.Bounded bodies R

/-- A scope, and the scopes that are yet to be made. -/
def Store.OrNewer (s : Store) (scope id : ScopeId) : Prop := id = scope ∨ s.scopes.size ≤ id

variable {bodies : Nat} {R : ScopeId → Prop}

/-- A value without a function in it is bounded. -/
theorem Value.bounded_of_scopeless {v : Value} (h : v.scope? = none) : v.Bounded bodies R := by
  induction v with
  | function r ps body captured => cases h
  | returned v ih => exact ih h
  | _ => trivial

/-! ## Stores -/

namespace Store

variable {s : Store}

/-- Nothing is found from a scope that is not there. -/
theorem get?_of_le {id : ScopeId} (h : s.scopes.size ≤ id) (name : String) :
    s.get? id name = none := by
  rw [get?_eq, bindings_of_le h, parent?_of_le h]
  rfl

/-- After a name was bound, what is found is the new value or what was found before. -/
theorem get?_bind_or (s : Store) (id scope : ScopeId) (name name' : String) (value : Value) :
    (s.bind id name value).get? scope name' = some value ∨
      (s.bind id name value).get? scope name' = s.get? scope name' := by
  induction scope using Nat.strongRecOn with
  | _ scope ih =>
    rw [get?_eq, get?_eq s, lookup_bindings_bind, parent?_bind]
    split
    · exact Or.inl rfl
    · cases hp : s.parent? scope with
      | none => exact Or.inr rfl
      | some p =>
        simp only [Option.bind_some]
        rcases ih p (parent?_lt hp) with h | h
        · rw [h]
          cases List.lookup name' (s.bindings scope) with
          | none => exact Or.inl rfl
          | some w => exact Or.inr rfl
        · exact Or.inr (by rw [h])

/-- From the scopes before it, the same is found after a scope was made. -/
theorem get?_addChild_of_ne (s : Store) (parent : ScopeId) {id : Nat} (h : id ≠ s.scopes.size)
    (name : String) : (s.addChild parent).1.get? id name = s.get? id name := by
  induction id using Nat.strongRecOn with
  | _ id ih =>
    rw [get?_eq, get?_eq s, bindings_addChild, parent?_addChild, if_neg h]
    cases hp : s.parent? id with
    | none => rfl
    | some p =>
      have hlt : p < id := parent?_lt hp
      have hne : p ≠ s.scopes.size := by
        intro he
        rw [parent?_of_le (Nat.le_of_lt (he ▸ hlt))] at hp
        cases hp
      simp only [Option.bind_some, ih p hlt hne]

/-- From a new scope that is found which is found from the scope around it. -/
theorem get?_addChild_self (s : Store) (parent : ScopeId) (name : String) :
    (s.addChild parent).1.get? s.scopes.size name = s.get? parent name := by
  rw [get?_eq, bindings_addChild, bindings_of_le (Nat.le_refl _), parent?_addChild, if_pos rfl]
  by_cases hp : parent < s.scopes.size
  · rw [if_pos hp]
    exact get?_addChild_of_ne s parent (Nat.ne_of_lt hp) name
  · rw [if_neg hp, get?_of_le (Nat.le_of_not_lt hp)]
    rfl

namespace Bounded

theorem bind (h : s.Bounded bodies R) (id : ScopeId) (name : String) {v : Value}
    (hv : v.Bounded bodies R) : (s.bind id name v).Bounded bodies R := by
  refine ⟨fun other ho => h.newer other ?_, fun other name' w ho hw => ?_⟩
  · rwa [size_bind] at ho
  · rcases s.get?_bind_or id other name name' v with hnew | hold
    · rw [hnew] at hw
      cases hw
      exact hv
    · rw [hold] at hw
      exact h.found other name' w ho hw

theorem addChild (h : s.Bounded bodies R) {parent : ScopeId} (hp : R parent) :
    (s.addChild parent).1.Bounded bodies R ∧ R (s.addChild parent).2 := by
  refine ⟨⟨fun id hid => h.newer id ?_, fun id name v hid hv => ?_⟩, ?_⟩
  · rw [size_addChild] at hid
    exact Nat.le_of_succ_le hid
  · by_cases he : id = s.scopes.size
    · subst he
      rw [get?_addChild_self] at hv
      exact h.found parent name v hp hv
    · rw [get?_addChild_of_ne s parent he] at hv
      exact h.found id name v hid hv
  · rw [addChild_snd]
    exact h.newer _ (Nat.le_refl _)

/-- Where no function is found from a scope, that scope and those yet to be made are a region from
which only bounded values are found. -/
theorem of_scopeless {scope : ScopeId}
    (h : ∀ name v, s.get? scope name = some v → v.scope? = none) :
    s.Bounded bodies (s.OrNewer scope) := by
  refine ⟨fun id hid => Or.inr hid, fun id name v hid hv => ?_⟩
  rcases hid with rfl | hid
  · exact Value.bounded_of_scopeless (h name v hv)
  · rw [get?_of_le hid] at hv
    cases hv

end Bounded
end Store

namespace Evaluation

/-! ## Runs -/

/-- A failure that is no exhaustion, or one that comes of too few levels. -/
def Ordinary (enough : Prop) : Failure → Prop
  | .error e => e.cause ≠ .callStackExhausted
  | .exhausted => ¬ enough
  | .defect _ => True

theorem Ordinary.mono {enough enough' : Prop} (h : enough' → enough) :
    ∀ failure, Ordinary enough failure → Ordinary enough' failure
  | .error _, hf => hf
  | .exhausted, hf => fun he => hf (h he)
  | .defect _, hf => hf

/-- From bounded stores, two runs do the same; they leave bounded stores, come to a good result if
they come to any, and are not exhausted if there are enough levels. -/
abbrev Within (bodies : Nat) (R : ScopeId → Prop) (enough : Prop) {α : Type} (good : α → Prop)
    (x y : Run α) : Prop :=
  Upholds (Store.Bounded bodies R) (Ordinary enough) good x y

/-- Two evaluators do the same with the expressions that so many levels are enough for, and come
to bounded values. -/
def Evaluator.Within (bodies levels : Nat) (R : ScopeId → Prop) (enough : Prop)
    (eval eval' : Evaluator) : Prop :=
  ∀ node scope, node.Bounded bodies levels .expression → R scope →
    Evaluation.Within bodies R enough (Value.Bounded bodies R) (eval node scope) (eval' node scope)

/-! ## Levels as an upkeep -/

/-- The trees that so many levels are enough for, one level more for expressions further out, and
the bounded values. -/
def boundedSorts (bodies levels : Nat) (R : ScopeId → Prop) : Sorts where
  allows role _ n := n.Bounded bodies levels role
  outer scope n := n.Bounded bodies (levels + 1) .expression ∧ R scope
  good := Value.Bounded bodies R
  vacates _ := True
  binds _ _ := True
  part h hr hp := h.part hp hr
  operand h hp := h.1.operand hp
  makes h hv := by
    cases hv with
    | function => exact ⟨h.1.body, h.2⟩
    | unary hm => cases hm <;> trivial
    | binary hm => cases hm <;> trivial
    | _ => trivial
  content h := h
  target _ _ := trivial
  emptyBranch _ := trivial
  emptyBlock _ := trivial
  emptyProgram _ := trivial

/-- A bounded function was made in a scope of the region. -/
theorem region_of_bounded {v : Value} (h : v.Bounded bodies R) {c : ScopeId}
    (hc : v.scope? = some c) : R c := by
  induction v with
  | function r params body captured =>
    cases hc
    exact h.2
  | returned v ih => exact ih h hc
  | _ => cases hc

/-- **Evaluation keeps within the levels.**  No rule is exhausted. -/
def boundedUpkeep (bodies levels : Nat) (R : ScopeId → Prop) (enough : Prop) : Upkeep where
  toSorts := boundedSorts bodies levels R
  inv := Store.Bounded bodies R
  bad := Ordinary enough
  region := R
  fails h := by
    cases h with
    | error _ he => exact he
    | _ => trivial
  found h hid hv := ⟨h.found _ _ _ hid hv, fun _ => region_of_bounded (h.found _ _ _ hid hv)⟩
  bound h _ _ hv _ := h.bind _ _ hv

section Rules

variable {levels verbosity : Nat} {enough : Prop} {eval eval' : Evaluator} {scope : ScopeId}

/-- Functions can be called, if as many levels are left as bodies may need. -/
theorem boundedUpkeep_makesScopes (hl : bodies ≤ levels) :
    (boundedUpkeep bodies levels R enough).MakesScopes := by
  intro s r params body captured hs hf
  obtain ⟨hstore, hid⟩ := hs.addChild hf.1.2
  exact ⟨hstore, hid, hf.1.1.mono hl, fun _ _ _ _ => trivial⟩

theorem Evaluator.Within.compares (he : eval.Within bodies levels R enough eval') :
    (boundedUpkeep bodies levels R enough).Compares eval eval' :=
  fun node scope h hs => (he node scope h hs).imp fun _ hv => ⟨hv, fun _ => region_of_bounded hv⟩

/-- **One expression more takes one level more.** -/
theorem within_expressionWith (he : eval.Within bodies levels R enough eval') :
    Evaluator.Within bodies (levels + 1) R enough (expressionWith verbosity eval)
      (expressionWith verbosity eval') := by
  intro node scope h hs
  refine ((boundedUpkeep bodies levels R enough).expressionWith he.compares hs ⟨h, hs⟩ ?_).imp
    fun _ hv => hv.1
  rintro r callee args rfl
  exact boundedUpkeep_makesScopes h.bodies_le

theorem within_programWith (he : eval.Within bodies levels R enough eval') (hs : R scope)
    {node : Node} (h : node.Bounded bodies levels .program) :
    Within bodies R enough (fun _ => True) (programWith verbosity eval scope node)
      (programWith verbosity eval' scope node) :=
  ((boundedUpkeep bodies levels R enough).programWith he.compares hs h
    fun _ _ => Cause.noConfusion).imp fun _ _ => trivial

end Rules

/-! ## All levels -/

/-- An evaluator that is entered only where fewer than so many evaluations of expressions are under
way; one too many is a breach. -/
def Evaluator.counted (bound active : Nat) (breach : Failure) (eval : Evaluator) : Evaluator :=
  fun node scope => if active < bound then eval node scope else Run.fail breach

/-- Evaluates an expression where some number of others are under way, itself not counted. -/
def countedExpression (bound : Nat) (breach : Failure) (verbosity : Nat) :
    (limit active : Nat) → Evaluator
  | 0, active => Evaluator.counted bound active breach fun _ _ => Run.fail .exhausted
  | limit + 1, active =>
    Evaluator.counted bound active breach
      (expressionWith verbosity (countedExpression bound breach verbosity limit (active + 1)))

/-- **Evaluating an expression stays within its levels**: it goes on where no more than the bound
are under way, and it is exhausted only if there are fewer levels than it may need. -/
theorem within_expression {bound : Nat} (breach : Failure) (verbosity limit : Nat)
    {active levels : Nat} (hb : active + levels ≤ bound) :
    Evaluator.Within bodies levels R (levels ≤ limit) (expression verbosity limit)
      (countedExpression bound breach verbosity limit active) := by
  induction limit generalizing active levels with
  | zero =>
    intro node scope h _
    have hlevels := h.levels_pos
    have hactive : active < bound := by omega
    rw [countedExpression, Evaluator.counted, if_pos hactive]
    exact .fail (Nat.not_le_of_lt hlevels)
  | succ limit ih =>
    intro node scope h hs
    obtain ⟨rest, rfl⟩ := Nat.exists_eq_add_one.mpr h.levels_pos
    have hactive : active < bound := by omega
    rw [countedExpression, Evaluator.counted, if_pos hactive]
    have hinner : Evaluator.Within bodies rest R (rest ≤ limit) (expression verbosity limit)
        (countedExpression bound breach verbosity limit (active + 1)) := ih (by omega)
    exact (within_expressionWith hinner node scope h hs).mono (Ordinary.mono Nat.le_of_succ_le_succ)
      fun _ hv => hv

/-- **Without calls in functions, evaluation is bounded by the tree.**  Let a program tree of the
shapes that trees have by definition hold no call in the body of a function literal, and let it be
evaluated in a scope from which no function is found.  With any limit, never more evaluations of
expressions are under way at one time than the height of the tree and the height of its bodies
come to together.  And with this limit or any higher one the run is one and the same, and it does
not end in exhaustion. -/
theorem activations_bounded (verbosity : Nat) (scope : ScopeId) (tree : Node) (m : Machine)
    (hfits : Node.fits .program tree = true) (hcalls : tree.CallsOutside)
    (henv : ∀ name v, m.store.get? scope name = some v → v.scope? = none) :
    (∀ limit breach, programWith verbosity
        (countedExpression (tree.height + tree.bodyHeight) breach verbosity limit 0) scope tree m =
      programWith verbosity (expression verbosity limit) scope tree m) ∧
    ∀ limit, tree.height + tree.bodyHeight ≤ limit →
      (∀ r, (program verbosity limit scope tree m).1 ≠ .error (.error ⟨.callStackExhausted, r⟩)) ∧
        program verbosity limit scope tree m =
          program verbosity (tree.height + tree.bodyHeight) scope tree m := by
  have hbounded : tree.Bounded tree.bodyHeight (tree.height + tree.bodyHeight) .program :=
    .of_fits hfits hcalls
  generalize tree.height + tree.bodyHeight = bound at hbounded ⊢
  have hwithin (limit : Nat) (breach : Failure) :
      Within tree.bodyHeight (m.store.OrNewer scope) (bound ≤ limit) (fun _ => True)
        (programWith verbosity (expression verbosity limit) scope tree)
        (programWith verbosity (countedExpression bound breach verbosity limit 0) scope tree) :=
    within_programWith (within_expression breach verbosity limit (Nat.le_of_eq bound.zero_add))
      (Or.inl rfl) hbounded
  have hstore : m.store.Bounded tree.bodyHeight (m.store.OrNewer scope) := .of_scopeless henv
  have hnever (limit : Nat) (hl : bound ≤ limit) (r : Range) :
      (program verbosity limit scope tree m).1 ≠ .error (.error ⟨.callStackExhausted, r⟩) := by
    intro he
    obtain ⟨-, -, hends⟩ := hwithin limit .exhausted m hstore
    rw [program_eq] at he
    cases hx : (programWith verbosity (expression verbosity limit) scope tree m).1 with
    | ok v =>
      rw [hx] at he
      cases he
    | error failure =>
      rw [hx] at he hends
      cases failure with
      | exhausted => exact hends hl
      | error e =>
        cases he
        exact hends rfl
      | defect d => cases he
  refine ⟨fun limit breach => ((hwithin limit breach m hstore).1).symm, fun limit hl =>
    ⟨hnever limit hl, ?_⟩⟩
  rcases program_of_le verbosity hl scope tree m with ⟨h, -⟩ | ⟨h, -⟩
  · exact h.symm
  · exact absurd h (hnever bound (Nat.le_refl bound) _)

/-- A function is bound, and called with itself; it comes back and is called again.  Four levels
are enough, whatever the limit. -/
theorem activations_bounded_returned :
    let here := Range.point Position.origin
    let name (text : String) := Node.identifier here text
    let identity := Node.function here [name "ㄴ"] (.block here [.returnStatement here (name "ㄴ")])
    let tree := Node.program here
      [.expressionStatement here (.assignment here (name "ㅎ") identity),
        .expressionStatement here
          (.call here (.call here (name "ㅎ") [name "ㅎ"]) [.boolean here true])]
    let m : Machine := ⟨Store.empty.addRoot.1, []⟩
    Node.fits .program tree = true ∧ tree.CallsOutside ∧
      (∀ name v, m.store.get? 0 name = some v → v.scope? = none) ∧
      tree.height + tree.bodyHeight = 4 ∧ (program 0 4 0 tree m).1 = .ok (.boolean here true) ∧
      (∀ limit breach, programWith 0 (countedExpression 4 breach 0 limit 0) 0 tree m =
        programWith 0 (expression 0 limit) 0 tree m) ∧
      ∀ limit, 4 ≤ limit → program 0 limit 0 tree m = program 0 4 0 tree m := by
  intro here name identity tree m
  have hfits : Node.fits .program tree = true := rfl
  have hcalls : tree.CallsOutside := by decide +kernel
  have hbound : tree.height + tree.bodyHeight = 4 := by decide +kernel
  have henv (name : String) (v : Value) (hv : m.store.get? 0 name = some v) : v.scope? = none := by
    have hnone : m.store.get? 0 name = none := rfl
    rw [hnone] at hv
    cases hv
  obtain ⟨hcount, hlimit⟩ := activations_bounded 0 0 tree m hfits hcalls henv
  rw [hbound] at hcount hlimit
  exact ⟨hfits, hcalls, henv, hbound, by decide +kernel, hcount,
    fun limit hl => (hlimit limit hl).2⟩

end Evaluation
end HangulScript
