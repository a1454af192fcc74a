import HangulScript.Proofs.Evaluation.Upkeep

/-!
# Disciplines

Much of what is to be said about evaluation has one form: *trees of this sort only ever make
values of that sort*.  A discipline is such a pair of sorts, with what evaluation needs of
them.  The sort of trees is closed under parts; the sort of values holds what literals,
operators and functions of such trees give; a function of the sort of values has a body of
the sort of trees.

What evaluation then keeps is confinement.  A *region* is a set of scopes that is closed under
parents and under the scopes of functions bound in it.  A store is confined to a region if
whatever is bound there is of the sort.  Evaluating in a scope of the region stays in it:
lookups find what is of the sort, bindings put in what is of the sort, and calls make scopes
that belong to the region as all scopes yet to be made do.

So a discipline and a region make an upkeep (`Discipline.upkeep`), and what is said of upkeeps is
said of them.  In particular, an evaluator that does something else as soon as a store, a value or a
failure is out of bounds does the same as the evaluator (`stays_expression`): this happens at no
point of an evaluation, however deep inside.
-/

namespace HangulScript

namespace Value

/-- Whether a value is empty. -/
def isEmpty : Value → Bool
  | .empty _ => true
  | _ => false

/-- The types of first-class values. -/
def firstClassTypes : List String := ["Number", "Boolean", "String", "Function"]

theorem typeName_mem_of_isFirstClass {v : Value} (h : v.isFirstClass = true) :
    v.typeName ∈ firstClassTypes := by
  cases v <;> first | cases h; done | simp [typeName, firstClassTypes]

theorem isEmpty_of_isFirstClass {v : Value} (h : v.isFirstClass = true) : v.isEmpty = false := by
  cases v <;> first | rfl | cases h

end Value

namespace Evaluation

open Node (Role Part)

/-- A sort of trees, for each role, and a sort of values, so that the trees make only such
values.  The empty value is none of them; the ranges it may have are told apart.  Trees that
are *shaped* have no node where evaluation cannot take it. -/
structure Discipline where
  allows : Role → Node → Prop
  admits : Value → Prop
  vacates : Range → Prop
  shaped : Prop
  part {role role' : Role} {n m : Node} : allows role n → Part role n role' m → allows role' m
  serves {role : Role} {n : Node} : shaped → allows role n → n.serves role = true
  firstClass {v : Value} : admits v → v.isFirstClass = true
  number {r : Range} {x : Double} : allows .expression (.number r x) → admits (.number r x)
  boolean {r : Range} {b : Bool} : allows .expression (.boolean r b) → admits (.boolean r b)
  string {r : Range} {text : String} : allows .expression (.string r text) →
    admits (.string r text)
  sign {r : Range} {op : String} {e : Node} {x : Double} : allows .expression (.unary r op e) →
    op = "+" ∨ op = "-" → admits (.number r x)
  negation {r : Range} {e : Node} {b : Bool} : allows .expression (.unary r "!" e) →
    admits (.boolean r b)
  arithmetic {r : Range} {op : String} {e e' : Node} {x : Double} :
    allows .expression (.binary r op e e') → op ∈ Operator.arithmeticOperators →
      admits (.number r x)
  comparison {r : Range} {op : String} {e e' : Node} {b : Bool} :
    allows .expression (.binary r op e e') → op ∈ Operator.comparisons → admits (.boolean r b)
  function {r : Range} {ps : List Node} {b : Node} {scope : ScopeId} :
    allows .expression (.function r ps b) → admits (.function r ps b scope)
  parameters {r : Range} {ps : List Node} {b : Node} {scope : ScopeId} :
    admits (.function r ps b scope) → ∀ p ∈ ps, allows .parameter p
  body {r : Range} {ps : List Node} {b : Node} {scope : ScopeId} :
    admits (.function r ps b scope) → allows .block b
  emptyBranch {r : Range} {p c a : Node} : allows .statement (.branch r p c a) → vacates r
  emptyBlock {n : Node} : allows .block n → vacates n.range
  emptyProgram {n : Node} : allows .program n → vacates n.range

variable {D : Discipline} {R : ScopeId → Prop}

namespace Discipline

/-- A value of the sort; if it is a function, it was made in the region. -/
def Good (D : Discipline) (R : ScopeId → Prop) (v : Value) : Prop :=
  D.admits v ∧ ∀ c, v.scope? = some c → R c

/-- What a statement or a block can end with: a value of the sort, such a value on its way out
of a call, or nothing. -/
inductive Completes (D : Discipline) (R : ScopeId → Prop) : Value → Prop
  | value {v : Value} : D.Good R v → Completes D R v
  | returned {v : Value} : D.Good R v → Completes D R (.returned v)
  | empty {r : Range} : D.vacates r → Completes D R (.empty r)

/-- What a program can end with. -/
def Concludes (D : Discipline) (R : ScopeId → Prop) (v : Value) : Prop :=
  D.Completes R v ∧ v.isReturned = false

/-- How evaluating a tree of the sort can fail.  Errors name first-class types only.  No
operator is asked for a job that is not its own, and no text is asked of a marker, whatever
the tree. -/
def Fails (D : Discipline) : Failure → Prop
  | .error e => ∀ type ∈ e.cause.typeNames, type ∈ Value.firstClassTypes
  | .exhausted => True
  | .defect (.unknownOperator _) | .defect .noText => False
  | .defect _ => ¬ D.shaped

/-- A store that has only values of the sort in a region, which is closed, and to which the
scopes that are yet to be made belong. -/
structure Confined (D : Discipline) (R : ScopeId → Prop) (s : Store) : Prop where
  newer : ∀ id, s.scopes.size ≤ id → R id
  parent : ∀ id p, R id → s.parent? id = some p → R p
  bound : ∀ id name v, R id → (s.bindings id).lookup name = some v → D.Good R v

theorem Completes.text {v : Value} (h : D.Completes R v) (hr : v.isReturned = false) :
    ∃ text, v.text? = some text := by
  cases h with
  | value hv => exact Value.exists_text_of_isFirstClass (D.firstClass hv.1)
  | returned => cases hr
  | empty => exact ⟨_, rfl⟩

theorem Good.isFirstClass {v : Value} (h : D.Good R v) : v.isFirstClass = true :=
  D.firstClass h.1

/-- An error whose message names no type. -/
theorem fails_of_unnamed (D : Discipline) {cause : Cause} {range : Range}
    (h : cause.typeNames = []) :
    D.Fails (.error ⟨cause, range⟩) := by
  intro type ht
  rw [h] at ht
  cases ht

/-- A parameter that is no name is no part of a shaped tree. -/
theorem not_shaped_of_name {p : Node} (h : D.allows .parameter p) (hp : p.name? = none) :
    ¬ D.shaped := by
  intro hs
  have := D.serves hs h
  rw [Node.serves, hp] at this
  cases this

/-! ## Stores -/

namespace Confined

variable {s : Store}

/-- What is found from a scope of the region is of the sort. -/
theorem get? (h : D.Confined R s) {id : ScopeId} (hid : R id) {name : String} {v : Value}
    (hv : s.get? id name = some v) : D.Good R v := by
  induction id using Nat.strongRecOn with
  | _ id ih =>
    rw [Store.get?_eq, Option.or_eq_some_iff] at hv
    rcases hv with hv | ⟨-, hv⟩
    · exact h.bound id name v hid hv
    · obtain ⟨p, hp, hv⟩ := Option.bind_eq_some_iff.mp hv
      exact ih p (Store.parent?_lt hp) (h.parent id p hid hp) hv

theorem bind (h : D.Confined R s) (id : ScopeId) (name : String) {v : Value} (hv : D.Good R v) :
    D.Confined R (s.bind id name v) := by
  refine ⟨?_, ?_, ?_⟩
  · intro other ho
    rw [Store.size_bind] at ho
    exact h.newer other ho
  · intro other p ho hp
    rw [Store.parent?_bind] at hp
    exact h.parent other p ho hp
  · intro other name' w ho hw
    rw [Store.lookup_bindings_bind] at hw
    split at hw
    · cases hw
      exact hv
    · exact h.bound other name' w ho hw

theorem addChild (h : D.Confined R s) {parent : ScopeId} (hp : R parent) :
    D.Confined R (s.addChild parent).1 ∧ R (s.addChild parent).2 := by
  refine ⟨⟨?_, ?_, ?_⟩, ?_⟩
  · intro id hid
    rw [Store.size_addChild] at hid
    exact h.newer id (by omega)
  · intro id p hid hq
    rw [Store.parent?_addChild] at hq
    split at hq
    · split at hq
      · cases hq
        exact hp
      · cases hq
    · exact h.parent id p hid hq
  · intro id name v hid hv
    rw [Store.bindings_addChild] at hv
    exact h.bound id name v hid hv
  · unfold Store.addChild
    split <;> exact h.newer _ (Nat.le_refl _)

end Confined
end Discipline

/-! ## Runs -/

/-- From confined stores, two runs do the same, and they stay in bounds: they leave a confined
store, give a good result, or fail as the discipline lets them. -/
def Stays (D : Discipline) (R : ScopeId → Prop) {α : Type} (good : α → Prop) (x y : Run α) : Prop :=
  ∀ m : Machine, D.Confined R m.store →
    x m = y m ∧ D.Confined R (x m).2.store ∧ Ends good D.Fails (x m).1

theorem Stays.self {α : Type} {good : α → Prop} {x y : Run α} (h : Stays D R good x y) :
    Stays D R good x x :=
  Upholds.self h

/-- Two evaluators agree and stay in bounds. -/
def Evaluator.Stays (D : Discipline) (R : ScopeId → Prop) (eval eval' : Evaluator) : Prop :=
  ∀ node scope, D.allows .expression node → R scope →
    Evaluation.Stays D R (D.Good R) (eval node scope) (eval' node scope)

/-! ## Disciplines as upkeeps -/

namespace Discipline

/-- The values that a tree of the sort makes itself are of the sort. -/
theorem admits_of_makes {scope : ScopeId} {n : Node} {v : Value} (h : D.allows .expression n)
    (hv : Makes scope n v) : D.admits v := by
  cases hv with
  | number => exact D.number h
  | boolean => exact D.boolean h
  | string => exact D.string h
  | function => exact D.function h
  | unary hm =>
    cases hm with
    | plus => exact D.sign h (Or.inl rfl)
    | minus => exact D.sign h (Or.inr rfl)
    | negation => exact D.negation h
  | binary hm =>
    cases hm with
    | arithmetic hz => exact D.arithmetic h (mem_of_arithmetic hz)
    | comparison _ hb => exact D.comparison h (mem_of_holds hb)

/-- The sorts of a discipline. -/
def sorts (D : Discipline) : Sorts where
  allows role _ n := D.allows role n
  outer _ n := D.allows .expression n
  good := D.admits
  vacates := D.vacates
  binds _ _ := True
  part h _ hp := D.part h hp
  operand h hp := D.part h hp
  makes := D.admits_of_makes
  content h := absurd (D.firstClass h) Bool.false_ne_true
  target _ _ := trivial
  emptyBranch := D.emptyBranch
  emptyBlock := D.emptyBlock
  emptyProgram := D.emptyProgram

/-- What the rules come to, a discipline lets them come to. -/
theorem fails_of_blames {failure : Failure} (h : D.sorts.Blames failure) : D.Fails failure := by
  cases h with
  | error _ _ ht =>
    intro type hm
    obtain ⟨v, hv, rfl⟩ := ht type hm
    exact Value.typeName_mem_of_isFirstClass (D.firstClass hv)
  | @misplaced role scope n d hn hserves hop htext =>
    have hshaped : ¬ D.shaped := fun hs => Bool.false_ne_true (hserves ▸ D.serves hs hn)
    cases d with
    | unknownOperator operator => exact absurd rfl (hop operator)
    | noText => exact absurd rfl htext
    | _ => exact hshaped
  | noExpression hn hserves => exact fun hs => Bool.false_ne_true (hserves ▸ D.serves hs hn)
  | noName hf hp hname => exact D.not_shaped_of_name (D.parameters hf _ hp) hname
  | noText hv ht =>
    obtain ⟨text, hx⟩ := Value.exists_text_of_isFirstClass (D.firstClass hv)
    rw [ht] at hx
    cases hx

/-- **Evaluation keeps a discipline**, in a region: confinement is kept up. -/
def upkeep (D : Discipline) (R : ScopeId → Prop) : Upkeep where
  toSorts := D.sorts
  inv := D.Confined R
  bad := D.Fails
  region := R
  fails := fails_of_blames
  found h hid hv := h.get? hid hv
  bound h _ _ hv hscope := h.bind _ _ ⟨hv, hscope⟩

/-- The scopes that calls make belong to the region. -/
theorem makesScopes (D : Discipline) (R : ScopeId → Prop) : (D.upkeep R).MakesScopes := by
  intro s r params body captured hs hf
  obtain ⟨hstore, hid⟩ := hs.addChild (hf.2 captured rfl)
  exact ⟨hstore, hid, D.body hf.1, fun _ _ _ _ => trivial⟩

theorem completes_of_upkeep {always : Bool} {holds vacant : Prop} {v : Value}
    (h : (D.upkeep R).Completes always holds vacant v) :
    D.Completes R v ∧ (v.isEmpty = true → vacant) := by
  cases h with
  | value hv =>
    refine ⟨.value hv, ?_⟩
    rw [Value.isEmpty_of_isFirstClass (Good.isFirstClass hv)]
    exact Bool.noConfusion
  | returned hv => exact ⟨.returned hv, Bool.noConfusion⟩
  | empty hr _ he => exact ⟨.empty hr, fun _ => he⟩

end Discipline

section Rules

variable {verbosity : Nat} {eval eval' : Evaluator} {scope : ScopeId} (he : eval.Stays D R eval')

include he

theorem stays_statement (hs : R scope) (node : Node) (h : D.allows .statement node) :
    Stays D R (fun v => D.Completes R v ∧ (v.isEmpty = true → node.isBranch = true))
      (statement verbosity eval scope node) (statement verbosity eval' scope node) :=
  ((D.upkeep R).statement he hs h).imp fun _ => Discipline.completes_of_upkeep

theorem stays_block (hs : R scope) (node : Node) (h : D.allows .block node) :
    Stays D R (D.Completes R) (block verbosity eval scope node)
      (block verbosity eval' scope node) :=
  ((D.upkeep R).block he hs h).imp fun _ hv => (Discipline.completes_of_upkeep hv).1

/-- **A call stays in bounds**: the scope it makes belongs to the region, and what comes out of
it is what was on its way out of the body. -/
theorem stays_callFunction {r range : Range} {params : List Node} {body : Node} {captured : ScopeId}
    {values : List Value} (hf : D.Good R (.function r params body captured))
    (hv : ∀ v ∈ values, D.Good R v) :
    Stays D R (D.Good R) (callFunction verbosity eval params body captured values range)
      (callFunction verbosity eval' params body captured values range) :=
  (D.upkeep R).callFunction he (D.makesScopes R) hf hv

theorem stays_arguments (hs : R scope) {args : List Node}
    (h : ∀ a ∈ args, D.allows .expression a) :
    Stays D R (fun values => ∀ v ∈ values, D.Good R v) (arguments eval scope args)
      (arguments eval' scope args) :=
  (D.upkeep R).arguments he hs h

theorem stays_expressionWith :
    Evaluator.Stays D R (expressionWith verbosity eval) (expressionWith verbosity eval') :=
  fun _ _ h hs => (D.upkeep R).expressionWith he hs h fun _ _ _ _ => D.makesScopes R

theorem stays_programWith (hs : R scope) {node : Node} (h : D.allows .program node) :
    Stays D R (D.Concludes R) (programWith verbosity eval scope node)
      (programWith verbosity eval' scope node) :=
  ((D.upkeep R).programWith he hs h fun _ _ => D.fails_of_unnamed rfl).imp
    fun _ hv => ⟨(Discipline.completes_of_upkeep hv.1).1, hv.2⟩

end Rules

/-! ## All levels -/

/-- A test of one evaluation of an expression: the node, the scope, the machine before, and how
it ended. -/
abbrev Test := Node → ScopeId → Machine → Except Failure Value × Machine → Bool

/-- An evaluator whose evaluations are tested: one that does not pass fails. -/
def Evaluator.tested (test : Test) (breach : Failure) (eval : Evaluator) : Evaluator :=
  fun node scope m =>
    let result := eval node scope m
    if test node scope m result then result else (.error breach, result.2)

/-- Evaluates an expression, and tests its evaluation and those of all expressions that are
evaluated on the way. -/
def testedExpression (test : Test) (breach : Failure) (verbosity : Nat) : (limit : Nat) → Evaluator
  | 0 => fun _ _ => Run.fail .exhausted
  | limit + 1 =>
    Evaluator.tested test breach
      (expressionWith verbosity (testedExpression test breach verbosity limit))

/-- A test that evaluations pass if they stay in bounds. -/
def Test.Allows (test : Test) (D : Discipline) (R : ScopeId → Prop) : Prop :=
  ∀ node scope m result, R scope → D.Confined R m.store → D.Confined R result.2.store →
    Ends (D.Good R) D.Fails result.1 → test node scope m result = true

/-- **Evaluating an expression stays in bounds, and so does everything on the way**: no test of
the bounds ever fails. -/
theorem stays_expression {test : Test} (ht : test.Allows D R) (breach : Failure)
    (verbosity limit : Nat) :
    Evaluator.Stays D R (expression verbosity limit)
      (testedExpression test breach verbosity limit) := by
  induction limit with
  | zero => exact fun node scope _ _ => Upholds.fail trivial
  | succ limit ih =>
    intro node scope hnode hs m hm
    obtain ⟨heq, hstore, hends⟩ := stays_expressionWith ih node scope hnode hs m hm
    refine ⟨?_, hstore, hends⟩
    have hpass := ht node scope m _ hs hm hstore hends
    show expressionWith verbosity _ node scope m = Evaluator.tested test breach _ node scope m
    rw [Evaluator.tested, ← heq, if_pos hpass]

theorem stays_expression_self (verbosity limit : Nat) :
    Evaluator.Stays D R (expression verbosity limit) (expression verbosity limit) := by
  have ht : Test.Allows (fun _ _ _ _ => true) D R := fun _ _ _ _ _ _ _ _ => rfl
  exact fun node scope hnode hs =>
    (stays_expression ht .exhausted verbosity limit node scope hnode hs).self

/-- **Programs stay in bounds.** -/
theorem stays_program (verbosity limit : Nat) {scope : ScopeId} (hs : R scope) {node : Node}
    (h : D.allows .program node) :
    Stays D R (D.Concludes R) (program verbosity limit scope node)
      (program verbosity limit scope node) :=
  Upholds.program (stays_programWith (stays_expression_self verbosity limit) hs h)
    fun _ => D.fails_of_unnamed rfl

/-! ## Where a region begins -/

/-- What can be reached from some scopes, and the scopes yet to be made. -/
def Region (s : Store) (origin : ScopeId → Prop) (id : ScopeId) : Prop :=
  s.Reaches origin id ∨ s.scopes.size ≤ id

/-- A store is confined to what can be reached, if what is bound there is of the sort. -/
theorem confined_region {s : Store} {origin : ScopeId → Prop}
    (h : ∀ id, s.Reaches origin id → ∀ name v, (s.bindings id).lookup name = some v →
      D.admits v) : D.Confined (Region s origin) s := by
  refine ⟨fun id hid => Or.inr hid, ?_, ?_⟩
  · rintro id p (hid | hid) hp
    · exact Or.inl (hid.parent hp)
    · rw [Store.parent?_of_le hid] at hp
      cases hp
  · rintro id name v (hid | hid) hv
    · exact ⟨h id hid name v hv, fun c hc => Or.inl (hid.captured hv hc)⟩
    · rw [Store.bindings_of_le hid] at hv
      cases hv

/-- What can be reached from a region is in it. -/
theorem Discipline.Confined.of_reaches {s : Store} {origin : ScopeId → Prop}
    (h : D.Confined R s) (ho : ∀ id, origin id → R id) {id : ScopeId} (hr : s.Reaches origin id) :
    R id := by
  induction hr with
  | here hid => exact ho _ hid
  | parent _ hp ih => exact h.parent _ _ ih hp
  | captured _ hv hc ih => exact (h.bound _ _ _ ih hv).2 _ hc

end Evaluation
end HangulScript
