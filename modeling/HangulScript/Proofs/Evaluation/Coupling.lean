import HangulScript.Proofs.Evaluation.Rules
import HangulScript.Proofs.Evaluation.Variation
import HangulScript.Proofs.Tree.Returns
import HangulScript.Proofs.Tree.Shapes
import Mathlib.Order.Basic

/-!
# One pass through the rules

Most of what is proved about evaluation is proved by going through the rules: what each part of a
tree does is put together to what the tree does.  It may be that a store keeps some property, that
values are of some sort, that two evaluators do the same, or that two trees come to the same in two
stores.  The rules are gone through in this module, once, for all of these.

## What is compared

Two evaluations are compared, side by side.  The second may be told in several ways, one for each
index of a type.  What is related on the two sides is a `Pairing`: trees that are variants of one
another, scopes, and values that are equal up to these.  On the first side there are, besides, a
sort of trees and a sort of values (`Sorts`), so that the trees make only such values.  All this
may depend on a *world*, which grows while the evaluation goes on.  What is known in a world is
known in every later one.

## How runs are compared

How two runs are compared is left open.  A `Coupling` is any relation between runs that has a rule
for each thing that evaluating does with a machine, a rule for doing one thing after the other,
and one for the failures that evaluation may come to (`Sorts.Blames`).  To prove something about
evaluation is then to define a coupling.  When a rule of evaluation changes, it is this module
that has to be changed, and no coupling.

## What the rules do not do

Three things are not part of the pass, since couplings differ in them.  The levels are one: to be
exhausted is no rule's doing.  Making the scope of a call is another; it is asked for as a
hypothesis (`Coupling.Calls`).  The third is a return that reaches the program, which is asked for
as well (`Coupling.LetsEscape`).

## What is compared elsewhere

Evaluations at two verbosities are no case of this, and `Comparison` goes through the rules for
them by itself.  What one side records, the other may not even have a text for, so that a step of
the one has no counterpart on the other, and a call may fail earlier on one side than on the
other.  Rules for one thing after the other do not do there; the steps that are still to come
have to be looked at.
-/

namespace HangulScript

/-- The types that the message of a cause names. -/
def Cause.typeNames : Cause → List String
  | badPredicate type | badUnary _ type | notCallable type => [type]
  | badBinary _ left right => [left, right]
  | _ => []

/-- If not all parameters are names, one of them is not. -/
theorem Value.exists_of_paramNames?_eq_none {params : List Node}
    (h : paramNames? params = none) : ∃ p ∈ params, p.name? = none := by
  induction params with
  | nil => cases h
  | cons p params ih =>
    cases hp : p.name? with
    | none => exact ⟨p, List.mem_cons_self .., hp⟩
    | some name =>
      rw [paramNames?, List.mapM_cons, hp] at h
      cases hn : params.mapM Node.name? with
      | none =>
        obtain ⟨q, hq, hname⟩ := ih hn
        exact ⟨q, List.mem_cons_of_mem p hq, hname⟩
      | some names =>
        rw [hn] at h
        cases h

namespace Evaluation

open Node (Role Part Variant VariantAll VariantStatements)

/-! ## Sorts of trees and of values -/

/-- The values that an expression makes itself when it is evaluated in a scope: those of literals,
and the results of operators.  All others come from its parts, or are found. -/
inductive Makes (scope : ScopeId) : Node → Value → Prop
  | number {r : Range} {x : Double} : Makes scope (.number r x) (.number r x)
  | boolean {r : Range} {b : Bool} : Makes scope (.boolean r b) (.boolean r b)
  | string {r : Range} {text : String} : Makes scope (.string r text) (.string r text)
  | function {r : Range} {params : List Node} {body : Node} :
      Makes scope (.function r params body) (.function r params body scope)
  | unary {r : Range} {op : String} {e : Node} {v w : Value} : FrontMeans r op v w →
      Makes scope (.unary r op e) w
  | binary {r : Range} {op : String} {a b : Node} {v v' w : Value} : InfixMeans r op v v' w →
      Makes scope (.binary r op a b) w

/-- Sorts of trees, of values and of what else evaluation deals with, so that trees make values of
the sort only.  The sort of trees is closed under the parts that are evaluated with a tree. -/
structure Sorts where
  /-- The trees that may be evaluated in a role and in a scope. -/
  allows : Role → ScopeId → Node → Prop
  /-- The expressions that may be evaluated one level further out. -/
  outer : ScopeId → Node → Prop
  /-- The values that expressions may have. -/
  good : Value → Prop
  /-- The ranges that empty values may have. -/
  vacates : Range → Prop
  /-- The names that may be bound in a scope. -/
  binds : ScopeId → String → Prop
  part {role role' : Role} {scope : ScopeId} {n m : Node} : allows role scope n →
    role ≠ .expression → Part role n role' m → allows role' scope m
  operand {scope : ScopeId} {n m : Node} : outer scope n → Part .expression n .expression m →
    allows .expression scope m
  makes {scope : ScopeId} {n : Node} {v : Value} : outer scope n → Makes scope n v → good v
  content {v : Value} : good (.returned v) → good v
  target {scope : ScopeId} {r : Range} {a b : Node} {name : String} :
    outer scope (.assignment r a b) → a.name? = some name → binds scope name
  emptyBranch {scope : ScopeId} {r : Range} {p c a : Node} :
    allows .statement scope (.branch r p c a) → vacates r
  emptyBlock {scope : ScopeId} {n : Node} : allows .block scope n → vacates n.range
  emptyProgram {scope : ScopeId} {n : Node} : allows .program scope n → vacates n.range

namespace Sorts

/-- All trees and all values, in some scopes. -/
def inScopes (among : ScopeId → Prop) : Sorts where
  allows _ scope _ := among scope
  outer scope _ := among scope
  good _ := True
  vacates _ := True
  binds scope _ := among scope
  part h _ _ := h
  operand h _ := h
  makes _ _ := trivial
  content _ := trivial
  target h _ := h
  emptyBranch _ := trivial
  emptyBlock _ := trivial
  emptyProgram _ := trivial

/-- All trees and all values. -/
def all : Sorts := inScopes fun _ => True

/-- What is of some sorts is of others. -/
structure Below (S T : Sorts) : Prop where
  allows {role : Role} {scope : ScopeId} {n : Node} : S.allows role scope n → T.allows role scope n
  good {v : Value} : S.good v → T.good v
  vacates {r : Range} : S.vacates r → T.vacates r
  binds {scope : ScopeId} {name : String} : S.binds scope name → T.binds scope name
  outer {scope : ScopeId} {n : Node} : S.outer scope n → T.outer scope n

theorem Below.refl (S : Sorts) : S.Below S := ⟨id, id, id, id, id⟩

/-- The failures that the rules come to, but for a return that reaches the program.  An error names
only types of values of the sort.  A defect is for a tree that stands where evaluation cannot take
it, or for a value that has no text. -/
inductive Blames (S : Sorts) : Failure → Prop
  | error {cause : Cause} {r : Range} : cause ≠ .topLevelReturn → cause ≠ .callStackExhausted →
      (∀ type ∈ cause.typeNames, ∃ v, S.good v ∧ v.typeName = type) → Blames S (.error ⟨cause, r⟩)
  | misplaced {role : Role} {scope : ScopeId} {n : Node} {d : Defect} : S.allows role scope n →
      n.serves role = false → (∀ operator, d ≠ .unknownOperator operator) → d ≠ .noText →
      Blames S (.defect d)
  | noExpression {scope : ScopeId} {n : Node} : S.outer scope n → n.serves .expression = false →
      Blames S (.defect (.notAnExpression n.kindName))
  | noName {r : Range} {params : List Node} {body p : Node} {captured : ScopeId} :
      S.good (.function r params body captured) → p ∈ params → p.name? = none →
      Blames S (.defect .noName)
  | noText {v : Value} : S.good v → v.text? = none → Blames S (.defect .noText)

/-- An error that names no type. -/
theorem Blames.plain {S : Sorts} {cause : Cause} {r : Range} (h : cause.typeNames = [])
    (hr : cause ≠ .topLevelReturn) (he : cause ≠ .callStackExhausted) :
    S.Blames (.error ⟨cause, r⟩) := by
  refine .error hr he fun type ht => ?_
  rw [h] at ht
  cases ht

end Sorts

/-! ## Pairings -/

/-- What is related on the two sides, and the sorts on the first, world by world. -/
structure Pairing where
  World : Type
  order : Preorder World
  sorts : World → Sorts
  name : String → String → Prop
  idle : Prop
  scope : World → ScopeId → ScopeId → Prop
  sorts_below {w w' : World} : w ≤ w' → (sorts w).Below (sorts w')
  scope_mono {w w' : World} {a a' : ScopeId} : w ≤ w' → scope w a a' → scope w' a a'

/-- The order of a single world. -/
@[reducible]
def oneWorld : Preorder Unit where
  le _ _ := True
  lt _ _ := False
  le_refl _ := trivial
  le_trans _ _ _ _ _ := trivial
  lt_iff_le_not_ge _ _ := ⟨False.elim, fun h => h.2 trivial⟩

instance (P : Pairing) : Preorder P.World := P.order

namespace Pairing

variable {P : Pairing} {w w' : P.World} {v v' : Value}

/-- What may vary in a world. -/
def variation (P : Pairing) (w : P.World) : Variation := ⟨P.name, P.scope w, P.idle⟩

/-- Values that are equal up to what may vary, the first of the sort. -/
def value (P : Pairing) (w : P.World) (v v' : Value) : Prop :=
  v.Varies (P.variation w) v' ∧ (P.sorts w).good v

/-- Lists of such values. -/
def values (P : Pairing) (w : P.World) : List Value → List Value → Prop :=
  List.Forall₂ (P.value w)

theorem value_mono (hw : w ≤ w') (h : P.value w v v') : P.value w' v v' :=
  ⟨h.1.mono fun _ _ => P.scope_mono hw, (P.sorts_below hw).good h.2⟩

/-- Where values that are related are the same, lists of them are. -/
theorem values_iff {good : Value → Prop} (h : ∀ v v', P.value w v v' ↔ v' = v ∧ good v)
    {vs vs' : List Value} : P.values w vs vs' ↔ vs' = vs ∧ ∀ v ∈ vs, good v := by
  constructor
  · intro hvs
    induction hvs with
    | nil => simp
    | cons hv _ ih =>
      obtain ⟨rfl, hgood⟩ := (h _ _).mp hv
      exact ⟨congrArg _ ih.1, List.forall_mem_cons.mpr ⟨hgood, ih.2⟩⟩
  · rintro ⟨rfl, hgood⟩
    exact List.forall₂_same.mpr fun v hv => (h v v).mpr ⟨rfl, hgood v hv⟩

theorem values_mono (hw : w ≤ w') {vs vs' : List Value} (h : P.values w vs vs') :
    P.values w' vs vs' :=
  h.imp fun _ _ => value_mono hw

/-- What statements can end with: a value, the content of a marker on its way out of a call, or
nothing.  If they always return, the end is a marker.  If it is a marker that was made by one of
them, they hold a return.  It is nothing only where nothing is evaluated. -/
inductive Completes (P : Pairing) (always : Bool) (holds vacant : Prop) (w : P.World) :
    Value → Value → Prop
  | value {v v' : Value} : P.value w v v' → (always = true → v.isReturned = true) →
      Completes P always holds vacant w v v'
  | returned {v v' : Value} : P.value w v v' → holds →
      Completes P always holds vacant w (.returned v) (.returned v')
  | empty {r : Range} : (P.sorts w).vacates r → always = false → vacant →
      Completes P always holds vacant w (.empty r) (.empty r)

/-- What a statement can end with.  Only a branch may come to nothing. -/
def Executes (P : Pairing) (n : Node) : P.World → Value → Value → Prop :=
  P.Completes n.alwaysReturns n.HoldsReturn (n.isBranch = true)

/-- What a block can end with. -/
def Closes (P : Pairing) (n : Node) : P.World → Value → Value → Prop :=
  P.Completes n.alwaysReturns n.HoldsReturn True

/-- What programs can end with. -/
def Concludes (P : Pairing) (always : Bool) (w : P.World) (v v' : Value) : Prop :=
  P.Completes always False True w v v' ∧ v.isReturned = false

namespace Completes

variable {always always' : Bool} {holds holds' vacant vacant' : Prop}

theorem varies (h : P.Completes always holds vacant w v v') : v.Varies (P.variation w) v' := by
  cases h with
  | value hv => exact hv.1
  | returned hv => exact .returned hv.1
  | empty => exact .empty _

theorem mono (h : P.Completes always holds vacant w v v') (hw : w ≤ w') :
    P.Completes always holds vacant w' v v' := by
  cases h with
  | value hv ha => exact .value (value_mono hw hv) ha
  | returned hv hh => exact .returned (value_mono hw hv) hh
  | empty hr ha he => exact .empty ((P.sorts_below hw).vacates hr) ha he

/-- Less is known of statements that contain others. -/
theorem imp (h : P.Completes always holds vacant w v v') (ha : always' = true → always = true)
    (hh : holds → holds') (he : vacant → vacant') : P.Completes always' holds' vacant' w v v' := by
  cases h with
  | value hv hr => exact .value hv fun h => hr (ha h)
  | returned hv h => exact .returned hv (hh h)
  | empty hr h hv =>
    exact .empty hr (Bool.eq_false_iff.mpr fun ht => Bool.false_ne_true (h ▸ ha ht)) (he hv)

/-- What statements come to that do not end with a marker says that they do not always return. -/
theorem always_eq_false (h : P.Completes always holds vacant w v v')
    (hr : v.isReturned = false) : always = false := by
  cases h with
  | value _ ha => exact Bool.eq_false_iff.mpr fun h => Bool.false_ne_true (hr ▸ ha h)
  | returned => cases hr
  | empty _ ha => exact ha

/-- If the end is no marker, nothing more is known of it than what it is. -/
theorem last (h : P.Completes always holds vacant w v v') (hr : v.isReturned = false) :
    P.Completes false False True w v v' := by
  cases h with
  | value hv => exact .value hv Bool.noConfusion
  | returned => cases hr
  | empty hv => exact .empty hv rfl trivial

/-- A marker was made by a return statement, or it is a value like others. -/
theorem holds_or_good (h : P.Completes always holds vacant w v v') (hr : v.isReturned = true) :
    holds ∨ (P.sorts w).good v := by
  cases h with
  | value hv => exact Or.inr hv.2
  | returned _ hh => exact Or.inl hh
  | empty => cases hr

end Completes
end Pairing

/-! ## Couplings -/

/-- A way of comparing runs, with a rule for each thing that evaluating does with a machine.  The
second side is told in several ways, one for each index. -/
structure Coupling (ι : Type) extends Pairing where
  runs (w : World) {α : Type} : (World → α → α → Prop) → Run α → (ι → Run α) → Prop
  done {w : World} {α : Type} {S : World → α → α → Prop} {a a' : α} : S w a a' →
    runs w S (pure a) fun _ => pure a'
  fail {w : World} {α : Type} {S : World → α → α → Prop} {failure failure' : Failure} :
    (sorts w).Blames failure → failure.Varies (toPairing.variation w) failure' →
      runs w S (Run.fail failure) fun _ => Run.fail failure'
  bind {w : World} {α β : Type} {R : World → α → α → Prop} {S : World → β → β → Prop} {x : Run α}
    {y : ι → Run α} {f : α → Run β} {g : ι → α → Run β} : runs w R x y →
      (∀ w' a a', w ≤ w' → R w' a a' → runs w' S (f a) fun i => g i a') →
        runs w S (x >>= f) fun i => y i >>= g i
  record {w : World} {e e' : Event} : e.Varies (toPairing.variation w) e' →
    runs w (fun _ _ _ => True) (Run.record e) fun _ => Run.record e'
  get? {w : World} {a a' : ScopeId} {n n' : String} : scope w a a' → name n n' →
    runs w (fun w' => Option.Rel (toPairing.value w')) (Run.get? a n) fun _ => Run.get? a' n'
  bindIn {w : World} {a a' : ScopeId} {n n' : String} {v v' : Value} : scope w a a' →
    (sorts w).binds a n → name n n' → toPairing.value w v v' →
      runs w (fun _ _ _ => True) (Run.bindIn a n v) fun _ => Run.bindIn a' n' v'

namespace Coupling

variable {ι : Type} {C : Coupling ι} {w w' : C.World} {α : Type} {R S : C.World → α → α → Prop}
  {a a' : ScopeId}

/-! ### Runs -/

theorem mono {x : Run α} {y : ι → Run α} (h : C.runs w R x y)
    (hs : ∀ w' u u', w ≤ w' → R w' u u' → S w' u u') : C.runs w S x y := by
  have hb : C.runs w S (x >>= pure) fun i => y i >>= pure :=
    C.bind h fun w' u u' hw hu => C.done (hs w' u u' hw hu)
  simpa only [bind_pure] using hb

/-- An error that names neither a type nor a name. -/
theorem error {cause : Cause} {r : Range} (ht : cause.typeNames = [])
    (hr : cause ≠ .topLevelReturn) (he : cause ≠ .callStackExhausted) (hn : cause.name? = none) :
    C.runs w S (Run.error cause r) fun _ => Run.error cause r :=
  C.fail (.plain ht hr he) (.error r hn)

/-- An error that names the type of a value of the sort. -/
theorem typeError {cause : Cause} {r : Range} {v : Value} (hv : (C.sorts w).good v)
    (ht : cause.typeNames = [v.typeName]) (hn : cause.name? = none) :
    C.runs w S (Run.error cause r) fun _ => Run.error cause r := by
  refine C.fail (.error ?_ ?_ fun type hm => ⟨v, hv, ?_⟩) (.error r hn)
  · rintro rfl
    cases ht
  · rintro rfl
    cases ht
  · rw [ht] at hm
    exact (List.mem_singleton.mp hm).symm

theorem whenVerbose {verbosity needed : Nat} {action : Run Unit} {action' : ι → Run Unit}
    (h : C.runs w (fun _ _ _ => True) action action') :
    C.runs w (fun _ _ _ => True) (Run.whenVerbose verbosity needed action)
      fun i => Run.whenVerbose verbosity needed (action' i) := by
  unfold Run.whenVerbose
  split
  · exact h
  · exact C.done trivial

theorem orDefect {R : α → α → Prop} {d : Defect} {o o' : Option α} (h : Option.Rel R o o')
    (hd : o = none → (C.sorts w).Blames (.defect d)) :
    C.runs w (fun _ u u' => R u u' ∧ o = some u) (Run.orDefect d o)
      fun _ => Run.orDefect d o' := by
  cases h with
  | none => exact C.fail (hd rfl) (.defect d)
  | some hu => exact C.done ⟨hu, rfl⟩

/-- What is recorded with a text is recorded, or there is no text. -/
theorem recordText {v v' : Value} (hv : v.Varies (C.variation w) v')
    (hn : v.text? = none → (C.sorts w).good v) {event event' : String → Event}
    (he : ∀ text, (event text).Varies (C.variation w) (event' text)) :
    C.runs w (fun _ _ _ => True) (Run.textOf v >>= fun text => Run.record (event text))
      fun _ => Run.textOf v' >>= fun text => Run.record (event' text) := by
  unfold Run.textOf
  rw [← hv.text?_eq]
  cases ht : v.text? with
  | none => exact C.fail (.noText (hn ht) ht) (.defect _)
  | some text => exact C.record (he text)

/-! ### Evaluators -/

/-- From a world on, expressions of the sort are compared with their variants, in two scopes. -/
def Couples (C : Coupling ι) (w : C.World) (a a' : ScopeId) (eval : Evaluator)
    (eval' : ι → Evaluator) : Prop :=
  ∀ w', w ≤ w' → ∀ n n', (C.sorts w').allows .expression a n → Variant C.name C.idle n n' →
    C.runs w' C.value (eval n a) fun i => eval' i n' a'

variable {eval : Evaluator} {eval' : ι → Evaluator} {verbosity : Nat}

theorem Couples.mono (h : C.Couples w a a' eval eval') (hw : w ≤ w') :
    C.Couples w' a a' eval eval' :=
  fun w'' hw' => h w'' (hw.trans hw')

/-- The scope of a call is one in which expressions are compared, the body is evaluated, and
parameters are bound. -/
structure Enters (C : Coupling ι) (eval : Evaluator) (eval' : ι → Evaluator) (params : List Node)
    (body : Node) (w : C.World) (a a' : ScopeId) : Prop where
  couples : C.Couples w a a' eval eval'
  scope : C.scope w a a'
  body : (C.sorts w).allows .block a body
  names : ∀ p ∈ params, ∀ name, p.name? = some name → (C.sorts w).binds a name

/-- From a world on, functions of the sort can be called: their calls make such scopes. -/
def Calls (C : Coupling ι) (w : C.World) (eval : Evaluator) (eval' : ι → Evaluator) : Prop :=
  ∀ w', w ≤ w' → ∀ r params params' body body' captured captured',
    C.value w' (.function r params body captured) (.function r params' body' captured') →
      C.runs w' (C.Enters eval eval' params body) (Run.addChild captured)
        fun _ => Run.addChild captured'

/-- From a world on, a return may reach the program, if one is held by the statements there, or if
markers are among the values. -/
def LetsEscape (C : Coupling ι) (w : C.World) (holds : Prop) : Prop :=
  ∀ w', w ≤ w' → (holds ∨ ∃ v, (C.sorts w').good v ∧ v.isReturned = true) →
    ∀ (r : Range) (S : C.World → Value → Value → Prop),
      C.runs w' S (Run.error .topLevelReturn r) fun _ => Run.error .topLevelReturn r

theorem Calls.mono (h : C.Calls w eval eval') (hw : w ≤ w') : C.Calls w' eval eval' :=
  fun w'' hw' => h w'' (hw.trans hw')

theorem LetsEscape.imp {holds holds' : Prop} (h : C.LetsEscape w holds) (hh : holds' → holds) :
    C.LetsEscape w holds' :=
  fun w' hw hx => h w' hw (hx.imp_left hh)

theorem LetsEscape.mono {holds : Prop} (h : C.LetsEscape w holds) (hw : w ≤ w') :
    C.LetsEscape w' holds :=
  fun w'' hw' => h w'' (hw.trans hw')

/-! ### Statements -/

mutual

theorem statement {w : C.World} (he : C.Couples w a a' eval eval') : ∀ n n' : Node,
    (C.sorts w).allows .statement a n → Variant C.name C.idle n n' →
      C.runs w (C.Executes n) (Evaluation.statement verbosity eval a n)
        fun i => Evaluation.statement verbosity (eval' i) a' n'
  | .expressionStatement _ _, _, h, .expressionStatement hn =>
    mono (he w le_rfl _ _ ((C.sorts w).part h (by decide) .expressionStatement) hn)
      fun _ _ _ _ hv => .value hv Bool.noConfusion
  | .returnStatement r e, _, h, .returnStatement hn =>
    C.bind (he w le_rfl _ _ ((C.sorts w).part h (by decide) .returnStatement) hn)
      fun _ _ _ _ hv => C.done (.returned hv (Node.holdsReturn_returnStatement r e))
  | .branch r p c alternative, _, h, .branch hp hc ha => by
    have hblock := fun {w' : C.World} (hw : w ≤ w') => block (he.mono hw) c
    have hother := fun {w' : C.World} (hw : w ≤ w') => block (he.mono hw) alternative
    have hholds : ∀ {arm : Node}, arm ∈ [p, c, alternative] → arm.HoldsReturn →
        (Node.branch r p c alternative).HoldsReturn := fun hm h => h.of_child rfl hm
    refine C.bind (he w le_rfl _ _ ((C.sorts w).part h (by decide) .predicate) hp)
      fun w₁ v v' hw₁ hv => ?_
    obtain ⟨hvaries, hgood⟩ := hv
    cases hvaries with
    | boolean _ decision =>
      refine C.bind (whenVerbose (C.record (.branch _ _))) fun w₂ _ _ hw₂ _ => ?_
      have hw := hw₁.trans hw₂
      have h₂ := (C.sorts_below hw).allows h
      show C.runs w₂ _ (if decision = true then _ else _) fun _ => if decision = true then _ else _
      split
      · refine mono (hblock hw _ ((C.sorts w₂).part h₂ (by decide) .consequence) hc)
          fun _ _ _ _ hv => hv.imp (fun h => ?_) (hholds (by simp)) fun _ => rfl
        rw [Node.alwaysReturns, Bool.and_eq_true] at h
        exact h.1
      · rw [← ha.isAbsent_eq]
        split
        next habsent =>
          refine C.done (.empty ((C.sorts w₂).emptyBranch h₂) ?_ rfl)
          rw [Node.alwaysReturns, Node.alwaysReturns_of_isAbsent habsent, Bool.and_false]
        next habsent =>
          have hpart := (C.sorts w₂).part h₂ (by decide)
            (.alternative (Bool.eq_false_iff.mpr habsent))
          refine mono (hother hw _ hpart ha)
            fun _ _ _ _ hv => hv.imp (fun h => ?_) (hholds (by simp)) fun _ => rfl
          rw [Node.alwaysReturns, Bool.and_eq_true] at h
          exact h.2
    | _ =>
      rw [← hp.range_eq]
      exact typeError hgood rfl rfl
  | .absent, _, h, hn | .program .., _, h, hn | .block .., _, h, hn | .number .., _, h, hn
  | .boolean .., _, h, hn | .string .., _, h, hn | .identifier .., _, h, hn | .unary .., _, h, hn
  | .binary .., _, h, hn | .assignment .., _, h, hn | .function .., _, h, hn
  | .call .., _, h, hn => by
    cases hn
    exact C.fail (.misplaced h rfl (by simp) (by simp)) (.defect _)

theorem block {w : C.World} (he : C.Couples w a a' eval eval') : ∀ n n' : Node,
    (C.sorts w).allows .block a n → Variant C.name C.idle n n' →
      C.runs w (C.Closes n) (Evaluation.block verbosity eval a n)
        fun i => Evaluation.block verbosity (eval' i) a' n'
  | .program r inner, _, h, .program hn => by
    refine mono (statements he (.empty ((C.sorts w).emptyBlock h) rfl trivial) inner _
      (fun _ hm => (C.sorts w).part h (by decide) (.ofBlock rfl hm)) hn)
      fun _ _ _ _ hv => hv.imp id ?_ id
    rintro ⟨m, hm, hr⟩
    exact hr.of_child rfl hm
  | .block r inner, _, h, .block hn => by
    refine mono (statements he (.empty ((C.sorts w).emptyBlock h) rfl trivial) inner _
      (fun _ hm => (C.sorts w).part h (by decide) (.ofBlock rfl hm)) hn)
      fun _ _ _ _ hv => hv.imp id ?_ id
    rintro ⟨m, hm, hr⟩
    exact hr.of_child rfl hm
  | .absent, _, h, hn | .expressionStatement .., _, h, hn | .returnStatement .., _, h, hn
  | .branch .., _, h, hn | .number .., _, h, hn | .boolean .., _, h, hn | .string .., _, h, hn
  | .identifier .., _, h, hn | .unary .., _, h, hn | .binary .., _, h, hn
  | .assignment .., _, h, hn | .function .., _, h, hn | .call .., _, h, hn => by
    cases hn
    exact C.fail (.misplaced h rfl (by simp) (by simp)) (.defect _)

theorem statements {w : C.World} (he : C.Couples w a a' eval eval') {last last' : Value}
    (hl : C.Completes false False True w last last') : ∀ ns ns' : List Node,
      (∀ n ∈ ns, (C.sorts w).allows .statement a n) →
        VariantStatements C.name C.idle false ns ns' →
          C.runs w (C.Completes (Node.anyReturns ns) (∃ n ∈ ns, n.HoldsReturn) True)
            (Evaluation.statements verbosity eval a last ns)
            fun i => Evaluation.statements verbosity (eval' i) a' last' ns'
  | [], _, _, .nil => C.done (hl.imp Bool.noConfusion False.elim id)
  | first :: rest, _, h, .cons hn hs => by
    have hr := fun {w' : C.World} (hw : w ≤ w') {v v' : Value}
      (hv : C.Completes false False True w' v v') => statements (he.mono hw) hv rest
    refine C.bind (statement he first _ (h first List.mem_cons_self) hn) fun w₁ v v' hw hv => ?_
    rw [← hv.varies.isReturned_eq]
    split
    next hret =>
      refine C.done ?_
      cases hv with
      | value hv => exact .value hv fun _ => hret
      | returned hv hfirst => exact .returned hv ⟨first, List.mem_cons_self, hfirst⟩
      | empty => cases hret
    next hret =>
      have hf : v.isReturned = false := Bool.eq_false_iff.mpr hret
      have hfirst := hv.always_eq_false hf
      -- No marker has come out, so no return was evaluated, and the lists go on alike.
      have hnone : first.isReturn = false := by
        cases first <;> first | rfl | cases hfirst
      rw [hnone, Bool.or_false] at hs
      have hallows := fun n hm => (C.sorts_below hw).allows (h n (List.mem_cons_of_mem first hm))
      refine mono (hr hw (hv.last hf) _ hallows hs) fun _ _ _ _ hv => hv.imp (fun h => ?_) ?_ id
      · rwa [Node.anyReturns, hfirst, Bool.false_or] at h
      · rintro ⟨n, hm, hh⟩
        exact ⟨n, List.mem_cons_of_mem first hm, hh⟩

end

/-! ### Operators -/

/-- Values that are related are the same to operators. -/
theorem unaryResult_congr {V : Variation} {v v' : Value} (h : v.Varies V v') (r : Range)
    (op : String) : unaryResult r op v' = unaryResult r op v := by
  cases h <;> rfl

theorem binaryResult_congr {V : Variation} {v v' u u' : Value} (h : v.Varies V v')
    (h' : u.Varies V u') (r : Range) (op : String) :
    binaryResult r op v' u' = binaryResult r op v u := by
  cases h <;> cases h' <;> rfl

theorem unaryResult {r : Range} {op : String} {e : Node} (h : (C.sorts w).outer a (.unary r op e))
    {v v' : Value} (hv : C.value w v v') :
    C.runs w C.value (Evaluation.unaryResult r op v)
      fun _ => Evaluation.unaryResult r op v' := by
  rw [unaryResult_congr hv.1]
  rcases unaryResult_eq r op v with ⟨u, hu, heq⟩ | ⟨-, heq⟩
  · rw [heq]
    have hself : u.Varies (C.variation w) u := by cases hu <;> constructor
    exact C.done ⟨hself, (C.sorts w).makes h (.unary hu)⟩
  · rw [heq]
    exact typeError hv.2 rfl rfl

theorem binaryResult {r : Range} {op : String} {left right : Node}
    (h : (C.sorts w).outer a (.binary r op left right)) {v v' u u' : Value}
    (hv : C.value w v v') (hu : C.value w u u') :
    C.runs w C.value (Evaluation.binaryResult r op v u)
      fun _ => Evaluation.binaryResult r op v' u' := by
  rw [binaryResult_congr hv.1 hu.1]
  rcases binaryResult_eq r op v u with ⟨x, hx, heq⟩ | ⟨-, heq⟩
  · rw [heq]
    have hself : x.Varies (C.variation w) x := by cases hx <;> constructor
    exact C.done ⟨hself, (C.sorts w).makes h (.binary hx)⟩
  · rw [heq]
    refine C.fail (.error (by simp) (by simp) fun type ht => ?_) (.error r rfl)
    simp only [Cause.typeNames, List.mem_cons, List.not_mem_nil, or_false] at ht
    rcases ht with rfl | rfl
    · exact ⟨v, hv.2, rfl⟩
    · exact ⟨u, hu.2, rfl⟩

/-! ### Calls -/

theorem bindName (ha : C.scope w a a') {n n' : String} (hb : (C.sorts w).binds a n)
    (hn : C.name n n') {v v' : Value} (hv : C.value w v v') :
    C.runs w (fun _ _ _ => True) (Evaluation.bindName verbosity a n v)
      fun _ => Evaluation.bindName verbosity a' n' v' :=
  C.bind (C.bindIn ha hb hn hv) fun _ _ _ hw _ =>
    have hv' := Pairing.value_mono hw hv
    whenVerbose (recordText hv'.1 (fun _ => hv'.2) fun text => .binding text hn)

theorem bindParams {params params' : List Node} (ha : C.scope w a a')
    (hp : VariantAll C.name C.idle params params')
    (hb : ∀ p ∈ params, ∀ name, p.name? = some name → (C.sorts w).binds a name)
    (hn : ∀ w', w ≤ w' → ∀ p ∈ params, p.name? = none → (C.sorts w').Blames (.defect .noName))
    {vs vs' : List Value} (hv : C.values w vs vs') :
    C.runs w (fun _ _ _ => True) (Evaluation.bindParams verbosity a params vs)
      fun _ => Evaluation.bindParams verbosity a' params' vs' := by
  induction params generalizing w params' vs vs' with
  | nil =>
    cases hp
    exact C.done trivial
  | cons p params ih =>
    cases hp with
    | @cons _ p' _ params' hp hps =>
      cases hv with
      | nil => exact C.done trivial
      | @cons v v' vs vs' hv hvs =>
        refine C.bind (orDefect hp.name?_rel (hn w le_rfl p List.mem_cons_self))
          fun w₁ name name' hw₁ hname => ?_
        have hbinds := (C.sorts_below hw₁).binds (hb p List.mem_cons_self name hname.2)
        refine C.bind (bindName (C.scope_mono hw₁ ha) hbinds hname.1 (Pairing.value_mono hw₁ hv))
          fun w₂ _ _ hw₂ _ => ?_
        have hw := hw₁.trans hw₂
        refine ih (C.scope_mono hw ha) hps (fun q hq name h => ?_) (fun w' hw' q hq => ?_)
          (Pairing.values_mono hw hvs)
        · exact (C.sorts_below hw).binds (hb q (List.mem_cons_of_mem p hq) name h)
        · exact hn w' (hw.trans hw') q (List.mem_cons_of_mem p hq)

/-- **The first part of a call**, up to the end of the body. -/
theorem enterFunction {r : Range} {params params' : List Node} {body body' : Node}
    {captured captured' : ScopeId}
    (hf : C.value w (.function r params body captured) (.function r params' body' captured'))
    {vs vs' : List Value} (hv : C.values w vs vs') (hc : C.Calls w eval eval') (range : Range) :
    C.runs w (C.Closes body)
      (Evaluation.enterFunction verbosity eval params body captured vs range)
      fun i => Evaluation.enterFunction verbosity (eval' i) params' body' captured' vs' range := by
  obtain ⟨hp, hb, -⟩ : VariantAll C.name C.idle params params' ∧ Variant C.name C.idle body body' ∧
      C.scope w captured captured' := by
    cases hf.1 with
    | function _ hp hb ha => exact ⟨hp, hb, ha⟩
  have hnone : ∀ w', w ≤ w' → ∀ p ∈ params, p.name? = none →
      (C.sorts w').Blames (.defect .noName) :=
    fun w' hw p hm hp => .noName (Pairing.value_mono hw hf).2 hm hp
  have hunnamed : Value.paramNames? params = none → (C.sorts w).Blames (.defect .noName) := by
    intro h
    obtain ⟨p, hm, hp⟩ := Value.exists_of_paramNames?_eq_none h
    exact hnone w le_rfl p hm hp
  unfold Evaluation.enterFunction
  rw [← hv.length_eq, ← hp.length_eq]
  split
  · exact error rfl (by simp) (by simp) rfl
  · have hrecord := C.bind (orDefect hp.paramNames?_rel hunnamed) fun w' _ _ _ hns =>
      C.record (w := w') (.call vs.length range hns.1)
    refine C.bind (whenVerbose hrecord) fun w₁ _ _ hw₁ _ => ?_
    refine C.bind (hc w₁ hw₁ r _ _ _ _ _ _ (Pairing.value_mono hw₁ hf))
      fun w₂ a a' hw₂ henter => ?_
    have hw := hw₁.trans hw₂
    refine C.bind (bindParams henter.scope hp henter.names (fun w' hw' => hnone w' (hw.trans hw'))
      (Pairing.values_mono hw hv)) fun w₃ _ _ hw₃ _ => ?_
    exact block (henter.couples.mono hw₃) body body' ((C.sorts_below hw₃).allows henter.body) hb

/-- The end of a call. -/
theorem finish {n : Node} {v v' : Value} (hv : C.Closes n w v v') (r : Range) :
    C.runs w C.value (Evaluation.finish r v) fun _ => Evaluation.finish r v' := by
  cases hv with
  | value hv =>
    obtain ⟨hvaries, hgood⟩ := hv
    cases hvaries with
    | returned hvaries => exact C.done ⟨hvaries, (C.sorts w).content hgood⟩
    | _ => exact error rfl (by simp) (by simp) rfl
  | returned hv => exact C.done hv
  | empty => exact error rfl (by simp) (by simp) rfl

/-- **A call of a function.** -/
theorem callFunction {r : Range} {params params' : List Node} {body body' : Node}
    {captured captured' : ScopeId}
    (hf : C.value w (.function r params body captured) (.function r params' body' captured'))
    {vs vs' : List Value} (hv : C.values w vs vs') (hc : C.Calls w eval eval') (range : Range) :
    C.runs w C.value (Evaluation.callFunction verbosity eval params body captured vs range)
      fun i => Evaluation.callFunction verbosity (eval' i) params' body' captured' vs' range := by
  have hrange : body.range = body'.range := by
    cases hf.1 with
    | function _ _ hb => exact hb.range_eq
  simp only [callFunction_eq, ← hrange]
  exact C.bind (enterFunction hf hv hc range) fun _ _ _ _ hend => finish hend body.range

theorem arguments (he : C.Couples w a a' eval eval') {args args' : List Node}
    (h : ∀ n ∈ args, (C.sorts w).allows .expression a n)
    (hn : VariantAll C.name C.idle args args') :
    C.runs w C.values (Evaluation.arguments eval a args)
      fun i => Evaluation.arguments (eval' i) a' args' := by
  induction args generalizing w args' with
  | nil =>
    cases hn
    exact C.done .nil
  | cons first rest ih =>
    cases hn with
    | cons hn hns =>
      refine C.bind (he w le_rfl _ _ (h first List.mem_cons_self) hn) fun w₁ v v' hw₁ hv => ?_
      have hrest := fun n hm => (C.sorts_below hw₁).allows (h n (List.mem_cons_of_mem first hm))
      refine C.bind (ih (he.mono hw₁) hrest hns) fun w₂ vs vs' hw₂ hvs => ?_
      exact C.done (.cons (Pairing.value_mono hw₂ hv) hvs)

/-- **A call as an expression**, if applying functions is compared. -/
theorem callWith {r : Range} {callee callee' : Node} {args args' : List Node}
    {apply : Range → List Node → Node → ScopeId → List Value → Run Value}
    {apply' : ι → Range → List Node → Node → ScopeId → List Value → Run Value}
    (he : C.Couples w a a' eval eval') (h : (C.sorts w).outer a (.call r callee args))
    (hc : Variant C.name C.idle callee callee') (hn : VariantAll C.name C.idle args args')
    (happly : ∀ w', w ≤ w' → ∀ r params params' body body' captured captured' vs vs',
      C.value w' (.function r params body captured) (.function r params' body' captured') →
        C.values w' vs vs' → C.runs w' C.value (apply r params body captured vs)
          fun i => apply' i r params' body' captured' vs') :
    C.runs w C.value (Evaluation.callWith apply eval callee args a)
      fun i => Evaluation.callWith (apply' i) (eval' i) callee' args' a' := by
  refine C.bind (he w le_rfl _ _ ((C.sorts w).operand h .callee) hc) fun w₁ v v' hw₁ hv => ?_
  have hallows : ∀ n ∈ args, (C.sorts w₁).allows .expression a n := fun n hm =>
    (C.sorts_below hw₁).allows ((C.sorts w).operand h (.argument hm))
  obtain ⟨hvaries, hgood⟩ := hv
  cases hvaries with
  | function r hp hb ha =>
    refine C.bind (arguments (he.mono hw₁) hallows hn) fun w₂ vs vs' hw₂ hvs => ?_
    exact happly w₂ (hw₁.trans hw₂) _ _ _ _ _ _ _ _ _
      (Pairing.value_mono hw₂ ⟨.function r hp hb ha, hgood⟩) hvs
  | _ =>
    rw [← hc.range_eq]
    exact typeError hgood rfl rfl

/-! ### Expressions -/

/-- An expression that is no call. -/
theorem expressionWith_of_not_call (he : C.Couples w a a' eval eval') (ha : C.scope w a a')
    {n n' : Node} (h : (C.sorts w).outer a n) (hn : Variant C.name C.idle n n')
    (hcall : ∀ r callee args, n ≠ .call r callee args) :
    C.runs w C.value (Evaluation.expressionWith verbosity eval n a)
      fun i => Evaluation.expressionWith verbosity (eval' i) n' a' := by
  cases hn with
  | number r x => exact C.done ⟨.number r x, (C.sorts w).makes h .number⟩
  | boolean r b => exact C.done ⟨.boolean r b, (C.sorts w).makes h .boolean⟩
  | string r text => exact C.done ⟨.string r text, (C.sorts w).makes h .string⟩
  | function r hp hb => exact C.done ⟨.function r hp hb ha, (C.sorts w).makes h .function⟩
  | identifier r hn =>
    refine C.bind (C.get? ha hn) fun w' found found' _ hfound => ?_
    cases hfound with
    | none => exact C.fail (.plain rfl (by simp) (by simp)) (.unbound r hn)
    | some hv => exact C.done hv
  | unary r op ho =>
    refine C.bind (he w le_rfl _ _ ((C.sorts w).operand h .operand) ho) fun w₁ v v' hw hv => ?_
    exact unaryResult ((C.sorts_below hw).outer h) hv
  | binary r op hl hr =>
    refine C.bind (he w le_rfl _ _ ((C.sorts w).operand h .left) hl) fun w₁ v v' hw₁ hv => ?_
    have hright := (C.sorts_below hw₁).allows ((C.sorts w).operand h .right)
    refine C.bind (he w₁ hw₁ _ _ hright hr) fun w₂ u u' hw₂ hu => ?_
    exact binaryResult ((C.sorts_below (hw₁.trans hw₂)).outer h) (Pairing.value_mono hw₂ hv) hu
  | @assignment r left left' _ _ hl hr =>
    have hname := hl.name?_rel
    have htarget : ∀ name, left.name? = some name → (C.sorts w).binds a name :=
      fun _ hx => (C.sorts w).target h hx
    simp only [Evaluation.expressionWith]
    generalize left.name? = x, left'.name? = x' at hname htarget ⊢
    cases hname with
    | none => exact error rfl (by simp) (by simp) rfl
    | some hname =>
      refine C.bind (he w le_rfl _ _ ((C.sorts w).operand h .assigned) hr) fun w₁ v v' hw₁ hv => ?_
      refine C.bind (bindName (C.scope_mono hw₁ ha)
        ((C.sorts_below hw₁).binds (htarget _ rfl)) hname hv) fun w₂ _ _ hw₂ _ => ?_
      exact C.done (Pairing.value_mono hw₂ hv)
  | call r hc has => exact absurd rfl (hcall _ _ _)
  | absent => exact C.fail (.noExpression h rfl) (.defect _)
  | program _ => exact C.fail (.noExpression h rfl) (.defect _)
  | block _ => exact C.fail (.noExpression h rfl) (.defect _)
  | expressionStatement _ => exact C.fail (.noExpression h rfl) (.defect _)
  | returnStatement _ => exact C.fail (.noExpression h rfl) (.defect _)
  | branch _ _ _ => exact C.fail (.noExpression h rfl) (.defect _)

/-- **An expression**, given how the expressions inside it are evaluated, and that functions can be
called if it is a call. -/
theorem expressionWith (he : C.Couples w a a' eval eval') (ha : C.scope w a a') {n n' : Node}
    (h : (C.sorts w).outer a n) (hn : Variant C.name C.idle n n')
    (hcalls : ∀ r callee args, n = .call r callee args → C.Calls w eval eval') :
    C.runs w C.value (Evaluation.expressionWith verbosity eval n a)
      fun i => Evaluation.expressionWith verbosity (eval' i) n' a' := by
  by_cases hcall : ∃ r callee args, n = .call r callee args
  · obtain ⟨r, callee, args, rfl⟩ := hcall
    have hc := hcalls r callee args rfl
    cases hn with
    | call _ hcallee hargs =>
      simp only [expressionWith_call]
      exact callWith he h hcallee hargs fun w' hw _ _ _ _ _ _ _ _ _ hf hv =>
        callFunction hf hv (hc.mono hw) r
  · exact expressionWith_of_not_call he ha h hn fun r callee args hx =>
      hcall ⟨r, callee, args, hx⟩

/-! ### Programs -/

theorem topLevel (he : C.Couples w a a' eval eval') {ns ns' : List Node}
    (h : ∀ n ∈ ns, (C.sorts w).allows .statement a n)
    (hn : VariantStatements C.name C.idle false ns ns') {last last' : Value}
    (hl : C.Completes false False True w last last') (hlast : last.isReturned = false)
    (hescape : C.LetsEscape w (∃ n ∈ ns, n.HoldsReturn)) :
    C.runs w (C.Concludes (Node.anyReturns ns)) (Evaluation.topLevel verbosity eval a last ns)
      fun i => Evaluation.topLevel verbosity (eval' i) a' last' ns' := by
  induction ns generalizing w ns' last last' with
  | nil =>
    cases hn
    exact C.done ⟨hl, hlast⟩
  | cons first rest ih =>
    cases hn with
    | cons hn hs =>
      refine C.bind (statement he first _ (h first List.mem_cons_self) hn) fun w₁ v v' hw hv => ?_
      rw [← hv.varies.isReturned_eq, ← hn.range_eq]
      split
      next hret =>
        refine hescape w₁ hw ?_ first.range _
        exact hv.holds_or_good hret |>.imp (fun hh => ⟨first, List.mem_cons_self, hh⟩)
          fun hg => ⟨v, hg, hret⟩
      next hret =>
        have hf : v.isReturned = false := Bool.eq_false_iff.mpr hret
        have hfirst := hv.always_eq_false hf
        have hnone : first.isReturn = false := by
          cases first <;> first | rfl | cases hfirst
        rw [hnone, Bool.or_false] at hs
        have htext : v.text? = none → (C.sorts w₁).good v := fun ht => by
          cases hv with
          | value hv => exact hv.2
          | returned => cases hf
          | empty => cases ht
        refine C.bind (whenVerbose (recordText hv.varies htext fun text => .statement _ text))
          fun w₂ _ _ hw₂ _ => ?_
        have hlater := hw.trans hw₂
        have hallows := fun n hm => (C.sorts_below hlater).allows
          (h n (List.mem_cons_of_mem first hm))
        have hrest : C.LetsEscape w₂ (∃ n ∈ rest, n.HoldsReturn) := by
          refine (hescape.mono hlater).imp ?_
          rintro ⟨n, hm, hh⟩
          exact ⟨n, List.mem_cons_of_mem first hm, hh⟩
        refine mono (ih (he.mono hlater) hallows hs ((hv.last hf).mono hw₂) hf hrest)
          fun _ _ _ _ hend => ⟨hend.1.imp (fun h => ?_) id id, hend.2⟩
        rwa [Node.anyReturns, hfirst, Bool.false_or] at h

/-- **A program**, or a block that stands for one. -/
theorem programWith (he : C.Couples w a a' eval eval') {n n' : Node}
    (h : (C.sorts w).allows .program a n) (hn : Variant C.name C.idle n n')
    (hescape : C.LetsEscape w n.HoldsReturn) :
    C.runs w (C.Concludes n.alwaysReturns) (Evaluation.programWith verbosity eval a n)
      fun i => Evaluation.programWith verbosity (eval' i) a' n' := by
  have hparts : ∀ {inner}, n.statements? = some inner → ∀ m ∈ inner,
      (C.sorts w).allows .statement a m :=
    fun hs m hm => (C.sorts w).part h (by decide) (.ofProgram hs hm)
  have hempty : C.Completes false False True w (.empty n.range) (.empty n.range) :=
    .empty ((C.sorts w).emptyProgram h) rfl trivial
  unfold Evaluation.programWith
  cases hn with
  | program hs | block hs =>
    refine topLevel he (hparts rfl) hs hempty rfl (hescape.imp ?_)
    rintro ⟨m, hm, hh⟩
    exact hh.of_child rfl hm
  | _ => exact C.fail (.misplaced h rfl (by simp) (by simp)) (.defect _)

end Coupling
end Evaluation
end HangulScript
