import HangulScript.Proofs.Evaluation.Coupling

/-!
# What evaluation keeps up

Many couplings compare a run with itself, or with one that does the same.  What they say is about
stores: a property of the store is kept up, results are of some sort, and failures are of some
kind.  An *upkeep* has what such a statement needs, and no worlds, variants or pairs of scopes: the
property, the sorts, the scopes that belong to what it is about, and that looking names up and
binding them keep within it.

The rules are given the evaluator of the expressions one level down.  An upkeep compares the rules
with two of them, which need to do the same on stores with the property only.  Taken to be one
evaluator, this says that the property is kept up.  Taken to be the evaluator and another one that
does something else as soon as something is out of bounds, it says that this happens at no point of
an evaluation, however deep inside.

What an upkeep keeps is read off its coupling (`Upkeep.coupling`), one lemma for each sort of trees.
-/

namespace HangulScript
namespace Evaluation

open Node (Role)

/-! ## Runs -/

/-- An outcome is one of two kinds: a good result, or a failure that may be. -/
def Ends {α : Type} (good : α → Prop) (bad : Failure → Prop) : Except Failure α → Prop
  | .ok a => good a
  | .error failure => bad failure

theorem Ends.mono {α : Type} {good good' : α → Prop} {bad bad' : Failure → Prop}
    {outcome : Except Failure α} (h : Ends good bad outcome)
    (hb : ∀ failure, bad failure → bad' failure) (hg : ∀ a, good a → good' a) :
    Ends good' bad' outcome := by
  cases outcome with
  | ok a => exact hg a h
  | error failure => exact hb failure h

/-- From stores that have a property, two runs do the same; they leave stores that have it, and end
with a good result or with a failure that may be. -/
def Upholds (inv : Store → Prop) (bad : Failure → Prop) {α : Type} (good : α → Prop)
    (x y : Run α) : Prop :=
  ∀ m : Machine, inv m.store → x m = y m ∧ inv (x m).2.store ∧ Ends good bad (x m).1

namespace Upholds

variable {inv : Store → Prop} {bad bad' : Failure → Prop} {α : Type} {good good' : α → Prop}
  {x y : Run α}

theorem fail {failure : Failure} (h : bad failure) :
    Upholds inv bad good (Run.fail failure) (Run.fail failure) :=
  fun _ hm => ⟨rfl, hm, h⟩

theorem mono (h : Upholds inv bad good x y) (hb : ∀ failure, bad failure → bad' failure)
    (hg : ∀ a, good a → good' a) : Upholds inv bad' good' x y := by
  intro m hm
  obtain ⟨heq, hstore, hends⟩ := h m hm
  exact ⟨heq, hstore, hends.mono hb hg⟩

theorem imp (h : Upholds inv bad good x y) (hg : ∀ a, good a → good' a) :
    Upholds inv bad good' x y :=
  h.mono (fun _ hf => hf) hg

theorem self (h : Upholds inv bad good x y) : Upholds inv bad good x x :=
  fun m hm => ⟨rfl, (h m hm).2⟩

end Upholds

/-! ## Upkeeps -/

/-- A property of stores, kinds of failures, scopes, and sorts, so that evaluation keeps within
them. -/
structure Upkeep extends Sorts where
  /-- The property of stores. -/
  inv : Store → Prop
  /-- The failures that may be. -/
  bad : Failure → Prop
  /-- The scopes that evaluation may go on in. -/
  region : ScopeId → Prop
  fails {failure : Failure} : toSorts.Blames failure → bad failure
  found {s : Store} {id : ScopeId} {name : String} {v : Value} : inv s → region id →
    s.get? id name = some v → good v ∧ ∀ c, v.scope? = some c → region c
  bound {s : Store} {id : ScopeId} {name : String} {v : Value} : inv s → region id →
    binds id name → good v → (∀ c, v.scope? = some c → region c) → inv (s.bind id name v)

namespace Upkeep

variable {U : Upkeep} {verbosity : Nat} {eval eval' : Evaluator} {scope : ScopeId}

/-- A value of the sort; if it is a function, it was made in a scope that evaluation may go on
in. -/
def Good (U : Upkeep) (v : Value) : Prop := U.good v ∧ ∀ c, v.scope? = some c → U.region c

/-- What statements can end with, as for pairings. -/
inductive Completes (U : Upkeep) (always : Bool) (holds vacant : Prop) : Value → Prop
  | value {v : Value} : U.Good v → (always = true → v.isReturned = true) →
      Completes U always holds vacant v
  | returned {v : Value} : U.Good v → holds → Completes U always holds vacant (.returned v)
  | empty {r : Range} : U.vacates r → always = false → vacant →
      Completes U always holds vacant (.empty r)

/-- What statements come to that do not end with a marker says that they do not always return. -/
theorem Completes.always_eq_false {always : Bool} {holds vacant : Prop} {v : Value}
    (h : U.Completes always holds vacant v) (hr : v.isReturned = false) : always = false := by
  cases h with
  | value _ ha => exact Bool.eq_false_iff.mpr fun h => Bool.false_ne_true (hr ▸ ha h)
  | returned => cases hr
  | empty _ ha => exact ha

/-! ### The coupling of an upkeep -/

/-- Two outcomes agree: both are results that are related, or both are one failure that may be. -/
inductive Agrees (bad : Failure → Prop) {α : Type} (S : α → α → Prop) :
    Except Failure α → Except Failure α → Prop
  | ok {a a' : α} : S a a' → Agrees bad S (.ok a) (.ok a')
  | error {failure : Failure} : bad failure → Agrees bad S (.error failure) (.error failure)

/-- From stores with the property, two runs end on one machine, whose store has it, and their
outcomes agree. -/
def Runs (U : Upkeep) {α : Type} (S : α → α → Prop) (x y : Run α) : Prop :=
  ∀ m : Machine, U.inv m.store →
    Agrees U.bad S (x m).1 (y m).1 ∧ (y m).2 = (x m).2 ∧ U.inv (x m).2.store

theorem Runs.bind {α β : Type} {R : α → α → Prop} {S : β → β → Prop} {x y : Run α}
    {f g : α → Run β} (h : U.Runs R x y) (hf : ∀ a a', R a a' → U.Runs S (f a) (g a')) :
    U.Runs S (x >>= f) (y >>= g) := by
  intro m hm
  obtain ⟨hagrees, heq, hstore⟩ := h m hm
  rw [Run.bind_apply, Run.bind_apply]
  cases hx : x m with
  | mk outcome n =>
    cases hy : y m with
    | mk outcome' n' =>
      rw [hx, hy] at hagrees heq
      rw [hx] at hstore
      cases heq
      cases hagrees with
      | ok ha => exact hf _ _ ha n hstore
      | error hb => exact ⟨.error hb, rfl, hstore⟩

/-- What is related being the same, two runs do the same. -/
theorem Runs.upholds {α : Type} {S : α → α → Prop} {good : α → Prop} {x y : Run α}
    (h : U.Runs S x y) (hs : ∀ a a', S a a' → a' = a ∧ good a) :
    Upholds U.inv U.bad good x y := by
  intro m hm
  obtain ⟨hagrees, heq, hstore⟩ := h m hm
  cases hx : x m with
  | mk outcome n =>
    cases hy : y m with
    | mk outcome' n' =>
      rw [hx, hy] at hagrees heq
      rw [hx] at hstore
      cases heq
      cases hagrees with
      | ok ha =>
        obtain ⟨rfl, hgood⟩ := hs _ _ ha
        exact ⟨rfl, hstore, hgood⟩
      | error hb => exact ⟨rfl, hstore, hb⟩

theorem runs_of_upholds {α : Type} {S : α → α → Prop} {good : α → Prop} {x y : Run α}
    (h : Upholds U.inv U.bad good x y) (hs : ∀ a, good a → S a a) : U.Runs S x y := by
  intro m hm
  obtain ⟨heq, hstore, hends⟩ := h m hm
  refine ⟨?_, by rw [heq], hstore⟩
  rw [← heq]
  cases hx : (x m).1 with
  | ok a =>
    rw [hx] at hends
    exact .ok (hs a hends)
  | error failure =>
    rw [hx] at hends
    exact .error hends

/-- Values that are related are the same, and of scopes that evaluation may go on in. -/
theorem varies_iff {v v' : Value} :
    v.Varies ⟨Eq, fun a a' => a = a' ∧ U.region a, False⟩ v' ↔
      v' = v ∧ ∀ c, v.scope? = some c → U.region c := by
  constructor
  · intro h
    refine ⟨h.eq (fun _ _ hx => hx) id fun _ _ ha => ?_, fun c hc => ?_⟩
    · exact ha.1
    · obtain ⟨d, -, hd⟩ := h.exists_scope hc
      exact hd
  · rintro ⟨rfl, h⟩
    exact .self (fun _ => rfl) fun c hc => ⟨rfl, h c hc⟩

/-- **An upkeep as a coupling** of a run with one that does the same. -/
def coupling (U : Upkeep) : Coupling Unit where
  World := Unit
  order := oneWorld
  sorts _ := U.toSorts
  name := Eq
  idle := False
  scope _ a a' := a = a' ∧ U.region a
  sorts_below _ := .refl _
  scope_mono _ h := h
  runs _ _ S x y := U.Runs (S ()) x (y ())
  done h _ hm := ⟨.ok h, rfl, hm⟩
  fail hb hf _ hm := by
    rw [hf.eq fun _ _ h => h]
    exact ⟨.error (U.fails hb), rfl, hm⟩
  bind h hf := h.bind fun a a' ha => hf () a a' le_rfl ha
  record he m hm := by
    rw [he.eq fun _ _ h => h]
    exact ⟨.ok trivial, rfl, hm⟩
  get? := by
    rintro _ a a' n n' ⟨rfl, ha⟩ rfl m hm
    refine ⟨.ok ?_, rfl, hm⟩
    cases hv : m.store.get? a n with
    | none => exact .none
    | some v =>
      obtain ⟨hgood, hscope⟩ := U.found hm ha hv
      exact .some ⟨varies_iff.mpr ⟨rfl, hscope⟩, hgood⟩
  bindIn := by
    rintro _ a a' n n' v v' ⟨rfl, ha⟩ hb rfl ⟨hv, hgood⟩ m hm
    obtain ⟨rfl, hscope⟩ := varies_iff.mp hv
    exact ⟨.ok trivial, rfl, U.bound hm ha hb hgood hscope⟩

/-! ### What is related is the same -/

theorem value_iff {v v' : Value} : U.coupling.value () v v' ↔ v' = v ∧ U.Good v := by
  constructor
  · rintro ⟨hv, hgood⟩
    obtain ⟨rfl, hscope⟩ := varies_iff.mp hv
    exact ⟨rfl, hgood, hscope⟩
  · rintro ⟨rfl, hgood, hscope⟩
    exact ⟨varies_iff.mpr ⟨rfl, hscope⟩, hgood⟩

theorem value_self {v : Value} (h : U.Good v) : U.coupling.value () v v := value_iff.mpr ⟨rfl, h⟩

theorem values_iff {vs vs' : List Value} :
    U.coupling.values () vs vs' ↔ vs' = vs ∧ ∀ v ∈ vs, U.Good v :=
  Pairing.values_iff fun _ _ => value_iff

theorem completes_iff {always : Bool} {holds vacant : Prop} {v v' : Value} :
    U.coupling.Completes always holds vacant () v v' ↔
      v' = v ∧ U.Completes always holds vacant v := by
  constructor
  · intro h
    cases h with
    | value hv ha =>
      obtain ⟨rfl, hgood⟩ := value_iff.mp hv
      exact ⟨rfl, .value hgood ha⟩
    | returned hv hh =>
      obtain ⟨rfl, hgood⟩ := value_iff.mp hv
      exact ⟨rfl, .returned hgood hh⟩
    | empty hr ha he => exact ⟨rfl, .empty hr ha he⟩
  · rintro ⟨rfl, h⟩
    cases h with
    | value hv ha => exact .value (value_self hv) ha
    | returned hv hh => exact .returned (value_self hv) hh
    | empty hr ha he => exact .empty hr ha he

/-! ### Evaluators -/

/-- Two evaluators do the same with expressions of the sort, and keep within the upkeep. -/
def Compares (U : Upkeep) (eval eval' : Evaluator) : Prop :=
  ∀ node scope, U.allows .expression scope node → U.region scope →
    Upholds U.inv U.bad U.Good (eval node scope) (eval' node scope)

theorem Compares.couples (he : U.Compares eval eval') (hs : U.region scope) :
    U.coupling.Couples () scope scope eval fun _ => eval' := by
  intro _ _ n n' h hn
  obtain rfl : n = n' := (hn.eq (fun _ _ h => h) id).symm
  exact runs_of_upholds (he n scope h hs) fun v => value_self

/-- The scopes that calls make are ones that evaluation may go on in, for the body and for the
parameters. -/
def MakesScopes (U : Upkeep) : Prop :=
  ∀ s r params body captured, U.inv s → U.Good (.function r params body captured) →
    let s' := (s.addChild captured).1
    let scope := (s.addChild captured).2
    U.inv s' ∧ U.region scope ∧ U.allows .block scope body ∧
      ∀ p ∈ params, ∀ name, p.name? = some name → U.binds scope name

theorem Compares.calls (he : U.Compares eval eval') (hscopes : U.MakesScopes) :
    U.coupling.Calls () eval fun _ => eval' := by
  intro _ _ r params params' body body' captured captured' hf m hm
  obtain ⟨heq, hgood⟩ := value_iff.mp hf
  cases heq
  obtain ⟨hstore, hregion, hbody, hnames⟩ := hscopes m.store r params body captured hm hgood
  have henters : U.coupling.Enters eval (fun _ => eval') params body ()
      (m.store.addChild captured).2 (m.store.addChild captured).2 :=
    ⟨he.couples hregion, ⟨rfl, hregion⟩, hbody, hnames⟩
  exact ⟨.ok henters, rfl, hstore⟩

/-! ### The rules -/

section Rules

variable (he : U.Compares eval eval') (hs : U.region scope)

include he hs

theorem statement {node : Node} (h : U.allows .statement scope node) :
    Upholds U.inv U.bad
      (U.Completes node.alwaysReturns node.HoldsReturn (node.isBranch = true))
      (Evaluation.statement verbosity eval scope node)
      (Evaluation.statement verbosity eval' scope node) :=
  (Coupling.statement (he.couples hs) node node h (Node.variant_self fun _ _ => rfl)).upholds
    fun _ _ => completes_iff.mp

theorem block {node : Node} (h : U.allows .block scope node) :
    Upholds U.inv U.bad (U.Completes node.alwaysReturns node.HoldsReturn True)
      (Evaluation.block verbosity eval scope node)
      (Evaluation.block verbosity eval' scope node) :=
  (Coupling.block (he.couples hs) node node h (Node.variant_self fun _ _ => rfl)).upholds
    fun _ _ => completes_iff.mp

theorem arguments {args : List Node} (h : ∀ n ∈ args, U.allows .expression scope n) :
    Upholds U.inv U.bad (fun values => ∀ v ∈ values, U.Good v)
      (Evaluation.arguments eval scope args) (Evaluation.arguments eval' scope args) :=
  (Coupling.arguments (he.couples hs) h (Node.variantAll_self fun _ _ _ _ => rfl)).upholds
    fun _ _ => values_iff.mp

/-- A call as an expression, if applying functions keeps within the upkeep. -/
theorem callWith {r : Range} {callee : Node} {args : List Node}
    {apply apply' : Range → List Node → Node → ScopeId → List Value → Run Value}
    (h : U.outer scope (.call r callee args))
    (happly : ∀ r params body captured values, U.Good (.function r params body captured) →
      (∀ v ∈ values, U.Good v) → Upholds U.inv U.bad U.Good (apply r params body captured values)
        (apply' r params body captured values)) :
    Upholds U.inv U.bad U.Good (Evaluation.callWith apply eval callee args scope)
      (Evaluation.callWith apply' eval' callee args scope) := by
  have hself : ∀ n : Node, Node.Variant Eq False n n := fun n => Node.variant_self fun _ _ => rfl
  suffices hruns : U.coupling.runs () U.coupling.value (Evaluation.callWith apply eval callee args
      scope) fun _ => Evaluation.callWith apply' eval' callee args scope from
    hruns.upholds fun _ _ => value_iff.mp
  refine Coupling.callWith (he.couples hs) h (hself callee)
    (Node.variantAll_self fun _ _ _ _ => rfl) ?_
  intro _ _ r params params' body body' captured captured' vs vs' hf hv
  obtain ⟨heq, hgood⟩ := value_iff.mp hf
  cases heq
  obtain ⟨rfl, hgoods⟩ := values_iff.mp hv
  exact runs_of_upholds (happly r params body captured vs' hgood hgoods) fun _ => value_self

/-- An expression, from the sort of expressions one level further out. -/
theorem expressionWith {node : Node} (h : U.outer scope node)
    (hscopes : ∀ r callee args, node = .call r callee args → U.MakesScopes) :
    Upholds U.inv U.bad U.Good (Evaluation.expressionWith verbosity eval node scope)
      (Evaluation.expressionWith verbosity eval' node scope) :=
  (Coupling.expressionWith (he.couples hs) ⟨rfl, hs⟩ h (Node.variant_self fun _ _ => rfl)
    fun r callee args hc => he.calls (hscopes r callee args hc)).upholds fun _ _ => value_iff.mp

/-- A program.  A return that reaches it may be a failure, if the program holds one or markers are
among the values. -/
theorem programWith {node : Node} (h : U.allows .program scope node)
    (hescape : ∀ r, (node.HoldsReturn ∨ ∃ v, U.good v ∧ v.isReturned = true) →
      U.bad (.error ⟨.topLevelReturn, r⟩)) :
    Upholds U.inv U.bad
      (fun v => U.Completes node.alwaysReturns False True v ∧ v.isReturned = false)
      (Evaluation.programWith verbosity eval scope node)
      (Evaluation.programWith verbosity eval' scope node) := by
  have hlets : U.coupling.LetsEscape () node.HoldsReturn := fun _ _ hh r _ m hm =>
    ⟨.error (hescape r hh), rfl, hm⟩
  refine (Coupling.programWith (he.couples hs) h (Node.variant_self fun _ _ => rfl)
    hlets).upholds fun _ _ hv => ?_
  obtain ⟨heq, hends⟩ := completes_iff.mp hv.1
  exact ⟨heq, hends, hv.2⟩

end Rules

section Calls

variable (he : U.Compares eval eval') (hscopes : U.MakesScopes) {r range : Range}
  {params : List Node} {body : Node} {captured : ScopeId} {values : List Value}
  (hf : U.Good (.function r params body captured)) (hv : ∀ v ∈ values, U.Good v)

include he hscopes hf hv

/-- The first part of a call. -/
theorem enterFunction :
    Upholds U.inv U.bad (U.Completes body.alwaysReturns body.HoldsReturn True)
      (Evaluation.enterFunction verbosity eval params body captured values range)
      (Evaluation.enterFunction verbosity eval' params body captured values range) :=
  (Coupling.enterFunction (value_self hf) (values_iff.mpr ⟨rfl, hv⟩) (he.calls hscopes)
    range).upholds fun _ _ => completes_iff.mp

theorem callFunction :
    Upholds U.inv U.bad U.Good
      (Evaluation.callFunction verbosity eval params body captured values range)
      (Evaluation.callFunction verbosity eval' params body captured values range) :=
  (Coupling.callFunction (value_self hf) (values_iff.mpr ⟨rfl, hv⟩) (he.calls hscopes)
    range).upholds fun _ _ => value_iff.mp

end Calls

end Upkeep

/-- What programs keep up, they keep up as a whole, if to be exhausted is allowed as an error. -/
theorem Upholds.program {inv : Store → Prop} {bad : Failure → Prop} {good : Value → Prop}
    {verbosity limit : Nat} {scope : ScopeId} {node : Node}
    (h : Upholds inv bad good (programWith verbosity (expression verbosity limit) scope node)
      (programWith verbosity (expression verbosity limit) scope node))
    (hb : ∀ r, bad (.error ⟨.callStackExhausted, r⟩)) :
    Upholds inv bad good (program verbosity limit scope node)
      (program verbosity limit scope node) := by
  intro m hm
  obtain ⟨-, hstore, hends⟩ := h m hm
  refine ⟨rfl, ?_⟩
  unfold Evaluation.program
  split
  next he =>
    rw [he] at hstore
    exact ⟨hstore, hb node.range⟩
  next => exact ⟨hstore, hends⟩

end Evaluation
end HangulScript
