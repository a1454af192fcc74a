import HangulScript.Proofs.Evaluation.Nesting
import HangulScript.Proofs.Evaluation.Sessions
import HangulScript.Proofs.Evaluation.Upkeep

/-!
# The scopes mirror the text

Wherever an expression is evaluated, the scopes outwards from its own are made by calls of the
function literals around it in the text, one of each, from the inside to the outside, and then
comes the root.  It does not matter how a function came to be called: it may have been stored,
handed on or returned, and be called from another depth or by a later program.

What is to be shown is about a whole session and everything that is evaluated in it, and about
one nesting that is right all the time.  So the rules are compared with those of an evaluator
under a *watch*: it is given the final nesting and what literals are around, and checks every
expression and every call.  The comparison holds for whatever the nesting becomes in the end.

The comparison is a coupling (`placement`), whose worlds are nestings.  Doing one thing after
another goes through the nesting that the first has left.  What was known before, that a scope has
a certain entry and that a value is at home, is known of that nesting too, because it only grows.
Only a call extends it (`nests_addChild`), and only calls are looked at by themselves here, because
a call as a whole is checked.
-/

namespace HangulScript
namespace Evaluation

open Node (StandsIn Owns)

/-! ## The evaluator that checks -/

/-- An expression is evaluated in its place: it stands in one of the trees with these literals
around it, the scopes mirror them, all scopes bind only what belongs to them, before and after,
and a name that belongs to no place around it is not found. -/
structure InPlace (trees : List Node) (nesting : Nesting) (around : List Node) (node : Node)
    (scope : ScopeId) (before : Machine) (result : Except Failure Value × Machine) : Prop where
  stands : node.StandsIn trees around
  mirrors : before.store.Mirrors nesting scope around
  names : before.store.NamesWithin trees nesting
  names' : result.2.store.NamesWithin trees nesting
  unbound : ∀ range name, node = .identifier range name →
    (∀ outer, outer <:+ around → ¬ Owns trees outer name) →
      result.1 = .error (.error ⟨.unboundIdentifier name, range⟩)

open Classical in
/-- The test that an expression is evaluated in its place. -/
noncomputable def inPlace (trees : List Node) (nesting : Nesting) (around : List Node) : Test :=
  fun node scope before result => decide (InPlace trees nesting around node scope before result)

/-- What an evaluation is checked against, and how it fails where a check does not pass. -/
structure Watch where
  nesting : Nesting
  breach : Failure

/-- Whether the first scope that a call makes, if it makes any, has as its entry the called
literal and then the entry of the scope it was made in. -/
def makesScopeOf (nesting : Nesting) (literal : Node) (captured : ScopeId)
    (before after : Machine) : Bool :=
  after.store.scopes.size ≤ before.store.scopes.size ||
    nesting[before.store.scopes.size]? == nesting[captured]?.map (literal :: ·)

/-- A call whose scope is checked. -/
def called (watch : Watch) (literal : Node) (captured : ScopeId) (call : Run Value) :
    Run Value := fun m =>
  let result := call m
  if makesScopeOf watch.nesting literal captured m result.2 then result
  else (.error watch.breach, result.2)

/-- Evaluates an expression that has some literals around it.  A call goes on in the body of a
literal, and the literals around that are the called one and those of the scope it was made
in. -/
def expressionIn (watch : Watch) (verbosity : Nat) (eval : List Node → Evaluator)
    (around : List Node) : Evaluator
  | .call range callee args, scope => do
    match ← eval around callee scope with
    | .function r params body captured =>
      let values ← arguments (eval around) scope args
      let literal := Node.function r params body
      called watch literal captured
        (callFunction verbosity (eval (literal :: watch.nesting[captured]?.getD [])) params body
          captured values range)
    | other => Run.error (.notCallable other.typeName) callee.range
  | node, scope => expressionWith verbosity (eval around) node scope

/-- Evaluates an expression that has some literals around it, and checks that it and all
expressions that are evaluated on the way are in their places, and all calls as well. -/
noncomputable def placedExpression (trees : List Node) (watch : Watch) (verbosity : Nat) :
    (limit : Nat) → (around : List Node) → Evaluator
  | 0, _ => fun _ _ => Run.fail .exhausted
  | limit + 1, around =>
    Evaluator.tested (inPlace trees watch.nesting around) watch.breach
      (expressionIn watch verbosity (placedExpression trees watch verbosity limit) around)

variable {trees : List Node} {nesting nesting' : Nesting} {around : List Node}

/-! ## Runs -/

/-- From a nested store, a run ends with a nested one and a good result, if it has one; the
nesting only grows.  And whatever the nesting becomes in the end, the checked run does the
same. -/
def Nests (trees : List Node) (nesting : Nesting) {α : Type} (good : Nesting → α → Prop)
    (x : Run α) (y : Watch → Run α) : Prop :=
  ∀ m : Machine, Nested trees nesting m.store →
    ∃ nesting', nesting <+: nesting' ∧ Nested trees nesting' (x m).2.store ∧
      Ends (good nesting') (fun _ => True) (x m).1 ∧
        ∀ watch : Watch, nesting' <+: watch.nesting → y watch m = x m

/-- As much, where the results of the two runs need not be the same, but are related. -/
def Follows (trees : List Node) (nesting : Nesting) {α : Type} (S : Nesting → α → α → Prop)
    (x : Run α) (y : Watch → Run α) : Prop :=
  ∀ m : Machine, Nested trees nesting m.store →
    ∃ nesting' outcome, nesting <+: nesting' ∧ Nested trees nesting' (x m).2.store ∧
      Upkeep.Agrees (fun _ => True) (S nesting') (x m).1 outcome ∧
        ∀ watch : Watch, nesting' <+: watch.nesting → y watch m = (outcome, (x m).2)

namespace Follows

variable {α β : Type} {S : Nesting → α → α → Prop} {x : Run α} {y : Watch → Run α}

theorem done {a a' : α} (h : S nesting a a') :
    Follows trees nesting S (pure a) fun _ => pure a' :=
  fun _ hm => ⟨nesting, .ok a', List.prefix_refl _, hm, .ok h, fun _ _ => rfl⟩

theorem fail {failure : Failure} :
    Follows trees nesting S (Run.fail failure) fun _ => Run.fail failure :=
  fun _ hm => ⟨nesting, _, List.prefix_refl _, hm, .error trivial, fun _ _ => rfl⟩

/-- A run that leaves all scopes alone. -/
theorem recorded {action : Run Unit} (h : ∀ m, (action m).2.store = m.store) :
    Follows trees nesting (fun _ _ _ => True) action fun _ => action := by
  intro m hm
  refine ⟨nesting, (action m).1, List.prefix_refl _, by rwa [h m], ?_, fun _ _ => rfl⟩
  cases (action m).1 with
  | ok => exact .ok trivial
  | error => exact .error trivial

/-- Doing one thing after another goes through the nesting that the first has left. -/
theorem bind {f : α → Run β} {g : Watch → α → Run β} {T : Nesting → β → β → Prop}
    (h : Follows trees nesting S x y)
    (hf : ∀ nesting' a a', nesting <+: nesting' → S nesting' a a' →
      Follows trees nesting' T (f a) fun watch => g watch a') :
    Follows trees nesting T (x >>= f) fun watch => y watch >>= g watch := by
  intro m hm
  obtain ⟨nesting', outcome, hn, hstore, hagrees, heq⟩ := h m hm
  simp only [Run.bind_apply]
  cases hx : x m with
  | mk result m' =>
    rw [hx] at hstore hagrees heq
    cases hagrees with
    | error =>
      refine ⟨nesting', _, hn, hstore, .error trivial, fun watch hwatch => ?_⟩
      rw [heq watch hwatch]
    | ok ha =>
      obtain ⟨nesting'', outcome', hn', hstore', hagrees', heq'⟩ := hf nesting' _ _ hn ha m' hstore
      refine ⟨nesting'', outcome', hn.trans hn', hstore', hagrees', fun watch hwatch => ?_⟩
      rw [heq watch (hn'.trans hwatch)]
      exact heq' watch hwatch

/-- What is related being the same, the checked run does the same. -/
theorem nests {good : Nesting → α → Prop} (h : Follows trees nesting S x y)
    (hs : ∀ nesting' a a', S nesting' a a' → a' = a ∧ good nesting' a) :
    Nests trees nesting good x y := by
  intro m hm
  obtain ⟨nesting', outcome, hn, hstore, hagrees, heq⟩ := h m hm
  refine ⟨nesting', hn, hstore, ?_⟩
  cases hx : x m with
  | mk result m' =>
    rw [hx] at hagrees heq
    cases hagrees with
    | ok ha =>
      obtain ⟨rfl, hgood⟩ := hs nesting' _ _ ha
      exact ⟨hgood, heq⟩
    | error => exact ⟨trivial, heq⟩

end Follows

namespace Nests

variable {α : Type} {good : Nesting → α → Prop} {x : Run α} {y y' : Watch → Run α}

theorem follows {S : Nesting → α → α → Prop} (h : Nests trees nesting good x y)
    (hs : ∀ nesting' a, good nesting' a → S nesting' a a) : Follows trees nesting S x y := by
  intro m hm
  obtain ⟨nesting', hn, hstore, hends, heq⟩ := h m hm
  refine ⟨nesting', (x m).1, hn, hstore, ?_, heq⟩
  cases hx : (x m).1 with
  | ok a =>
    rw [hx] at hends
    exact .ok (hs nesting' a hends)
  | error failure => exact .error trivial

theorem congr (h : Nests trees nesting good x y)
    (hy : ∀ watch : Watch, nesting <+: watch.nesting → y' watch = y watch) :
    Nests trees nesting good x y' := by
  intro m hm
  obtain ⟨nesting', hn, hstore, hends, heq⟩ := h m hm
  refine ⟨nesting', hn, hstore, hends, fun watch hf => ?_⟩
  rw [hy watch (hn.trans hf), heq watch hf]

end Nests

/-- An evaluator nests: it evaluates what stands in a scope where it stands, and does the same as
one that is told the literals around. -/
def Evaluator.Nests (trees : List Node) (eval : Evaluator)
    (eval' : Watch → List Node → Evaluator) : Prop :=
  ∀ nesting around node scope, nesting[scope]? = some around → node.StandsIn trees around →
    Evaluation.Nests trees nesting (AtHome trees) (eval node scope)
      fun watch => eval' watch around node scope

/-! ## The coupling -/

/-- What stands where the entry of its scope says, and values that are at home. -/
def placed (trees : List Node) (nesting : Nesting) : Sorts where
  allows _ scope n := ∃ around, nesting[scope]? = some around ∧ n.StandsIn trees around
  outer scope n := ∃ around, nesting[scope]? = some around ∧ n.StandsIn trees around
  good := AtHome trees nesting
  vacates _ := True
  binds scope name := ∃ around, nesting[scope]? = some around ∧ Owns trees around name
  part := by
    rintro role role' scope n m ⟨around, hs, h⟩ hrole hp
    have hliteral : n.isLiteral = false := by
      cases hp with
      | ofProgram hn | ofBlock hn => cases n <;> first | rfl | cases hn
      | _ => first | rfl | exact absurd rfl hrole
    exact ⟨around, hs, .child h hliteral hp.mem_children⟩
  operand := by
    rintro scope n m ⟨around, hs, h⟩ hp
    have hliteral : n.isLiteral = false := by cases hp <;> rfl
    exact ⟨around, hs, .child h hliteral hp.mem_children⟩
  makes := by
    rintro scope n v ⟨around, hs, h⟩ hv
    cases hv with
    | function =>
      intro literal captured hc
      cases hc
      exact ⟨around, hs, h⟩
    | number | boolean | string => exact atHome_of_closureless rfl
    | unary hm => cases hm <;> exact atHome_of_closureless rfl
    | binary hm => cases hm <;> exact atHome_of_closureless rfl
  content h := h
  target := by
    rintro scope r a b name ⟨around, hs, h⟩ hname
    exact ⟨around, hs, h.owns hname⟩
  emptyBranch _ := trivial
  emptyBlock _ := trivial
  emptyProgram _ := trivial

/-- **Being in place, as a coupling** with an evaluator under a watch.  The worlds are nestings,
and they grow. -/
def placement (trees : List Node) : Coupling Watch where
  World := Nesting
  order :=
    { le := (· <+: ·)
      le_refl := List.prefix_refl
      le_trans := fun _ _ _ => List.IsPrefix.trans }
  sorts := placed trees
  name := Eq
  idle := False
  scope _ := Eq
  sorts_below {w w'} hw := by
    have hentry : ∀ {P : List Node → Prop} {scope : ScopeId},
        (∃ around, w[scope]? = some around ∧ P around) →
          ∃ around, w'[scope]? = some around ∧ P around := by
      rintro P scope ⟨around, hs, h⟩
      exact ⟨around, Nesting.entry_of_prefix hw hs, h⟩
    exact ⟨hentry, fun h => h.mono hw, id, hentry, hentry⟩
  scope_mono _ h := h
  runs nesting _ S := Follows trees nesting S
  done := .done
  fail _ hf := by
    rw [hf.eq fun _ _ h => h]
    exact .fail
  bind h hf := h.bind hf
  record {w _ _} he m hm := by
    rw [he.eq fun _ _ h => h]
    exact ⟨w, .ok (), List.prefix_refl _, hm, .ok trivial, fun _ _ => rfl⟩
  get? := by
    rintro w a a' n n' rfl rfl m hm
    refine ⟨w, _, List.prefix_refl _, hm, .ok ?_, fun _ _ => rfl⟩
    cases hv : m.store.get? a n with
    | none => exact .none
    | some v => exact .some ⟨.self (fun _ => rfl) fun _ _ => rfl, hm.atHome hv⟩
  bindIn := by
    rintro w a a' n n' v v' rfl ⟨around, hs, hn⟩ rfl ⟨hv, hhome⟩ m hm
    obtain rfl : v' = v := hv.eq (fun _ _ h => h) id fun _ _ h => h
    exact ⟨w, _, List.prefix_refl _, hm.bind hs hn hhome, .ok trivial, fun _ _ => rfl⟩

/-! ### What is related is the same -/

theorem placement_value_iff {v v' : Value} :
    (placement trees).value nesting v v' ↔ v' = v ∧ AtHome trees nesting v := by
  constructor
  · rintro ⟨hv, hhome⟩
    exact ⟨hv.eq (fun _ _ h => h) id fun _ _ h => h, hhome⟩
  · rintro ⟨rfl, hhome⟩
    exact ⟨.self (fun _ => rfl) fun _ _ => rfl, hhome⟩

theorem placement_values_iff {vs vs' : List Value} :
    (placement trees).values nesting vs vs' ↔ vs' = vs ∧ ∀ v ∈ vs, AtHome trees nesting v :=
  Pairing.values_iff fun _ _ => placement_value_iff

/-- Runs whose values are related nest. -/
theorem nests_of_runs {x : Run Value} {y : Watch → Run Value}
    (h : (placement trees).runs nesting (placement trees).value x y) :
    Nests trees nesting (AtHome trees) x y :=
  Follows.nests h fun _ _ _ => placement_value_iff.mp

theorem runs_of_nests {x : Run Value} {y : Watch → Run Value}
    (h : Nests trees nesting (AtHome trees) x y) :
    (placement trees).runs nesting (placement trees).value x y :=
  h.follows fun _ _ hv => placement_value_iff.mpr ⟨rfl, hv⟩

variable {verbosity : Nat} {eval : Evaluator} {eval' : Watch → List Node → Evaluator}
  {scope : ScopeId}

/-- In a scope with an entry, an evaluator that nests is compared with the one that is told these
literals. -/
theorem Evaluator.Nests.couples (he : eval.Nests trees eval') (hs : nesting[scope]? = some around) :
    (placement trees).Couples nesting scope scope eval fun watch => eval' watch around := by
  rintro nesting' hn n n' ⟨around', hs', h⟩ hvariant
  obtain rfl : n = n' := (hvariant.eq (fun _ _ h => h) id).symm
  obtain rfl : around = around' :=
    Option.some.inj ((Nesting.entry_of_prefix hn hs).symm.trans hs')
  exact runs_of_nests (he nesting' around n scope hs' h)

/-! ## Calls -/

/-- What makes no scope passes. -/
theorem called_of_size_eq {watch : Watch} {literal : Node} {captured : ScopeId}
    {call : Run Value} {m : Machine}
    (h : (call m).2.store.scopes.size = m.store.scopes.size) :
    called watch literal captured call m = call m := by
  have hpass : makesScopeOf watch.nesting literal captured m (call m).2 = true := by
    simp [makesScopeOf, h]
  exact if_pos hpass

/-- What leaves all scopes alone is not part of what is checked. -/
theorem called_bind {watch : Watch} {literal : Node} {captured : ScopeId} {α : Type}
    {x : Run α} {f : α → Run Value} (hx : ∀ m, (x m).2.store = m.store) :
    called watch literal captured (x >>= f) =
      x >>= fun a => called watch literal captured (f a) := by
  funext m
  rw [Run.bind_apply]
  cases hxm : x m with
  | mk outcome m' =>
    have hstore : m'.store = m.store := by rw [← hx m, hxm]
    cases outcome with
    | ok a =>
      have hboth : (x >>= f) m = f a m' := by rw [Run.bind_apply, hxm]
      simp only [called, makesScopeOf, hboth, hstore]
    | error failure =>
      have hboth : (x >>= f) m = (.error failure, m') := by rw [Run.bind_apply, hxm]
      rw [called_of_size_eq (by rw [hboth, hstore]), hboth]

/-- A scope is made inside another and gets its entry; what goes on in it is checked first for
that. -/
theorem nests_addChild {literal : Node} {captured : ScopeId}
    {f : ScopeId → Run Value} {g : Watch → ScopeId → Run Value}
    (hc : nesting[captured]? = some around)
    (hf : ∀ nesting' scope, nesting <+: nesting' → nesting'[scope]? = some (literal :: around) →
      Nests trees nesting' (AtHome trees) (f scope) fun watch => g watch scope) :
    Nests trees nesting (AtHome trees) (Run.addChild captured >>= f)
      fun watch => called watch literal captured (Run.addChild captured >>= g watch) := by
  intro m hm
  have hnew : (nesting ++ [literal :: around])[(m.store.addChild captured).2]? =
      some (literal :: around) := by
    rw [Store.addChild_snd, ← hm.length, List.getElem?_append_right (Nat.le_refl _), Nat.sub_self]
    rfl
  obtain ⟨nesting', hn, hstore, hends, heq⟩ := hf _ _ (List.prefix_append ..) hnew
    ⟨(m.store.addChild captured).1, m.events⟩ (hm.addChild hc literal)
  refine ⟨nesting', (List.prefix_append ..).trans hn, hstore, hends, fun watch hwatch => ?_⟩
  have hsame : (Run.addChild captured >>= g watch) m = (Run.addChild captured >>= f) m :=
    heq watch hwatch
  have hentry : watch.nesting[m.store.scopes.size]? = some (literal :: around) := by
    rw [Store.addChild_snd] at hnew
    exact Nesting.entry_of_prefix (hn.trans hwatch) hnew
  have hcaptured : watch.nesting[captured]? = some around :=
    Nesting.entry_of_prefix ((List.prefix_append ..).trans (hn.trans hwatch)) hc
  have hpass : makesScopeOf watch.nesting literal captured m
      ((Run.addChild captured >>= g watch) m).2 = true := by
    simp [makesScopeOf, hentry, hcaptured]
  rw [← hsame]
  exact if_pos hpass


/-- **A call keeps the nesting right**: its scope gets the called literal and the literals around
that, and then the body stands in that scope. -/
theorem nests_callFunction (he : eval.Nests trees eval') {r range : Range} {params : List Node}
    {body : Node} {captured : ScopeId} {values : List Value}
    (hf : AtHome trees nesting (.function r params body captured))
    (hv : ∀ v ∈ values, AtHome trees nesting v) :
    let literal := Node.function r params body
    Nests trees nesting (AtHome trees)
      (callFunction verbosity eval params body captured values range)
      fun watch => called watch literal captured
        (callFunction verbosity (eval' watch (literal :: watch.nesting[captured]?.getD []))
          params body captured values range) := by
  intro literal
  obtain ⟨around, hc, hstands⟩ := hf _ _ rfl
  have hself : ∀ n : Node, Node.Variant Eq False n n := fun n => Node.variant_self fun _ _ => rfl
  have hrecorded : ∀ m, (Run.whenVerbose verbosity 1 (do
      let names ← Run.orDefect .noName (Value.paramNames? params)
      Run.record (.call (Value.signature names) values.length range)) m).2.store = m.store := by
    intro m
    unfold Run.whenVerbose
    split
    · cases Value.paramNames? params <;> rfl
    · rfl
  -- The watch looks the literals around up in the final nesting; they are what they are now.
  suffices h : Nests trees nesting (AtHome trees)
      (callFunction verbosity eval params body captured values range) fun watch =>
        called watch literal captured (callFunction verbosity
          (eval' watch (literal :: around)) params body captured values range) by
    refine h.congr fun watch hwatch => ?_
    rw [Nesting.entry_of_prefix hwatch hc]
    rfl
  unfold callFunction
  by_cases hlength : values.length ≠ params.length
  · simp only [if_pos hlength]
    refine Nests.congr (y := fun _ => _) (Follows.fail.nests fun _ _ _ h => h) fun watch _ => ?_
    funext m
    exact called_of_size_eq rfl
  · simp only [if_neg hlength]
    simp only [called_bind hrecorded]
    have hfirst : Follows trees nesting (fun _ _ _ => True) _ _ := Follows.recorded hrecorded
    refine nests_of_runs ((placement trees).bind hfirst fun nesting' _ _ hn _ => ?_)
    refine runs_of_nests (nests_addChild (Nesting.entry_of_prefix hn hc)
      fun nesting'' scope hn' hscope => ?_)
    have hbinds : ∀ p ∈ params, ∀ name, p.name? = some name →
        ((placement trees).sorts nesting'').binds scope name := fun p hp name hname =>
      ⟨_, hscope, Or.inl (List.mem_filterMap.mpr ⟨p, hp, hname⟩)⟩
    have hnames : ∀ later, nesting'' <+: later → ∀ p ∈ params, p.name? = none →
        ((placement trees).sorts later).Blames (.defect .noName) := fun later hl p hp hname =>
      .noName (hf.mono ((hn.trans hn').trans hl)) hp hname
    refine nests_of_runs ((placement trees).bind (Coupling.bindParams rfl
      (Node.variantAll_self fun _ _ _ _ => rfl) hbinds hnames
      (placement_values_iff.mpr ⟨rfl, fun v hm => (hv v hm).mono (hn.trans hn')⟩))
      fun nesting₃ _ _ hn₃ _ => ?_)
    have hentry := Nesting.entry_of_prefix hn₃ hscope
    exact (placement trees).bind (Coupling.block (he.couples hentry) body body
      ⟨_, hentry, .body hstands⟩ (hself body)) fun _ _ _ _ hend => Coupling.finish hend body.range

/-! ## Expressions and programs -/

theorem nests_expressionIn (he : eval.Nests trees eval') :
    Evaluator.Nests trees (expressionWith verbosity eval) fun watch =>
      expressionIn watch verbosity (eval' watch) := by
  intro nesting around node scope hs h
  have hself : ∀ n : Node, Node.Variant Eq False n n := fun n => Node.variant_self fun _ _ => rfl
  have houter : ((placement trees).sorts nesting).outer scope node := ⟨around, hs, h⟩
  by_cases hcall : ∃ range callee args, node = .call range callee args
  · obtain ⟨range, callee, args, rfl⟩ := hcall
    refine nests_of_runs (Coupling.callWith (he.couples hs) houter (hself callee)
      (Node.variantAll_self fun _ _ _ _ => rfl) ?_)
    intro nesting' hn r params params' body body' captured captured' values values' hf hv
    obtain ⟨heq, hhome⟩ := placement_value_iff.mp hf
    cases heq
    obtain ⟨rfl, hvalues⟩ := placement_values_iff.mp hv
    exact runs_of_nests (nests_callFunction he hhome hvalues)
  · have hplain : ∀ watch : Watch, expressionIn watch verbosity (eval' watch) around node scope =
        expressionWith verbosity (eval' watch around) node scope := by
      intro watch
      cases node with
      | call range callee args => exact absurd ⟨range, callee, args, rfl⟩ hcall
      | _ => rfl
    simp only [hplain]
    exact nests_of_runs (Coupling.expressionWith_of_not_call (he.couples hs) rfl houter (hself node)
      fun range callee args hx => hcall ⟨range, callee, args, hx⟩)

theorem nests_programWith (he : eval.Nests trees eval') (hs : nesting[scope]? = some [])
    {tree : Node} (h : tree ∈ trees) :
    Nests trees nesting (AtHome trees) (programWith verbosity eval scope tree)
      fun watch => programWith verbosity (eval' watch []) scope tree := by
  have hallows : ((placement trees).sorts nesting).allows .program scope tree := ⟨[], hs, .top h⟩
  refine nests_of_runs (Coupling.mono (Coupling.programWith (he.couples hs) hallows
    (Node.variant_self fun _ _ => rfl) fun _ _ _ _ _ => Follows.fail) fun _ _ _ _ hends => ?_)
  obtain ⟨hends, -⟩ := hends
  refine ⟨hends.varies, ?_⟩
  cases hends with
  | value hv => exact hv.2
  | returned hv => exact hv.2
  | empty => exact atHome_of_closureless rfl

/-! ## All levels -/

/-- A name that belongs to no place around is reported as not bound. -/
theorem unbound_of_nested {verbosity : Nat} {eval : Evaluator} {scope : ScopeId} {m : Machine}
    (hm : Nested trees nesting m.store) (hs : nesting[scope]? = some around) {range : Range}
    {name : String} (hname : ∀ outer, outer <:+ around → ¬ Owns trees outer name) :
    (expressionWith verbosity eval (.identifier range name) scope m).1 =
      .error (.error ⟨.unboundIdentifier name, range⟩) := by
  have hnone := hm.get?_eq_none hs hname
  simp only [expressionWith, Run.bind_apply, Run.get?, hnone]
  rfl

/-- **Expressions are evaluated in their places**, and so is everything on the way. -/
theorem nests_expression (verbosity limit : Nat) :
    Evaluator.Nests trees (expression verbosity limit) fun watch =>
      placedExpression trees watch verbosity limit := by
  induction limit with
  | zero => exact fun _ _ _ _ _ _ => Follows.fail.nests fun _ _ _ => placement_value_iff.mp
  | succ limit ih =>
    intro nesting around node scope hs h m hm
    obtain ⟨nesting', hn, hstore, hends, heq⟩ :=
      nests_expressionIn ih nesting around node scope hs h m hm
    refine ⟨nesting', hn, hstore, hends, fun watch hwatch => ?_⟩
    have hsame : expressionIn watch verbosity
        (placedExpression trees watch verbosity limit) around node scope m =
          expressionWith verbosity (expression verbosity limit) node scope m := heq watch hwatch
    have hplace : InPlace trees watch.nesting around node scope m
        (expressionWith verbosity (expression verbosity limit) node scope m) := by
      refine ⟨h, (hm.mirrors hs).mono (hn.trans hwatch), hm.namesWithin (hn.trans hwatch),
        hstore.namesWithin hwatch, ?_⟩
      rintro range name rfl hname
      exact unbound_of_nested hm hs hname
    show Evaluator.tested _ watch.breach _ node scope m = _
    rw [Evaluator.tested, hsame]
    exact if_pos (by simp only [inPlace, hplace, decide_true])

/-! ## Sessions -/

/-- A session begins with a root and nothing bound in it. -/
theorem nested_start (trees : List Node) (verbosity : Nat) :
    Nested trees [[]] (Session.start verbosity).store := by
  have hparent : ∀ id, (Session.start verbosity).store.parent? id = none := by
    intro id
    cases id with
    | zero => rfl
    | succ id => exact Store.parent?_of_le (Nat.succ_le_succ (Nat.zero_le id))
  refine ⟨rfl, rfl, fun id p hp => ?_, fun id hid _ => Nat.lt_one_iff.mp hid, ?_, ?_⟩
  · rw [hparent] at hp
    cases hp
  · intro id around _ name hname
    rw [Store.names, Session.start, Store.bindings_addRoot_empty] at hname
    cases hname
  · intro id name v hv
    rw [Session.start, Store.bindings_addRoot_empty] at hv
    cases hv

/-- A tree is run in its place in the root of a session: running it under a watch, with whatever
failure where a check does not pass, is running it. -/
def RunsInPlace (trees : List Node) (nesting : Nesting) (s : Session) (tree : Node) : Prop :=
  ∀ breach : Failure,
    programWith s.verbosity (placedExpression trees ⟨nesting, breach⟩ s.verbosity nestingLimit [])
        Session.root tree ⟨s.store, []⟩ =
      programWith s.verbosity (expression s.verbosity nestingLimit) Session.root tree ⟨s.store, []⟩

/-- A session keeps a nesting right, and what the nesting becomes is right for all that was
run. -/
theorem exists_nesting (rest : List Node) (hrest : ∀ t ∈ rest, t ∈ trees) {s : Session}
    (hs : Nested trees nesting s.store) :
    ∃ nesting', nesting <+: nesting' ∧ Nested trees nesting' (s.after rest).store ∧
      ∀ earlier tree later, rest = earlier ++ tree :: later →
        ∀ final, nesting' <+: final → RunsInPlace trees final (s.after earlier) tree := by
  induction rest generalizing s nesting with
  | nil =>
    refine ⟨nesting, List.prefix_refl _, hs, fun earlier tree later h => ?_⟩
    cases earlier <;> cases h
  | cons first rest ih =>
    have hfirst : Nests trees nesting _ (programWith s.verbosity _ Session.root first) _ :=
      nests_programWith (nests_expression s.verbosity nestingLimit) hs.root
        (hrest first (List.mem_cons_self ..))
    obtain ⟨nesting₁, hn₁, hstore₁, -, heq⟩ := hfirst ⟨s.store, []⟩ hs
    rw [← store_run] at hstore₁
    obtain ⟨nesting₂, hn₂, hstore₂, hruns⟩ :=
      ih (fun t ht => hrest t (List.mem_cons_of_mem _ ht)) hstore₁
    refine ⟨nesting₂, hn₁.trans hn₂, hstore₂, fun earlier tree later h final hfinal => ?_⟩
    cases earlier with
    | nil =>
      -- The nesting that the later runs leave is one that the first run can be watched with.
      cases h
      exact fun breach => heq ⟨final, breach⟩ (hn₂.trans hfinal)
    | cons e earlier =>
      cases h
      exact hruns earlier tree later rfl final hfinal

/-- **The scopes mirror the text.**  However many trees are run in the root of a session, there
is one nesting, which says what literals are around the code of each scope, and every tree is
run in its place.  Every expression that is evaluated on the way stands in one of the trees with
certain literals around it, and the scopes outwards from its own are made by calls of just
these, with the root behind them; and all scopes, at all times, bind only names that belong to
their literal, or in the root to the trees.  A name that belongs to no place around is reported
as not bound. -/
theorem scopes_mirror_text (verbosity : Nat) (trees : List Node) :
    ∃ nesting : Nesting, nesting[Session.root]? = some [] ∧
      (∀ earlier tree later, trees = earlier ++ tree :: later →
        RunsInPlace trees nesting ((Session.start verbosity).after earlier) tree) ∧
      ((Session.start verbosity).after trees).store.NamesWithin trees nesting := by
  obtain ⟨nesting, -, hstore, hruns⟩ :=
    exists_nesting trees (fun _ h => h) (nested_start trees verbosity)
  exact ⟨nesting, hstore.root, fun earlier tree later h => hruns earlier tree later h nesting
    (List.prefix_refl _), hstore.namesWithin (List.prefix_refl _)⟩

/-- A function in a function, made by a call in one program and called in the next, finds the
parameter of the outer one: its scope hangs below that of the call that made it. -/
theorem scopes_mirror_text_closure :
    let here := Range.point Position.origin
    let name := Node.identifier here
    let inner := Node.function here [] (.block here [.returnStatement here (name "ㄱ")])
    let outer := Node.function here [name "ㄱ"] (.block here [.returnStatement here inner])
    let call := Node.call here (name "ㄴ") [.boolean here true]
    let first := Node.program here [.expressionStatement here
      (.assignment here (name "ㄴ") outer), .expressionStatement here
        (.assignment here (name "ㄷ") call)]
    let second := Node.program here [.expressionStatement here (.call here (name "ㄷ") [])]
    let s := (Session.start 0).after [first]
    (s.run Session.root second).1.outcome.toOption = some (.boolean here true) ∧
      ∃ nesting : Nesting, nesting[Session.root]? = some [] ∧
        RunsInPlace [first, second] nesting s second := by
  intro here name inner outer call first second s
  obtain ⟨nesting, hroot, hruns, -⟩ := scopes_mirror_text 0 [first, second]
  exact ⟨by decide +kernel, nesting, hroot, hruns [first] second [] rfl⟩

end Evaluation
end HangulScript
