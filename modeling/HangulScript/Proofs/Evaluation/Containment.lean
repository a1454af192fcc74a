import HangulScript.Proofs.Evaluation.Discipline
import HangulScript.Proofs.Grammar.Faults
import HangulScript.Session

/-!
# Markers and empty values are contained

Evaluating makes two values that no name is ever bound to.  The marker of a return is on its
way from the statement to the call, and the empty value is what a branch or a block without a
result has.  Neither of them meets an operator, is an argument or is bound.

This is the discipline that allows all trees, shaped or not, and admits the first-class values.
It says more than that results are first-class: the region takes in all scopes that the run
makes, and the tests of `bounds` look at every expression that is evaluated on the way.
-/

namespace HangulScript

namespace Store

/-- Whether everything bound in a scope itself is first-class. -/
def bindsFirstClass (s : Store) (scope : ScopeId) : Bool :=
  (s.names scope).all fun name => ((s.bindings scope).lookup name).all Value.isFirstClass

end Store

namespace Failure

/-- Whether a failure is an error that names first-class types only, or names no type. -/
def namesFirstClass : Failure → Bool
  | .error e => e.cause.typeNames.all (Value.firstClassTypes.contains ·)
  | _ => true

end Failure

namespace Evaluation

/-- All trees, and the first-class values. -/
def firstClass : Discipline where
  allows _ _ := True
  admits v := v.isFirstClass = true
  vacates _ := True
  shaped := False
  part _ _ := trivial
  serves h := h.elim
  firstClass h := h
  number _ := rfl
  boolean _ := rfl
  string _ := rfl
  sign _ _ := rfl
  negation _ := rfl
  arithmetic _ _ := rfl
  comparison _ _ := rfl
  function _ := rfl
  parameters _ _ _ := trivial
  body _ := trivial
  emptyBranch _ := trivial
  emptyBlock _ := trivial
  emptyProgram _ := trivial

/-- The test that an expression finds only first-class values bound in its scope, leaves only
such values bound there, and has such a value or fails with an error that names no other. -/
def bounds : Test := fun _ scope before result =>
  before.store.bindsFirstClass scope && result.2.store.bindsFirstClass scope &&
    match result.1 with
    | .ok value => value.isFirstClass
    | .error failure => failure.namesFirstClass

/-- From a store in which everything that can be reached from some scopes is first-class, a run
ends with a result of a kind or with a failure that names first-class types only; and whatever
could be reached, or was made on the way, binds first-class values only. -/
def Contains {α : Type} (origin : ScopeId → Prop) (good : α → Prop) (x : Run α) : Prop :=
  ∀ m : Machine, m.store.FirstClass origin →
    Ends good (fun failure => failure.namesFirstClass = true) (x m).1 ∧
      (x m).2.store.FirstClass (Region m.store origin)

variable {R : ScopeId → Prop}

theorem namesFirstClass_of_fails {failure : Failure} (h : firstClass.Fails failure) :
    failure.namesFirstClass = true := by
  cases failure with
  | error e =>
    refine List.all_eq_true.mpr fun type ht => ?_
    exact List.contains_iff_mem.mpr (h type ht)
  | _ => rfl

theorem bindsFirstClass_of_confined {s : Store} (h : firstClass.Confined R s) {scope : ScopeId}
    (hs : R scope) : s.bindsFirstClass scope = true := by
  refine List.all_eq_true.mpr fun name _ => ?_
  cases hv : (s.bindings scope).lookup name with
  | none => rfl
  | some v => exact (h.bound scope name v hs hv).1

/-- Staying in bounds is passing the test. -/
theorem allows_bounds : bounds.Allows firstClass R := by
  intro node scope m result hs hm hresult hends
  have h₁ := bindsFirstClass_of_confined hm hs
  have h₂ := bindsFirstClass_of_confined hresult hs
  unfold bounds
  rw [h₁, h₂]
  cases houtcome : result.1 with
  | ok value =>
    rw [houtcome] at hends
    exact hends.1
  | error failure =>
    rw [houtcome] at hends
    exact namesFirstClass_of_fails hends

/-- A run that stays in every region that takes in the scopes it begins from contains what it
makes. -/
theorem contains_of_stays {α : Type} {origin : ScopeId → Prop} {good : α → Prop} {x : Run α}
    (h : ∀ R : ScopeId → Prop, (∀ id, origin id → R id) →
      ∃ inside : α → Prop, Stays firstClass R inside x x ∧ ∀ a, inside a → good a) :
    Contains origin good x := by
  intro m hm
  obtain ⟨inside, hstays, hgood⟩ := h (Region m.store origin) fun id hid => Or.inl (.here hid)
  obtain ⟨-, hstore, hends⟩ := hstays m (confined_region hm)
  constructor
  · cases hx : (x m).1 with
    | ok a =>
      rw [hx] at hends
      exact hgood a hends
    | error failure =>
      rw [hx] at hends
      exact namesFirstClass_of_fails hends
  · intro id hid name v hv
    exact (hstore.bound id name v (hstore.of_reaches (fun _ h => h) hid) hv).1

/-! ## Sessions -/

/-- The sessions that a session comes to, by runs of trees in scopes that can be reached from
some scopes or were made since, and by making scopes inside such scopes. -/
inductive Later (s : Session) (origin : ScopeId → Prop) : Session → Prop
  | now : Later s origin s
  | run {t : Session} {scope : ScopeId} (tree : Node) : Later s origin t →
      Region s.store origin scope → Later s origin (t.run scope tree).2
  | addChild {t : Session} {parent : ScopeId} : Later s origin t →
      Region s.store origin parent → Later s origin (t.addChild parent).2

/-- An answer that is a first-class value or empty, or an error that names first-class types
only. -/
def Answers (report : RunReport) : Prop :=
  match report.outcome with
  | .ok value => value.isFirstClass = true ∨ value.isEmpty = true
  | .error failure => ∀ e, failure.error? = some e → ∀ type ∈ e.cause.typeNames,
      type ∈ Value.firstClassTypes

/-- What a program concludes with. -/
theorem firstClass_or_empty {v : Value} (h : firstClass.Concludes R v) :
    v.isFirstClass = true ∨ v.isEmpty = true := by
  obtain ⟨hc, hr⟩ := h
  cases hc with
  | value hv => exact Or.inl hv.1
  | returned => cases hr
  | empty => exact Or.inr rfl

theorem answers_run {t : Session} (ht : firstClass.Confined R t.store) {scope : ScopeId}
    (hs : R scope) (tree : Node) :
    Answers (t.run scope tree).1 ∧ firstClass.Confined R (t.run scope tree).2.store := by
  have hstays : Stays firstClass R (firstClass.Concludes R)
      (program t.verbosity nestingLimit scope tree) (program t.verbosity nestingLimit scope tree) :=
    stays_program t.verbosity nestingLimit hs trivial
  obtain ⟨-, hstore, hends⟩ := hstays ⟨t.store, []⟩ ht
  refine ⟨?_, hstore⟩
  unfold Answers Session.run
  cases hx : (program t.verbosity nestingLimit scope tree ⟨t.store, []⟩).1 with
  | ok value =>
    rw [hx] at hends
    simp only [hx]
    exact firstClass_or_empty hends
  | error failure =>
    rw [hx] at hends
    simp only [hx]
    rintro e he
    cases failure with
    | error e' =>
      cases he
      exact hends
    | _ => cases he

/-- The errors of reading name no type. -/
theorem typeNames_of_programOf {source : String} {e : Error}
    (h : Grammar.programOf source = .error (.error e)) : e.cause.typeNames = [] := by
  obtain ⟨_, he, hfound⟩ := Grammar.exists_error_of_program h
  cases he
  rcases hfound with ⟨fault, rfl⟩ | ⟨t, (rfl | ⟨kind, rfl⟩) | rfl⟩ <;> rfl

theorem answers_runSource {t : Session} (ht : firstClass.Confined R t.store) {scope : ScopeId}
    (hs : R scope) (source : String) : Answers (t.runSource scope source).1 := by
  unfold Session.runSource
  cases hp : Grammar.programOf source with
  | ok tree => exact (answers_run ht hs tree).1
  | error failure =>
    intro e he type ht
    cases failure with
    | error e' =>
      cases he
      rw [typeNames_of_programOf hp] at ht
      cases ht
    | _ => cases he

/-- Whatever a session comes to, its store is as confined as it was. -/
theorem confined_of_later {s t : Session} {origin : ScopeId → Prop}
    (h : s.store.FirstClass origin) (ht : Later s origin t) :
    firstClass.Confined (Region s.store origin) t.store := by
  induction ht with
  | now => exact confined_region h
  | run tree _ hs ih => exact (answers_run ih hs tree).2
  | addChild _ hp ih => exact (ih.addChild hp).1

/-- **Markers and empty values are contained.**  Take any tree at all, and any store in which
everything that can be reached from the scope is first-class.  However the run ends, an
expression has a first-class value; a statement has one, or a marker around one, or is empty
and a branch; a block has one, a marker around one, or is empty; a program has one or is empty.
So are arguments, and what calls give.  Whatever could be reached, or was made on the way,
binds first-class values only, and errors name no other types.  All this is so at every single
expression that is evaluated on the way.  And it goes on through all runs of a session. -/
theorem values_contained (verbosity limit : Nat) :
    (∀ (scope : ScopeId) (node : Node),
      Contains (· = scope) (fun v => v.isFirstClass = true)
        (expression verbosity limit node scope) ∧
      Contains (· = scope) (fun v => v.isFirstClass = true ∨
          (∃ w, v = .returned w ∧ w.isFirstClass = true) ∨
            (v.isEmpty = true ∧ node.isBranch = true))
        (statement verbosity (expression verbosity limit) scope node) ∧
      Contains (· = scope) (fun v => v.isFirstClass = true ∨
          (∃ w, v = .returned w ∧ w.isFirstClass = true) ∨ v.isEmpty = true)
        (block verbosity (expression verbosity limit) scope node) ∧
      Contains (· = scope) (fun v => v.isFirstClass = true ∨ v.isEmpty = true)
        (program verbosity limit scope node) ∧
      (∀ args, Contains (· = scope) (fun values => ∀ v ∈ values, v.isFirstClass = true)
        (arguments (expression verbosity limit) scope args)) ∧
      ∀ breach m, m.store.FirstClass (· = scope) →
        testedExpression bounds breach verbosity limit node scope m =
            expression verbosity limit node scope m ∧
          programWith verbosity (testedExpression bounds breach verbosity limit) scope node m =
            programWith verbosity (expression verbosity limit) scope node m) ∧
    (∀ (params : List Node) (body : Node) (captured : ScopeId) (values : List Value)
      (range : Range), (∀ v ∈ values, v.isFirstClass = true) →
        Contains (fun id => id = captured ∨ ∃ v ∈ values, v.scope? = some id)
          (fun v => v.isFirstClass = true)
          (callFunction verbosity (expression verbosity limit) params body captured values
            range)) ∧
    ∀ (s t : Session) (origin : ScopeId → Prop), s.store.FirstClass origin → Later s origin t →
      ∀ scope, Region s.store origin scope →
        (∀ tree, Answers (t.run scope tree).1) ∧ ∀ source, Answers (t.runSource scope source).1 := by
  have he : ∀ R : ScopeId → Prop, Evaluator.Stays firstClass R (expression verbosity limit)
      (expression verbosity limit) := fun _ => stays_expression_self verbosity limit
  refine ⟨fun scope node => ⟨?_, ?_, ?_, ?_, ?_, ?_⟩, ?_, ?_⟩
  · refine contains_of_stays fun R ho => ⟨_, he R node scope trivial (ho _ rfl), fun v hv => hv.1⟩
  · refine contains_of_stays fun R ho => ⟨_, stays_statement (he R) (ho _ rfl) node trivial, ?_⟩
    rintro v ⟨hc, hb⟩
    cases hc with
    | value hv => exact Or.inl hv.1
    | returned hv => exact Or.inr (Or.inl ⟨_, rfl, hv.1⟩)
    | empty => exact Or.inr (Or.inr ⟨rfl, hb rfl⟩)
  · refine contains_of_stays fun R ho => ⟨_, stays_block (he R) (ho _ rfl) node trivial, ?_⟩
    intro v hc
    cases hc with
    | value hv => exact Or.inl hv.1
    | returned hv => exact Or.inr (Or.inl ⟨_, rfl, hv.1⟩)
    | empty => exact Or.inr (Or.inr rfl)
  · exact contains_of_stays fun R ho => ⟨_, stays_program verbosity limit (ho _ rfl) trivial,
      fun v hv => firstClass_or_empty hv⟩
  · intro args
    exact contains_of_stays fun R ho => ⟨_, stays_arguments (he R) (ho _ rfl) fun _ _ => trivial,
      fun values hvs v hv => (hvs v hv).1⟩
  · intro breach m hm
    have hs : Region m.store (· = scope) scope := Or.inl (.here rfl)
    have ht := stays_expression (allows_bounds (R := Region m.store (· = scope))) breach verbosity
      limit
    have hprogram : Stays firstClass _ (firstClass.Concludes _) (programWith verbosity _ scope node)
        (programWith verbosity _ scope node) := stays_programWith ht hs trivial
    exact ⟨(ht node scope trivial hs m (confined_region hm)).1.symm,
      (hprogram m (confined_region hm)).1.symm⟩
  · intro params body captured values range hvalues
    refine contains_of_stays fun R ho => ⟨_, stays_callFunction (r := range) (he R) ⟨rfl, ?_⟩ ?_,
      fun v hv => hv.1⟩
    · intro c hc
      cases hc
      exact ho _ (Or.inl rfl)
    · exact fun v hv => ⟨hvalues v hv, fun c hc => ho c (Or.inr ⟨v, hv, hc⟩)⟩
  · intro s t origin hs ht scope hscope
    have hconfined := confined_of_later hs ht
    exact ⟨fun tree => (answers_run hconfined hscope tree).1,
      fun source => answers_runSource hconfined hscope source⟩

/-- A session begins with nothing bound. -/
theorem firstClass_start (verbosity : Nat) (origin : ScopeId → Prop) :
    (Session.start verbosity).store.FirstClass origin := by
  intro id _ name v hv
  rw [Session.start, Store.bindings_addRoot_empty] at hv
  cases hv

/-- What is first-class when a session begins is so in all that it comes to. -/
theorem firstClass_of_later {s t : Session} {origin : ScopeId → Prop}
    (h : s.store.FirstClass origin) (ht : Later s origin t) : t.store.FirstClass origin := by
  intro id hid name v hv
  have hconfined := confined_of_later h ht
  have hinside : Region s.store origin id :=
    hconfined.of_reaches (fun _ ho => Or.inl (.here ho)) hid
  exact (hconfined.bound id name v hinside hv).1

/-- A text and a function are bound first.  The body of the function has a branch over an empty
block and then a return, so a call of it comes by an empty value and by a marker.  Called twice,
it gives the text that it is given, and neither of the two is left behind. -/
theorem values_contained_call :
    let here := Range.point Position.origin
    let parameter := Node.identifier here "ㄱ"
    let body := Node.block here
      [.branch here (.boolean here true) (.block here []) .absent, .returnStatement here parameter]
    let definitions := Node.program here
      [.expressionStatement here (.assignment here (.identifier here "글") (.string here "가")),
        .expressionStatement here
          (.assignment here (.identifier here "지킴") (.function here [parameter] body))]
    let call := Node.program here
      [.expressionStatement here (.call here (.identifier here "지킴") [.identifier here "글"])]
    let s := ((Session.start 3).run Session.root definitions).2
    let t := (s.run Session.root call).2
    s.store.get? Session.root "글" = some (.string here "가") ∧
      s.store.get? Session.root "지킴" = some (.function here [parameter] body Session.root) ∧
      s.store.FirstClass (· = Session.root) ∧ Later s (· = Session.root) t ∧
      (t.run Session.root call).1.outcome.toOption = some (.string here "가") ∧
      Answers (t.run Session.root call).1 := by
  intro here parameter body definitions call s t
  have hroot (u : Session) : Region u.store (· = Session.root) Session.root := Or.inl (.here rfl)
  have hlater : Later (Session.start 3) (· = Session.root) s := Later.now.run definitions (hroot _)
  have hs : s.store.FirstClass (· = Session.root) :=
    firstClass_of_later (firstClass_start 3 _) hlater
  have ht : Later s (· = Session.root) t := Later.now.run call (hroot s)
  refine ⟨by decide +kernel, by decide +kernel, hs, ht, by decide +kernel, ?_⟩
  -- What the second call gives is no longer asked: without its value, `t` is not run again.
  clear_value t
  exact ((values_contained 3 nestingLimit).2.2 s t _ hs ht _ (hroot s)).1 call

end Evaluation
end HangulScript
