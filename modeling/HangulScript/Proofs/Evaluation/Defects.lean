import HangulScript.Proofs.Evaluation.Adequacy
import HangulScript.Proofs.Grammar.Faults
import HangulScript.Proofs.Rendering.RoundTrip
import HangulScript.Proofs.Rendering.Shapes
import HangulScript.Session

/-!
# No source text reaches a defect

A defect is a failure that no program is to blame for: a node where evaluation cannot take it, a
numeral without a value, an operator asked for a job that is not its own.  No source text comes
to one.  What is read has its nodes in their places, so the discipline of shaped trees applies,
and it is kept from run to run, for the bodies of all functions that are bound in any scope.

Operators are safe beyond that.  A tree from elsewhere may have any text for an operator, and any
node in any place.  But each operator is looked up in the tables before it is applied, and to
what values it is applied is looked up as well.  So whatever the tree and whatever is bound, it
is refused with an error of the program.  This is an upkeep that asks nothing of the store
(`operatorUpkeep`).
-/

namespace HangulScript

/-! ## Operators -/

namespace Evaluation

/-- A run never fails because an operator was asked for a job that is not its own. -/
def KnowsOperators {α : Type} (x : Run α) : Prop :=
  ∀ m operator, (x m).1 ≠ .error (.defect (.unknownOperator operator))

/-- A failure that no operator is to blame for. -/
def SparesOperators (failure : Failure) : Prop :=
  ∀ operator, failure ≠ .defect (.unknownOperator operator)

/-- **Evaluation asks no operator for a job that is not its own.**  Nothing is asked of the trees,
the values or the store: that an operator is looked up before it is applied is all there is
to it. -/
def operatorUpkeep : Upkeep where
  toSorts := .all
  inv _ := True
  bad := SparesOperators
  region _ := True
  fails h operator he := by
    cases h with
    | misplaced _ _ hop => exact hop operator (Failure.defect.inj he)
    | _ => cases he
  found _ _ _ := ⟨trivial, fun _ _ => trivial⟩
  bound _ _ _ _ _ := trivial

theorem operatorUpkeep_makesScopes : operatorUpkeep.MakesScopes :=
  fun _ _ _ _ _ _ _ => ⟨trivial, trivial, trivial, fun _ _ _ _ => trivial⟩

theorem operatorUpkeep_expression (verbosity limit : Nat) :
    operatorUpkeep.Compares (expression verbosity limit) (expression verbosity limit) := by
  induction limit with
  | zero => exact fun _ _ _ _ => Upholds.fail fun _ he => by cases he
  | succ limit ih =>
    exact fun _ _ _ _ => operatorUpkeep.expressionWith ih trivial trivial
      fun _ _ _ _ => operatorUpkeep_makesScopes

/-- **No tree makes an operator fail.** -/
theorem knowsOperators_program (verbosity limit : Nat) (scope : ScopeId) (node : Node) :
    KnowsOperators (program verbosity limit scope node) := by
  intro m operator he
  have hends : Ends _ SparesOperators (program verbosity limit scope node m).1 :=
    ((operatorUpkeep.programWith (operatorUpkeep_expression verbosity limit) trivial trivial
      fun _ _ _ he => by cases he).program (fun _ _ he => by cases he) m trivial).2.2
  rw [he] at hends
  exact hends operator rfl

end Evaluation

/-! ## Sessions -/

/-- Whether an answer is a value or an error of the program. -/
def RunReport.isValueOrError (report : RunReport) : Bool :=
  match report.outcome with
  | .ok _ => true
  | .error failure => failure.error?.isSome

namespace Session

/-- What one can do with a session: run a source text in a scope, or make a scope inside
another. -/
inductive Step where
  | runSource (scope : ScopeId) (source : String)
  | addChild (parent : ScopeId)

/-- A session after a step. -/
def step (s : Session) : Step → Session
  | .runSource scope source => (s.runSource scope source).2
  | .addChild parent => (s.addChild parent).2

/-- A session after steps, one after the other. -/
def steps (s : Session) (all : List Step) : Session := all.foldl step s

end Session

namespace Evaluation

/-- All scopes of a store bind only first-class values with shaped bodies. -/
abbrev ShapedThroughout (s : Store) : Prop := shapely.Confined (fun _ => True) s

/-- A tree that fits is run to a value or an error, and its functions are shaped. -/
theorem isValueOrError_run {s : Session} (hs : ShapedThroughout s.store) (scope : ScopeId)
    {tree : Node} (hfits : Node.fits .program tree = true) :
    (s.run scope tree).1.isValueOrError = true ∧
      ShapedThroughout (s.run scope tree).2.store := by
  have hstays : Stays shapely (fun _ => True) (shapely.Concludes fun _ => True)
      (program s.verbosity nestingLimit scope tree) (program s.verbosity nestingLimit scope tree) :=
    stays_program s.verbosity nestingLimit trivial hfits
  refine ⟨?_, (hstays ⟨s.store, []⟩ hs).2.1⟩
  have henv : ShapedFrom s.store (· = scope) := fun id _ name v hv =>
    (hs.bound id name v trivial hv).1
  unfold RunReport.isValueOrError Session.run
  rcases program_outcome s.verbosity nestingLimit [] hfits henv with
    ⟨v, hv, -⟩ | ⟨e, he, -⟩ | he
  · simp only [hv]
    rfl
  · simp only [he]
    rfl
  · simp only [he]
    rfl

/-- Any source text is run to a value or an error. -/
theorem isValueOrError_runSource {s : Session} (hs : ShapedThroughout s.store) (scope : ScopeId)
    (source : String) :
    (s.runSource scope source).1.isValueOrError = true ∧
      ShapedThroughout (s.runSource scope source).2.store := by
  unfold Session.runSource
  cases hp : Grammar.programOf source with
  | ok tree =>
    exact isValueOrError_run hs scope (Node.fits_of_renderable (Grammar.renderable_of_program hp))
  | error failure =>
    obtain ⟨e, rfl, -⟩ := Grammar.exists_error_of_program hp
    exact ⟨rfl, hs⟩

/-- A session stays shaped, whatever one does with it. -/
theorem shapedThroughout_steps {s : Session} (hs : ShapedThroughout s.store)
    (all : List Session.Step) : ShapedThroughout (s.steps all).store := by
  induction all generalizing s with
  | nil => exact hs
  | cons first rest ih =>
    refine ih ?_
    cases first with
    | runSource scope source => exact (isValueOrError_runSource hs scope source).2
    | addChild parent => exact (hs.addChild trivial).1

theorem shapedThroughout_start (verbosity : Nat) :
    ShapedThroughout (Session.start verbosity).store := by
  refine ⟨fun _ _ => trivial, fun _ _ _ _ => trivial, fun id name v _ hv => ?_⟩
  rw [Session.start, Store.bindings_addRoot_empty] at hv
  cases hv

/-- **No source text reaches a defect.**  What is read has its nodes where they belong and only
operators of the language, and what is not read has an error.  Every number token has a value.
Every run of a source text, by itself or after whatever else was run in the same session, gives
a value or an error of the program.  And no operator is ever asked for a job that is not its
own, whatever the tree and whatever is bound. -/
theorem sources_reach_no_defect :
    (∀ source, match Grammar.programOf source with
      | .ok tree => Node.fits .program tree = true ∧
          ∀ part : Node, part.IsPartOf tree → part.hasKnownOperator = true
      | .error failure => ∃ e, failure = .error e) ∧
    (∀ source, ∀ t ∈ (TokenStream.scan source).tokens, t.kind = .number →
      ∃ value, Numeral.value? t.text.toList = some value) ∧
    (∀ source, (runProgram source).1.isValueOrError = true) ∧
    (∀ verbosity all scope source,
      (((Session.start verbosity).steps all).runSource scope source).1.isValueOrError = true) ∧
    ∀ verbosity limit scope tree m operator,
      (program verbosity limit scope tree m).1 ≠ .error (.defect (.unknownOperator operator)) := by
  refine ⟨fun source => ?_, ?_, ?_, ?_, knowsOperators_program⟩
  · cases hp : Grammar.programOf source with
    | ok tree =>
      have hr : tree.Renderable := Grammar.renderable_of_program hp
      exact ⟨Node.fits_of_renderable hr, fun part => Node.hasKnownOperator_of_renderable hr⟩
    | error failure =>
      obtain ⟨e, he, -⟩ := Grammar.exists_error_of_program hp
      exact ⟨e, he⟩
  · intro source t ht
    exact Token.Scannable.valued ⟨source, t, ht, rfl, rfl⟩
  · exact fun source => (isValueOrError_runSource (shapedThroughout_start 0) _ source).1
  · intro verbosity all scope source
    have hs := shapedThroughout_steps (shapedThroughout_start verbosity) all
    exact (isValueOrError_runSource hs scope source).1

/-- A sum that is read: it fits, its operators are known, and its numerals have values. -/
theorem sources_reach_no_defect_sum :
    let source := "-1 + 2.5"
    ∃ tree, Grammar.programOf source = .ok tree ∧ Node.fits .program tree = true ∧
      (∀ part : Node, part.IsPartOf tree → part.hasKnownOperator = true) ∧
      ∃ t ∈ (TokenStream.scan source).tokens, t.kind = .number ∧
        ∃ value, Numeral.value? t.text.toList = some value := by
  intro source
  obtain ⟨hread, hnumbers, -⟩ := sources_reach_no_defect
  have htree := hread source
  let one : Token := ⟨.number, "1", ⟨⟨0, 1⟩, ⟨0, 1⟩⟩⟩
  have hone : one ∈ (TokenStream.scan source).tokens := by decide +kernel
  cases hp : Grammar.programOf source with
  | error failure =>
    have hok : (match Grammar.programOf source with
      | .ok _ => true
      | .error _ => false) = true := by decide +kernel
    rw [hp] at hok
    cases hok
  | ok tree =>
    rw [hp] at htree
    exact ⟨tree, rfl, htree.1, htree.2, one, hone, rfl, hnumbers source one hone rfl⟩

end Evaluation
end HangulScript
