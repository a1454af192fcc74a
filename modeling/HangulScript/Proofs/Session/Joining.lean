import HangulScript.Proofs.Evaluation.Discipline
import HangulScript.Proofs.Grammar.Joining
import HangulScript.Proofs.Session.Layout

/-!
# A session is one program

Running two source texts in a session, one after the other, comes to the same as running the
text that has the second below the first.  What the two leave behind is in the store, and a
program goes on from one statement to the next by the store alone: the value of a statement is
forgotten as soon as there is a further one (`Evaluation.program_append`).  Events that are
there already make no difference (`Evaluation.program_after`).

The rows of the second text are others when it stands below the first.  So values, and the
functions that are bound, are the same but for ranges.  The statements of the first text stand
where they stood, and if one of them fails, it fails with the very same error.  The one error
with another range is exhaustion, which is ranged at the whole program.
-/

namespace HangulScript

/-! ## Events that are there already -/

/-- The machine on which some events were recorded before. -/
def Machine.after (earlier : List Event) (m : Machine) : Machine := ⟨m.store, m.events ++ earlier⟩

/-- A script does not see events. -/
theorem Script.run_after {α : Type} (s : Script α) (earlier : List Event) (m : Machine) :
    s.run (m.after earlier) = ((s.run m).1, (s.run m).2.after earlier) := by
  induction s generalizing m with
  | done a => rfl
  | fail failure => rfl
  | get? scope name next ih => exact ih _ m
  | bindIn scope name value next ih => exact ih ⟨m.store.bind scope name value, m.events⟩
  | addChild parent next ih =>
    rw [run_addChild_apply, run_addChild_apply]
    exact ih m.store.scopes.size ⟨(m.store.addChild parent).1, m.events⟩
  | record e next ih => exact ih ⟨m.store, e :: m.events⟩

namespace Evaluation

/-- A program does not see events. -/
theorem program_after (verbosity limit : Nat) (scope : ScopeId) (node : Node)
    (earlier : List Event) (m : Machine) :
    program verbosity limit scope node (m.after earlier) =
      ((program verbosity limit scope node m).1,
        (program verbosity limit scope node m).2.after earlier) := by
  rw [Script.program_eq_run, Script.program_eq_run, Script.run_after]

/-! ## Statements, one after the other -/

section TopLevel

variable (verbosity : Nat) (eval : Evaluator) (scope : ScopeId)

/-- What was there before the first statement is forgotten. -/
theorem topLevel_of_ne_nil {ns : List Node} (h : ns ≠ []) (last last' : Value) :
    topLevel verbosity eval scope last ns = topLevel verbosity eval scope last' ns := by
  cases ns with
  | nil => exact absurd rfl h
  | cons n ns => rfl

/-- The value of a statement is forgotten if there is a further one. -/
theorem topLevel_append {ns' : List Node} (h : ns' ≠ []) (ns : List Node)
    (last last' last'' : Value) :
    topLevel verbosity eval scope last (ns ++ ns') =
      topLevel verbosity eval scope last' ns >>= fun _ =>
        topLevel verbosity eval scope last'' ns' := by
  induction ns generalizing last last' with
  | nil => exact topLevel_of_ne_nil verbosity eval scope h last last''
  | cons n ns ih =>
    simp only [List.cons_append, topLevel, bind_assoc]
    congr 1
    funext v
    split
    · rfl
    · simp only [ih v v, bind_assoc]

end TopLevel

/-- **Statements and further statements.**  They are run like the first of the two, and if those
come to a value, like the further ones after them. -/
theorem program_append {ns' : List Node} (h : ns' ≠ []) (verbosity limit : Nat) (scope : ScopeId)
    (ns : List Node) (r r' : Range) (m : Machine) :
    program verbosity limit scope (.program r' (ns ++ ns')) m =
      match programWith verbosity (expression verbosity limit) scope (.program r ns) m with
      | (.ok _, m') => program verbosity limit scope (.program r' ns') m'
      | (.error failure, m') => (reported r' (.error failure), m') := by
  rw [program_eq]
  have hwith : programWith verbosity (expression verbosity limit) scope
      (.program r' (ns ++ ns')) m =
        (programWith verbosity (expression verbosity limit) scope (.program r ns) >>= fun _ =>
          programWith verbosity (expression verbosity limit) scope (.program r' ns')) m :=
    congrFun (topLevel_append verbosity _ scope h ns (.empty r') (.empty r) (.empty r')) m
  rw [hwith, Run.bind_apply]
  rcases programWith verbosity _ scope (.program r ns) m with ⟨outcome | failure, m'⟩
  · rfl
  · exact (program_eq verbosity limit scope _ m').symm

end Evaluation

namespace Session

theorem run_eq (s : Session) (scope : ScopeId) (tree : Node) :
    s.run scope tree =
      (let result := Evaluation.program s.verbosity Evaluation.nestingLimit scope tree ⟨s.store, []⟩
      (⟨result.1.mapError .evaluation, result.2.events.reverse⟩,
        ⟨s.verbosity, result.2.store⟩)) := rfl

/-- **A value in between.**  A program with the statements of two, of which the first comes to a
value: the second is run in the session that the first has left. -/
theorem run_append_of_ok {ns ns' : List Node} (h : ns' ≠ []) {s : Session} {scope : ScopeId}
    {r : Range} {v : Value} (hv : (s.run scope (.program r ns)).1.outcome = .ok v) (r' : Range) :
    s.run scope (.program r' (ns ++ ns')) =
      (⟨((s.run scope (.program r ns)).2.run scope (.program r' ns')).1.outcome,
          (s.run scope (.program r ns)).1.events ++
            ((s.run scope (.program r ns)).2.run scope (.program r' ns')).1.events⟩,
        ((s.run scope (.program r ns)).2.run scope (.program r' ns')).2) := by
  have happend := Evaluation.program_append h s.verbosity Evaluation.nestingLimit scope ns r r'
    ⟨s.store, []⟩
  simp only [run_eq, Evaluation.program_eq _ _ _ (.program r ns)] at hv ⊢
  rw [happend]
  generalize Evaluation.programWith _ _ _ (.program r ns) _ = first at hv ⊢
  obtain ⟨outcome, m⟩ := first
  cases outcome with
  | error failure =>
    cases failure <;> cases hv
  | ok w =>
    have hafter := Evaluation.program_after s.verbosity Evaluation.nestingLimit scope
      (.program r' ns') m.events ⟨m.store, []⟩
    have hm : (⟨m.store, []⟩ : Machine).after m.events = m := rfl
    rw [hm] at hafter
    simp only [hafter, Machine.after, List.reverse_append]

/-- **An error in between.**  A program with the statements of two, of which the first fails:
it fails with the same error, and leaves the same session.  Exhaustion is at its own range. -/
theorem run_append_of_error {ns ns' : List Node} (h : ns' ≠ []) {s : Session} {scope : ScopeId}
    {r : Range} {failure : RunFailure}
    (hf : (s.run scope (.program r ns)).1.outcome = .error failure) (r' : Range) :
    (s.run scope (.program r' (ns ++ ns'))).2 = (s.run scope (.program r ns)).2 ∧
      (s.run scope (.program r' (ns ++ ns'))).1.events = (s.run scope (.program r ns)).1.events ∧
      ((s.run scope (.program r' (ns ++ ns'))).1.outcome = .error failure ∨
        failure = .evaluation (.error ⟨.callStackExhausted, r⟩) ∧
          (s.run scope (.program r' (ns ++ ns'))).1.outcome =
            .error (.evaluation (.error ⟨.callStackExhausted, r'⟩))) := by
  have happend := Evaluation.program_append h s.verbosity Evaluation.nestingLimit scope ns r r'
    ⟨s.store, []⟩
  simp only [run_eq, Evaluation.program_eq _ _ _ (.program r ns)] at hf ⊢
  rw [happend]
  generalize Evaluation.programWith _ _ _ (.program r ns) _ = first at hf ⊢
  obtain ⟨outcome, m⟩ := first
  cases outcome with
  | ok w => cases hf
  | error reason =>
    refine ⟨rfl, rfl, ?_⟩
    cases reason with
    | exhausted =>
      cases hf
      exact Or.inr ⟨rfl, rfl⟩
    | error e | defect d => exact Or.inl hf

end Session

/-! ## Source texts, one below the other -/

theorem Grammar.endsInExpression_of_isBranch {n : Node} (h : n.isBranch = true) :
    endsInExpression n = false := by
  cases n <;> first | rfl | cases h

/-- **A session is one program.**  Let two source texts hold programs, the second one with a
statement, and let the seam be sound: the second text does not begin with a parenthesis or a
sign, or the first has no statements, or its last one is a branch.  Then the text with the second
below the first holds the statements of the first and those of the second, these further down by
one row more than there are newlines in the first.

And it runs as the two do, one after the other, in any session.  If the first comes to a value,
the whole has the value or the error of the second and leaves the same session, ranges aside.  If
the first fails, the whole fails with the same error and leaves the very same session; only
exhaustion, which is ranged at the whole of a program, has another range. -/
theorem session_is_one_program (a b : String) {ra rb : Range} {first second : List Node}
    (ha : Grammar.programOf a = .ok (.program ra first))
    (hb : Grammar.programOf b = .ok (.program rb second)) (hne : second ≠ [])
    (hseam : (∀ t ∈ (TokenStream.scan b).tokens.head?, t.kind ∉ Grammar.joiners) ∨ first = [] ∨
      ∃ last ∈ first.getLast?, last.isBranch = true) :
    ∃ r, Grammar.programOf (a ++ "\n" ++ b) = .ok (.program r (first ++
        Node.mapRangesAll (Range.mapEnds (Position.down (Source.rowsOf a.toList))) second)) ∧
      ∀ (s : Session) (scope : ScopeId),
        (∀ v, (s.runSource scope a).1.outcome = .ok v →
          (s.runSource scope (a ++ "\n" ++ b)).1.bare.outcome =
              ((s.runSource scope a).2.runSource scope b).1.bare.outcome ∧
            (s.runSource scope (a ++ "\n" ++ b)).1.bare.events =
              (s.runSource scope a).1.bare.events ++
                ((s.runSource scope a).2.runSource scope b).1.bare.events ∧
            (s.runSource scope (a ++ "\n" ++ b)).2.bare =
              ((s.runSource scope a).2.runSource scope b).2.bare) ∧
        ∀ failure, (s.runSource scope a).1.outcome = .error failure →
          (s.runSource scope (a ++ "\n" ++ b)).2 = (s.runSource scope a).2 ∧
            (s.runSource scope (a ++ "\n" ++ b)).1.events = (s.runSource scope a).1.events ∧
            ((s.runSource scope (a ++ "\n" ++ b)).1.outcome = .error failure ∨
              failure = .evaluation (.error ⟨.callStackExhausted, ra⟩) ∧
                (s.runSource scope (a ++ "\n" ++ b)).1.outcome =
                  .error (.evaluation (.error ⟨.callStackExhausted, r⟩))) := by
  obtain ⟨r, hjoin⟩ := Grammar.program_join ha hb fun last hlast he t ht => by
    rcases hseam with h | rfl | ⟨last', hlast', hbranch⟩
    · exact h t ht
    · cases hlast
    · obtain rfl : last = last' := Option.some.inj (hlast.symm.trans hlast')
      rw [Grammar.endsInExpression_of_isBranch hbranch] at he
      cases he
  generalize hdown : Range.mapEnds (Position.down (Source.rowsOf a.toList)) = down at hjoin ⊢
  have hne' : Node.mapRangesAll down second ≠ [] := by
    cases second with
    | nil => exact absurd rfl hne
    | cons n ns => exact List.cons_ne_nil _ _
  have hblank : (Node.program r (Node.mapRangesAll down second)).mapRanges Range.blank =
      (Node.program rb second).mapRanges Range.blank := by
    simp only [Node.mapRanges, Node.mapRangesAll_mapRangesAll]
    rfl
  refine ⟨r, hjoin, fun s scope => ?_⟩
  have hrun : ∀ t : Session, t.runSource scope a = t.run scope (.program ra first) := by
    intro t
    rw [Session.runSource, ha]
  have hrun' : ∀ t : Session, t.runSource scope b = t.run scope (.program rb second) := by
    intro t
    rw [Session.runSource, hb]
  have hwhole : s.runSource scope (a ++ "\n" ++ b) =
      s.run scope (.program r (first ++ Node.mapRangesAll down second)) := by
    rw [Session.runSource, show Grammar.programOf _ = _ from hjoin]
  rw [hrun, hrun', hwhole]
  refine ⟨fun v hv => ?_, fun failure hf => Session.run_append_of_error hne' hf r⟩
  rw [Session.run_append_of_ok hne' hv r]
  obtain ⟨hreport, hsession⟩ :=
    Session.run_of_blank (s := (s.run scope (.program ra first)).2) rfl scope hblank
  have houtcome := congrArg RunReport.outcome hreport
  have hevents := congrArg RunReport.events hreport
  refine ⟨houtcome, ?_, hsession⟩
  simp only [RunReport.bare, RunReport.mapRanges, List.map_append] at hevents ⊢
  rw [hevents]

/-- A binding and, on the next row, the name that is bound: the whole comes to what the name
comes to after the binding. -/
theorem session_is_one_program_binding :
    let row : Range := ⟨⟨0, 0⟩, ⟨0, 6⟩⟩
    let here : Range := ⟨⟨0, 0⟩, ⟨0, 0⟩⟩
    let first := [Node.expressionStatement row
      (.assignment row (.identifier here "x") (.string ⟨⟨0, 4⟩, ⟨0, 6⟩⟩ "a"))]
    let second := [Node.expressionStatement here (.identifier here "x")]
    let s := Session.start 0
    Grammar.programOf "x = \"a\"" = .ok (.program row first) ∧
      Grammar.programOf "x" = .ok (.program here second) ∧ second ≠ [] ∧
      (∀ t ∈ (TokenStream.scan "x").tokens.head?, t.kind ∉ Grammar.joiners) ∧
      (s.runSource Session.root "x = \"a\"").1.outcome = .ok (.string ⟨⟨0, 4⟩, ⟨0, 6⟩⟩ "a") ∧
      (s.runSource Session.root ("x = \"a\"" ++ "\n" ++ "x")).1.bare.outcome =
        ((s.runSource Session.root "x = \"a\"").2.runSource Session.root "x").1.bare.outcome := by
  intro row here first second s
  have ha : Grammar.programOf "x = \"a\"" = .ok (.program row first) := by decide +kernel
  have hb : Grammar.programOf "x" = .ok (.program here second) := by decide +kernel
  have hne : second ≠ [] := List.cons_ne_nil _ _
  have hseam : ∀ t ∈ (TokenStream.scan "x").tokens.head?, t.kind ∉ Grammar.joiners := by
    decide +kernel
  have hv : (s.runSource Session.root "x = \"a\"").1.outcome =
      .ok (.string ⟨⟨0, 4⟩, ⟨0, 6⟩⟩ "a") := by
    rw [Session.runSource, ha]
    decide +kernel
  obtain ⟨r, -, hrun⟩ :=
    session_is_one_program "x = \"a\"" "x" ha hb hne (Or.inl hseam)
  exact ⟨ha, hb, hne, hseam, hv, ((hrun s Session.root).1 _ hv).1⟩

end HangulScript
