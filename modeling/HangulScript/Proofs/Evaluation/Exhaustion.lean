import HangulScript.Proofs.Evaluation.Lockstep
import HangulScript.Proofs.Reading.Limits

/-!
# What fewer levels do to a run

A run with fewer levels is the run with more of them, or the beginning of it.  It cannot come to
another value or another error, because nothing in it depends on the levels before they are used
up; and then it ends at once.

That it is the beginning has to be said of what happens in the run and not of the machine it
leaves, for a later step can write what an earlier one has written.  A *journal* is what a run
has done to its machine, one entry after the other: names bound in scopes, scopes made, events
recorded.  The machine that is left is the one where the journal is carried out
(`run_eq_replay`), and a run that is cut short has a prefix of the other's journal.

## Why exhaustion cannot be caught

Something that intercepted exhaustion would have to tell it from other failures, or at least
from results.  Put any other failure in its place, at the bottom where no levels are left: if
anything in the language looked at it, a run would go on differently.  None does.  The run comes
to an end with the other failure just where it would have been exhausted, and it is the same run
otherwise.
-/

namespace HangulScript
namespace Evaluation

/-- Something that is done to a machine. -/
inductive Entry where
  | bound (scope : ScopeId) (name : String) (value : Value)
  | made (parent : ScopeId)
  | recorded (e : Event)

namespace Entry

/-- Does to a machine what an entry says. -/
def apply (m : Machine) : Entry → Machine
  | bound scope name value => { m with store := m.store.bind scope name value }
  | made parent => { m with store := (m.store.addChild parent).1 }
  | recorded e => { m with events := e :: m.events }

end Entry

/-- The machine after all that a journal says. -/
def replay (m : Machine) (journal : List Entry) : Machine := journal.foldl Entry.apply m

end Evaluation

namespace Script

open Evaluation (Entry replay)

variable {α β : Type}

/-- What a script does to a machine, one after the other. -/
def journal : Script α → Machine → List Entry
  | done _, _ => []
  | fail _, _ => []
  | get? scope name next, m => (next (m.store.get? scope name)).journal m
  | bindIn scope name value next, m =>
    .bound scope name value :: next.journal ((Entry.bound scope name value).apply m)
  | addChild parent next, m =>
    .made parent :: (next m.store.scopes.size).journal ((Entry.made parent).apply m)
  | record e next, m => .recorded e :: next.journal ((Entry.recorded e).apply m)

/-- The machine that a script leaves is what its journal makes of the machine it found. -/
theorem run_eq_replay (s : Script α) (m : Machine) : (s.run m).2 = replay m (s.journal m) := by
  induction s generalizing m with
  | done a => rfl
  | fail failure => rfl
  | get? scope name next ih => exact ih _ m
  | bindIn scope name value next ih => exact ih _
  | addChild parent next ih =>
    rw [run_addChild_apply]
    exact ih _ _
  | record e next ih => exact ih _

/-- Two runs end alike after doing the same, or else the first is exhausted in the middle of
what the second does. -/
def CutOrSame (c : Comparison) (R : α → β → Prop) (outcome : Except Failure α)
    (outcome' : Except Failure β) (journal journal' : List Entry) : Prop :=
  (c.cut ∧ outcome = .error .exhausted ∧ journal <+: journal') ∨
    OutcomeLike c R outcome outcome' ∧ journal = journal'

/-- An entry that both have made before. -/
theorem CutOrSame.cons {c : Comparison} {R : α → β → Prop} {outcome : Except Failure α}
    {outcome' : Except Failure β} {journal journal' : List Entry}
    (h : CutOrSame c R outcome outcome' journal journal') (entry : Entry) :
    CutOrSame c R outcome outcome' (entry :: journal) (entry :: journal') := by
  rcases h with ⟨hcut, ho, hp⟩ | ⟨ho, hj⟩
  · exact Or.inl ⟨hcut, ho, List.cons_prefix_cons.mpr ⟨rfl, hp⟩⟩
  · exact Or.inr ⟨ho, congrArg _ hj⟩

/-- **Cut short.**  Two scripts of equals that take their steps in pairs do the same to a
machine, or else the first is exhausted in the middle of what the second does. -/
theorem Like.cut_or_same {c : Comparison} (hc : c.Rigid) (hm : c.marks) (hu : ¬ c.named)
    {R : α → β → Prop} {s : Script α} {s' : Script β} (h : s.Like c R s') (m : Machine) :
    CutOrSame c R (s.run m).1 (s'.run m).1 (s.journal m) (s'.journal m) := by
  have hlevel := c.level hm
  induction h generalizing m with
  | done hr => exact Or.inr ⟨.ok hr, rfl⟩
  | fail h => exact Or.inr ⟨.error h, rfl⟩
  | @get? scope n n' next next' hn _ ih =>
    rw [hc.name] at hn
    subst hn
    refine ih _ _ ?_ m
    cases m.store.get? scope n with
    | none => exact .none
    | some v => exact .some (Value.like_self hc (Or.inl hm) fun h => absurd h hu)
  | @bindIn scope n n' v v' next next' hn hv _ ih =>
    rw [hc.name] at hn
    subst hn
    rw [hv.eq hc]
    exact (ih ((Entry.bound scope n v).apply m)).cons (.bound scope n v)
  | @addChild parent next next' _ ih =>
    rw [run_addChild_apply, run_addChild_apply]
    exact (ih m.store.scopes.size ((Entry.made parent).apply m)).cons (.made parent)
  | @record e e' next next' _ he _ ih =>
    rw [he.eq hc]
    exact (ih ((Entry.recorded e).apply m)).cons (.recorded e)
  | unheard hq hl => omega
  | nameless _ hq hl => omega
  | exhausted hcut => exact Or.inl ⟨hcut, rfl, List.nil_prefix⟩

end Script

/-- The same trees at one verbosity, with fewer levels for the first, or with another failure at
the bottom for the second. -/
def Comparison.levels (verbosity : Nat) (cut : Prop) (bottom : Failure) : Comparison where
  range := Eq
  name := Eq
  named := False
  marks := True
  loud := verbosity
  quiet := verbosity
  cut := cut
  bottom := bottom
  quiet_le := Nat.le_refl _
  level _ := Nat.le_refl _

theorem Comparison.rigid_levels (verbosity : Nat) (cut : Prop) (bottom : Failure) :
    (levels verbosity cut bottom).Rigid := ⟨rfl, rfl⟩

namespace Evaluation

/-- What evaluating a program does to a machine, one after the other. -/
def journal (verbosity limit : Nat) (scope : ScopeId) (node : Node) (m : Machine) : List Entry :=
  (Script.program .exhausted verbosity limit scope node).journal m

/-- Evaluating leaves the machine that its journal says. -/
theorem program_eq_replay (verbosity limit : Nat) (scope : ScopeId) (node : Node) (m : Machine) :
    (program verbosity limit scope node m).2 =
      replay m (journal verbosity limit scope node m) := by
  rw [Script.program_eq_run]
  exact Script.run_eq_replay _ m

/-- More levels change nothing but exhaustion. -/
theorem program_of_le (verbosity : Nat) {limit limit' : Nat} (hl : limit ≤ limit')
    (scope : ScopeId) (node : Node) (m : Machine) :
    (program verbosity limit scope node m = program verbosity limit' scope node m ∧
        journal verbosity limit scope node m = journal verbosity limit' scope node m) ∨
      (program verbosity limit scope node m).1 =
          .error (.error ⟨.callStackExhausted, node.range⟩) ∧
        journal verbosity limit scope node m <+: journal verbosity limit' scope node m := by
  have hc := Comparison.rigid_levels verbosity True .exhausted
  have hlike : Script.Like (.levels verbosity True .exhausted) _ _ _ :=
    Script.like_program hl (fun _ => trivial) scope
      (hc.node_like_self node False.elim)
  rcases hlike.cut_or_same hc trivial id m with ⟨-, ho, hp⟩ | ⟨ho, hj⟩
  · refine Or.inr ⟨?_, hp⟩
    rw [Script.program_eq_run]
    exact congrArg (reported node.range) ho
  · refine Or.inl ⟨?_, hj⟩
    rw [Script.program_eq_run, Script.program_eq_run, Script.run_eq_replay, Script.run_eq_replay]
    exact Prod.ext (congrArg (reported node.range) (ho.eq hc rfl).symm) (congrArg (replay m) hj)

/-- Another failure at the bottom comes out where exhaustion would have come out. -/
theorem programWith_over (bottom : Failure) (verbosity limit : Nat) (scope : ScopeId) (node : Node)
    (m : Machine) :
    programWith verbosity (expressionOver bottom verbosity limit) scope node m =
      match programWith verbosity (expression verbosity limit) scope node m with
      | (.error .exhausted, m') => (.error bottom, m')
      | result => result := by
  have hc := Comparison.rigid_levels verbosity False bottom
  have hlike : Script.Like (.levels verbosity False bottom) _ _ _ :=
    Script.like_program (Nat.le_refl limit) (fun h => absurd h (Nat.lt_irrefl _))
      scope
      (hc.node_like_self node False.elim)
  rcases hlike.cut_or_same hc trivial id m with ⟨hcut, -⟩ | ⟨ho, hj⟩
  · exact hcut.elim
  · rw [← expressionOver_exhausted, ← Script.run_program, ← Script.run_program]
    have hm : ((Script.program .exhausted verbosity limit scope node).run m).2 =
        ((Script.program bottom verbosity limit scope node).run m).2 := by
      rw [Script.run_eq_replay, Script.run_eq_replay]
      exact congrArg (replay m) hj
    change OutcomeLike _ _ ((Script.program .exhausted verbosity limit scope node).run m).1
      ((Script.program bottom verbosity limit scope node).run m).1 at ho
    generalize (Script.program .exhausted verbosity limit scope node).run m = r at ho hm ⊢
    generalize (Script.program bottom verbosity limit scope node).run m = r' at ho hm ⊢
    obtain ⟨outcome, m₁⟩ := r
    obtain ⟨outcome', m₁'⟩ := r'
    cases hm
    cases ho with
    | ok hv => rw [hv.eq hc]
    | @error failure _ h =>
      cases failure with
      | exhausted =>
        cases h
        rfl
      | error e => rw [h.eq hc fun he => by cases he]
      | defect d => rw [h.eq hc fun he => by cases he]

/-! ## The limit -/

/-- **The limit only ever puts exhaustion in the place of an outcome.**  With fewer levels, any
stream of tokens is read as it is with more of them, or is nested too deeply.  Any tree,
evaluated in any scope of any machine, has the same outcome, leaves the same scopes and has
recorded the same events, doing the same in between; or the outcome is exhaustion, over the
range of the whole tree, and what was bound, made and recorded is a prefix of what the run with
more levels binds, makes and records.  And nothing can catch exhaustion or notice it: a run with
any other failure in its place is the same run, and ends with that failure exactly where
exhaustion would have been its end. -/
theorem limit_only_exhausts (limit limit' : Nat) (hl : limit ≤ limit') :
    (∀ stream : TokenStream, Grammar.program limit stream = Grammar.program limit' stream ∨
      Grammar.TooDeep limit stream) ∧
    ∀ (verbosity : Nat) (scope : ScopeId) (tree : Node) (m : Machine),
      ((program verbosity limit scope tree m = program verbosity limit' scope tree m ∧
          journal verbosity limit scope tree m = journal verbosity limit' scope tree m) ∨
        (program verbosity limit scope tree m).1 =
            .error (.error ⟨.callStackExhausted, tree.range⟩) ∧
          journal verbosity limit scope tree m <+: journal verbosity limit' scope tree m) ∧
      (∀ n, (program verbosity n scope tree m).2 = replay m (journal verbosity n scope tree m)) ∧
      ∀ (n : Nat) (failure : Failure),
        programWith verbosity (expressionOver failure verbosity n) scope tree m =
          match programWith verbosity (expression verbosity n) scope tree m with
          | (.error .exhausted, m') => (.error failure, m')
          | result => result := by
  refine ⟨fun stream => ?_, fun verbosity scope tree m => ⟨?_, ?_, ?_⟩⟩
  · by_cases h : Grammar.TooDeep limit stream
    · exact Or.inr h
    · exact Or.inl (Grammar.program_eq_of_le h hl).symm
  · exact program_of_le verbosity hl scope tree m
  · exact fun n => program_eq_replay verbosity n scope tree m
  · exact fun n failure => programWith_over failure verbosity n scope tree m

/-- Two levels are enough for binding a truth value and not for negating one twice: the run ends
in the middle, with the first name bound. -/
theorem limit_only_exhausts_negation :
    let here := Range.point Position.origin
    let bind (name : String) (value : Node) : Node :=
      .expressionStatement here (.assignment here (.identifier here name) value)
    let yes := Node.boolean here true
    let tree := Node.program here [bind "x" yes, bind "y" (.unary here "!" (.unary here "!" yes))]
    let m : Machine := ⟨Store.empty.addRoot.1, []⟩
    2 ≤ 5 ∧ (program 0 2 0 tree m).1 = .error (.error ⟨.callStackExhausted, here⟩) ∧
      journal 0 2 0 tree m = [.bound 0 "x" (.boolean here true)] ∧
      journal 0 2 0 tree m <+: journal 0 5 0 tree m := by
  intro here bind yes tree m
  have hl : 2 ≤ 5 := by decide
  have ho : (program 0 2 0 tree m).1 = .error (.error ⟨.callStackExhausted, here⟩) := by
    decide +kernel
  have ho' : (program 0 5 0 tree m).1 = .ok (.boolean here true) := by decide +kernel
  refine ⟨hl, ho, rfl, ?_⟩
  rcases ((limit_only_exhausts 2 5 hl).2 0 0 tree m).1 with ⟨h, -⟩ | ⟨-, h⟩
  · rw [h, ho'] at ho
    cases ho
  · exact h

end Evaluation
end HangulScript
