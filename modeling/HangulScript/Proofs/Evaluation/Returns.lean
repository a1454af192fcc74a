import HangulScript.Proofs.Evaluation.Adequacy
import HangulScript.Proofs.Evaluation.Verbosity
import HangulScript.Proofs.Tree.Returns

/-!
# Where return errors come from

There are two errors about returns.  A call fails if the body of its function ends without a
return, and a program fails if a return reaches it.  Whether either can happen is written in the
text, up to which arms of branches are taken.  If a body always returns, no call of it fails for
the want of a return; if it holds no return statement, every call of it fails, and if not earlier
then for that; and a return reaches the program only if one stands outside of all function
literals.

Returns in other places are not mistaken for these.  The arguments of a call, its callee and the
predicates of branches are expressions, and so are all that calls and functions stand in; an
expression never comes to a marker, for a call takes the value out of it.  This is the invariant
(`unmarkedUpkeep`), and it needs that no name is bound to a marker to begin with.

## Every call on the way

What is said of a call is said of every call that is made in a run, however deep inside, and of
whatever function: one of the text, or one that was found bound.  So the rules are compared with
those of an evaluator that reviews its calls (`reviewedExpression`).  It carries out a call, looks
at what came of the body and of the call, and fails in some other way if the one does not account
for the other.  That it does the same as the evaluator, whatever it would fail with, says that
every call is accounted for.
-/

namespace HangulScript

theorem Bindings.eq_or_mem_of_mem_bind {name : String} {value : Value} {b : Bindings}
    {x : String × Value} (h : x ∈ b.bind name value) : x = (name, value) ∨ x ∈ b := by
  induction b with
  | nil => exact Or.inl (List.mem_singleton.mp h)
  | cons y rest ih =>
    rw [bind] at h
    split at h
    · rcases List.mem_cons.mp h with h | h
      · exact Or.inl h
      · exact Or.inr (List.mem_cons_of_mem y h)
    · rcases List.mem_cons.mp h with rfl | h
      · exact Or.inr List.mem_cons_self
      · exact (ih h).imp_right (List.mem_cons_of_mem y)

namespace Store.Unmarked

variable {s : Store}

theorem get? (h : s.Unmarked) {id : ScopeId} {name : String} {v : Value}
    (hv : s.get? id name = some v) : v.isReturned = false := by
  induction id using Nat.strongRecOn with
  | _ id ih =>
    rw [Store.get?_eq, Option.or_eq_some_iff] at hv
    rcases hv with hv | ⟨-, hv⟩
    · obtain ⟨before, behind, hb, -⟩ := List.lookup_eq_some_iff.mp hv
      exact h id (name, v) (hb ▸ List.mem_append_right before List.mem_cons_self)
    · obtain ⟨p, hp, hv⟩ := Option.bind_eq_some_iff.mp hv
      exact ih p (Store.parent?_lt hp) hv

theorem bind (h : s.Unmarked) (id : ScopeId) (name : String) {v : Value}
    (hv : v.isReturned = false) : (s.bind id name v).Unmarked := by
  intro other x hx
  by_cases ho : id = other
  · subst ho
    by_cases hs : id < s.scopes.size
    · rw [Store.bindings_bind_self s hs] at hx
      rcases Bindings.eq_or_mem_of_mem_bind hx with rfl | hx
      · exact hv
      · exact h id x hx
    · rw [Store.bindings_of_le (by rw [Store.size_bind]; exact Nat.le_of_not_lt hs)] at hx
      cases hx
  · rw [Store.bindings_bind_of_ne s ho] at hx
    exact h other x hx

theorem addChild (h : s.Unmarked) (parent : ScopeId) : (s.addChild parent).1.Unmarked := by
  intro id x hx
  rw [Store.bindings_addChild] at hx
  exact h id x hx

end Store.Unmarked

namespace Evaluation

/-! ## Calls that are reviewed -/

/-- What came of a body accounts for what came of its call.  If the body failed, the call failed
in that way.  If the body always returns, the call had a value, and so did not fail for the want
of a return.  If the body holds no return statement, the call had none, and failed for just that. -/
structure Accounts (body : Node) (ofBody ofCall : Except Failure Value) : Prop where
  failed : ∀ failure, ofBody = .error failure → ofCall = .error failure
  always : body.alwaysReturns = true → ∀ v, ofBody = .ok v → ∃ w, ofCall = .ok w
  never : ¬ body.HoldsReturn → (∀ w, ofCall ≠ .ok w) ∧
    ∀ v, ofBody = .ok v → ofCall = .error (.error ⟨.missingReturn, body.range⟩)

open Classical in
/-- A call that fails in some way of its own if its body does not account for it. -/
noncomputable def reviewedCall (breach : Failure) (verbosity : Nat) (eval : Evaluator)
    (params : List Node) (body : Node) (captured : ScopeId) (values : List Value)
    (range : Range) : Run Value := fun m =>
  let entered := enterFunction verbosity eval params body captured values range m
  let called := callFunction verbosity eval params body captured values range m
  if Accounts body entered.1 called.1 then called else (.error breach, called.2)

/-- Evaluates an expression; its call, if it is one, is reviewed. -/
noncomputable def reviewedWith (breach : Failure) (verbosity : Nat) (eval : Evaluator) : Evaluator
  | .call range callee args, scope => do
    match ← eval callee scope with
    | .function _ params body captured =>
      let values ← arguments eval scope args
      reviewedCall breach verbosity eval params body captured values range
    | other => Run.error (.notCallable other.typeName) callee.range
  | node, scope => expressionWith verbosity eval node scope

/-- Evaluates an expression, and reviews all calls that are made on the way. -/
noncomputable def reviewedExpression (breach : Failure) (verbosity : Nat) :
    (limit : Nat) → Evaluator
  | 0 => fun _ _ => Run.fail .exhausted
  | limit + 1 => reviewedWith breach verbosity (reviewedExpression breach verbosity limit)

/-! ## Runs -/

/-- If the failure is that a return reached the program, then something holds. -/
def EscapesOnlyIf (holds : Prop) (failure : Failure) : Prop :=
  ∀ r, failure = .error ⟨.topLevelReturn, r⟩ → holds

theorem EscapesOnlyIf.mono {holds holds' : Prop} (hh : holds → holds') (failure : Failure)
    (h : EscapesOnlyIf holds failure) : EscapesOnlyIf holds' failure :=
  fun r he => hh (h r he)

/-- What statements end with: a value that is no marker, and then they do not always return, or a
marker around one, and then they hold a return. -/
inductive Completion (always : Bool) (holds : Prop) : Value → Prop
  | value {v : Value} : v.isReturned = false → always = false → Completion always holds v
  | returned {v : Value} : v.isReturned = false → holds → Completion always holds (.returned v)

/-- From a store without markers, two runs do the same; they leave such a store, come to a good
result if they come to any, and fail for a return that reached the program only if something
holds. -/
abbrev Keeps (holds : Prop) {α : Type} (good : α → Prop) (x y : Run α) : Prop :=
  Upholds Store.Unmarked (EscapesOnlyIf holds) good x y

/-- An evaluator never comes to a marker, and another one does the same. -/
def Evaluator.Keeps (eval eval' : Evaluator) : Prop :=
  ∀ node scope, Evaluation.Keeps False (fun v => v.isReturned = false) (eval node scope)
    (eval' node scope)

/-! ## Markers as an upkeep -/

/-- All trees, and the values that are no markers. -/
def unmarkedSorts : Sorts where
  allows _ _ _ := True
  outer _ _ := True
  good v := v.isReturned = false
  vacates _ := True
  binds _ _ := True
  part _ _ _ := trivial
  operand _ _ := trivial
  makes _ hv := by
    cases hv with
    | unary hm => exact (unaryResult_of_means hm).2
    | binary hm => exact (binaryResult_of_means hm).2
    | _ => rfl
  content h := Bool.noConfusion h
  target _ _ := trivial
  emptyBranch _ := trivial
  emptyBlock _ := trivial
  emptyProgram _ := trivial

/-- **Evaluation keeps stores free of markers.**  No rule but that of the program fails for a return
that reached the program. -/
def unmarkedUpkeep (holds : Prop) : Upkeep where
  toSorts := unmarkedSorts
  inv := Store.Unmarked
  bad := EscapesOnlyIf holds
  region _ := True
  fails h r he := by
    cases h with
    | error hr => exact absurd (congrArg Error.cause (Failure.error.inj he)) hr
    | _ => cases he
  found h _ hv := ⟨h.get? hv, fun _ _ => trivial⟩
  bound h _ _ hv _ := h.bind _ _ hv

theorem unmarkedUpkeep_makesScopes (holds : Prop) : (unmarkedUpkeep holds).MakesScopes :=
  fun _ _ _ _ captured hs _ => ⟨hs.addChild captured, trivial, trivial, fun _ _ _ _ => trivial⟩

theorem completion_of_upkeep {always : Bool} {holds holds' vacant : Prop} {v : Value}
    (h : (unmarkedUpkeep holds').Completes always holds vacant v) : Completion always holds v := by
  have halways := h.always_eq_false
  cases h with
  | value hv => exact .value hv.1 (halways hv.1)
  | returned hv hh => exact .returned hv.1 hh
  | empty => exact .value rfl (halways rfl)

section Rules

variable {verbosity : Nat} {eval eval' : Evaluator} {scope : ScopeId} {holds : Prop}

/-- An evaluator that comes to no markers fails for no return that reached the program, whatever
that is to be blamed on. -/
theorem Evaluator.Keeps.compares (he : eval.Keeps eval') (holds : Prop) :
    (unmarkedUpkeep holds).Compares eval eval' :=
  fun node scope _ _ => (he node scope).mono (EscapesOnlyIf.mono False.elim)
    fun _ hv => ⟨hv, fun _ _ => trivial⟩

/-! ## Calls -/

/-- What a body comes to accounts for what is made of it. -/
theorem accounts_of_ends {body : Node} {x : Run Value} {m : Machine}
    (h : Ends (Completion body.alwaysReturns body.HoldsReturn) (EscapesOnlyIf False) (x m).1) :
    Accounts body (x m).1 ((x >>= finish body.range) m).1 ∧
      ((x >>= finish body.range) m).2 = (x m).2 ∧
        Ends (fun v => v.isReturned = false) (EscapesOnlyIf False)
          ((x >>= finish body.range) m).1 := by
  rw [Run.bind_apply]
  cases hx : x m with
  | mk outcome m' =>
    rw [hx] at h
    cases outcome with
    | error failure =>
      refine ⟨⟨fun _ hf => hf, fun _ v hv => ?_, fun _ => ⟨fun w hw => ?_, fun v hv => ?_⟩⟩, rfl,
        h⟩
      · cases hv
      · cases hw
      · cases hv
    | ok v =>
      cases h with
      | value hv halways =>
        show Accounts body (.ok v) (finish body.range v m').1 ∧ (finish body.range v m').2 = m' ∧
          Ends _ _ (finish body.range v m').1
        rw [finish_of_unmarked hv]
        refine ⟨⟨fun _ hf => ?_, fun ha => ?_, fun _ => ⟨fun w hw => ?_, fun _ _ => rfl⟩⟩, rfl,
          fun r hr => ?_⟩
        · cases hf
        · exact absurd (halways.symm.trans ha) Bool.false_ne_true
        · cases hw
        · cases hr
      | @returned w hw hholds =>
        refine ⟨⟨fun _ hf => ?_, fun _ _ _ => ⟨w, rfl⟩, fun hnone => absurd hholds hnone⟩, rfl, hw⟩
        cases hf

/-- **A call is accounted for**: the review of one is passed. -/
theorem keeps_reviewedCall (he : eval.Keeps eval') (breach : Failure) {r : Range}
    {params : List Node} {body : Node} {captured : ScopeId} {values : List Value} {range : Range}
    (hv : ∀ v ∈ values, v.isReturned = false) :
    Keeps False (fun v => v.isReturned = false)
      (callFunction verbosity eval params body captured values range)
      (reviewedCall breach verbosity eval' params body captured values range) := by
  have hf : (unmarkedUpkeep False).Good (.function r params body captured) :=
    ⟨rfl, fun _ _ => trivial⟩
  have hentered : Keeps False (Completion body.alwaysReturns body.HoldsReturn)
      (enterFunction verbosity eval params body captured values range)
      (enterFunction verbosity eval' params body captured values range) :=
    ((unmarkedUpkeep False).enterFunction (he.compares False) (unmarkedUpkeep_makesScopes False) hf
      fun v hm => ⟨hv v hm, fun _ _ => trivial⟩).imp fun _ => completion_of_upkeep
  intro m hm
  obtain ⟨hsame, hstore, hends⟩ := hentered m hm
  have hcalled : callFunction verbosity eval' params body captured values range m =
      callFunction verbosity eval params body captured values range m := by
    rw [callFunction_eq, callFunction_eq, Run.bind_apply, Run.bind_apply, hsame]
  obtain ⟨haccounts, hmachine, hresult⟩ := accounts_of_ends hends
  rw [← callFunction_eq] at haccounts hmachine hresult
  rw [hsame, ← hcalled] at haccounts
  refine ⟨?_, hmachine ▸ hstore, hresult⟩
  unfold reviewedCall
  rw [if_pos haccounts, hcalled]

/-! ## Expressions -/

/-- Only calls are reviewed. -/
theorem reviewedWith_of_not_call {breach : Failure} {node : Node}
    (h : ∀ r callee args, node ≠ .call r callee args) :
    reviewedWith breach verbosity eval node scope = expressionWith verbosity eval node scope := by
  cases node with
  | call r callee args => exact absurd rfl (h r callee args)
  | _ => rfl

theorem keeps_reviewedWith (he : eval.Keeps eval') (breach : Failure) :
    Evaluator.Keeps (expressionWith verbosity eval) (reviewedWith breach verbosity eval') := by
  intro node scope
  have hc : (unmarkedUpkeep False).Compares eval eval' := he.compares False
  by_cases hcall : ∃ r callee args, node = .call r callee args
  · obtain ⟨range, callee, args, rfl⟩ := hcall
    refine ((unmarkedUpkeep False).callWith (r := range) hc trivial trivial
      fun r params body captured values _ hv => ?_).imp fun _ hv => hv.1
    exact (keeps_reviewedCall (r := r) he breach fun v hm => (hv v hm).1).imp
      fun _ hv => ⟨hv, fun _ _ => trivial⟩
  · rw [reviewedWith_of_not_call fun r callee args hx => hcall ⟨r, callee, args, hx⟩]
    exact ((unmarkedUpkeep False).expressionWith hc trivial trivial
      fun _ _ _ _ => unmarkedUpkeep_makesScopes False).imp fun _ hv => hv.1

/-! ## Programs -/

theorem keeps_programWith (he : eval.Keeps eval') (node : Node) :
    Keeps node.HoldsReturn (fun _ => node.alwaysReturns = false)
      (programWith verbosity eval scope node) (programWith verbosity eval' scope node) := by
  refine ((unmarkedUpkeep node.HoldsReturn).programWith (he.compares _) trivial trivial
    fun r hh _ _ => ?_).imp fun v hv => hv.1.always_eq_false hv.2
  rcases hh with hh | ⟨v, hv, hret⟩
  · exact hh
  · exact absurd (hv.symm.trans hret) Bool.false_ne_true

end Rules

/-! ## All levels -/

theorem keeps_expression (breach : Failure) (verbosity limit : Nat) :
    Evaluator.Keeps (expression verbosity limit) (reviewedExpression breach verbosity limit) := by
  induction limit with
  | zero => exact fun _ _ => .fail fun _ he => by cases he
  | succ limit ih => exact keeps_reviewedWith ih breach

/-- **Return errors come from the text.**  Let any tree be run in any scope of a store that binds no
marker, with any limit.  Then every call that is made on the way is accounted for by the body of
the called function: a call fails for the want of a return only if the body does not always
return; and if the body holds no return statement outside of the literals in it, then the call has
no value, and it fails for the want of a return, at the range of the body, unless it failed
earlier.  A return reaches the program only if a return statement stands outside of all literals.
And if the tree always returns, it has no value. -/
theorem return_errors_from_text (verbosity limit : Nat) (scope : ScopeId) (tree : Node)
    (m : Machine) (hm : m.store.Unmarked) :
    (∀ breach, programWith verbosity (reviewedExpression breach verbosity limit) scope tree m =
        programWith verbosity (expression verbosity limit) scope tree m) ∧
      (∀ r, (program verbosity limit scope tree m).1 = .error (.error ⟨.topLevelReturn, r⟩) →
        tree.HoldsReturn) ∧
      (tree.alwaysReturns = true → ∀ v, (program verbosity limit scope tree m).1 ≠ .ok v) := by
  have hkeeps (breach : Failure) : Keeps tree.HoldsReturn (fun _ => tree.alwaysReturns = false)
      (programWith verbosity (expression verbosity limit) scope tree)
      (programWith verbosity (reviewedExpression breach verbosity limit) scope tree) :=
    keeps_programWith (keeps_expression breach verbosity limit) tree
  obtain ⟨-, -, hends⟩ := hkeeps .exhausted m hm
  rw [program_eq]
  refine ⟨fun breach => (hkeeps breach m hm).1.symm, fun r hr => ?_, fun halways v hv => ?_⟩
  · cases hx : (programWith verbosity (expression verbosity limit) scope tree m).1 with
    | ok v =>
      rw [hx] at hr
      cases hr
    | error failure =>
      rw [hx] at hr hends
      cases failure with
      | error e =>
        cases hr
        exact hends r rfl
      | _ => cases hr
  · cases hx : (programWith verbosity (expression verbosity limit) scope tree m).1 with
    | ok w =>
      rw [hx] at hends
      exact Bool.false_ne_true (hends.symm.trans halways)
    | error failure =>
      rw [hx] at hv
      cases failure <;> cases hv

/-- A function returns in both arms of a branch, and its call is an argument of a call of another,
in which there is no return: the second call fails, and the first does not. -/
theorem return_errors_from_text_argument :
    let here := Range.point Position.origin
    let there := Range.point ⟨0, 9⟩
    let arm (text : String) := Node.block here [.returnStatement here (.string here text)]
    let both := Node.function here [.identifier here "ㅈ"]
      (.block here [.branch here (.identifier here "ㅈ") (arm "a") (arm "b")])
    let plain := Node.function here [.identifier here "ㅈ"]
      (.block there [.expressionStatement here (.identifier here "ㅈ")])
    let tree := Node.program here [.expressionStatement here
      (.call here plain [.call here both [.boolean here false]])]
    let m : Machine := ⟨Store.empty.addRoot.1, []⟩
    m.store.Unmarked ∧
      (program 0 9 0 tree m).1 = .error (.error ⟨.missingReturn, there⟩) ∧
      (∀ breach, programWith 0 (reviewedExpression breach 0 9) 0 tree m =
          programWith 0 (expression 0 9) 0 tree m) ∧
        (∀ r, (program 0 9 0 tree m).1 = .error (.error ⟨.topLevelReturn, r⟩) →
          tree.HoldsReturn) ∧
        (tree.alwaysReturns = true → ∀ v, (program 0 9 0 tree m).1 ≠ .ok v) := by
  intro here there arm both plain tree m
  have hm : m.store.Unmarked := by
    intro id b hb
    rw [Store.bindings_addRoot_empty] at hb
    cases hb
  exact ⟨hm, by decide +kernel, return_errors_from_text 0 9 0 tree m hm⟩

end Evaluation
end HangulScript
