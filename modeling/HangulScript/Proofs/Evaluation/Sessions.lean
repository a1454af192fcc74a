import HangulScript.Proofs.Evaluation.Independence
import HangulScript.Session

/-!
# What sessions leave behind

A scope is a number, and nothing about a number says that a store has a scope under it.  So what
is said of a call has to ask that everything is there that can be reached from its function and
its arguments (`Store.Closed`).  A session never comes to where this is not so.  It begins with a
root that binds nothing, and programs that are run in the root make functions in scopes that are
there (`closed_after`).  Whatever function is found in the root of a session, and whatever is
found for its arguments, the call is one of which it can be said what it depends on
(`closed_callOrigin_after`).
-/

namespace HangulScript

namespace Session

/-- A session after running trees in its root, one after the other. -/
def after (s : Session) (trees : List Node) : Session :=
  trees.foldl (fun t tree => (t.run root tree).2) s

end Session

namespace Evaluation

/-- A run of a tree leaves the store that evaluating it leaves. -/
theorem store_run (s : Session) (scope : ScopeId) (tree : Node) :
    (s.run scope tree).2.store = (programWith s.verbosity
      (expression s.verbosity nestingLimit) scope tree ⟨s.store, []⟩).2.store := by
  show (program s.verbosity nestingLimit scope tree ⟨s.store, []⟩).2.store = _
  unfold program
  split
  next h => rw [h]
  next => rfl

/-! ## Everything is there -/

/-- In a session that begins, only the root can be reached from the root. -/
theorem closed_start (verbosity : Nat) :
    (Session.start verbosity).store.Closed (· = Session.root) := by
  intro id hid
  suffices h : id = Session.root by
    rw [h]
    exact Nat.zero_lt_one
  induction hid with
  | here h => exact h
  | parent _ hp ih =>
    subst ih
    cases hp
  | captured _ hv _ _ =>
    rw [Session.start, Store.bindings_addRoot_empty] at hv
    cases hv

/-- A run of a tree in one of the scopes leaves everything there. -/
theorem closed_run {s : Session} {origin : ScopeId → Prop} (h : s.store.Closed origin)
    {scope : ScopeId} (hs : origin scope) (tree : Node) :
    (s.run scope tree).2.store.Closed origin :=
  closed_program s.verbosity nestingLimit hs tree (m := ⟨s.store, []⟩) h

/-- However many trees are run in the root of a session, everything is there that can be reached
from the root. -/
theorem closed_after (trees : List Node) {s : Session}
    (h : s.store.Closed (· = Session.root)) : (s.after trees).store.Closed (· = Session.root) := by
  induction trees generalizing s with
  | nil => exact h
  | cons tree trees ih => exact ih (closed_run h rfl tree)

/-- **Calls of what a session binds.**  After trees were run in the root of a session, let a
function be found there, and for each argument that is a function let that be found there as well.
Then everything is there that can be reached from the function and the arguments. -/
theorem closed_callOrigin_after (verbosity : Nat) (trees : List Node) {name : String} {r : Range}
    {params : List Node} {body : Node} {captured : ScopeId} {values : List Value}
    (hf : ((Session.start verbosity).after trees).store.get? Session.root name =
      some (.function r params body captured))
    (hv : ∀ v ∈ values, v.scope? ≠ none → ∃ name,
      ((Session.start verbosity).after trees).store.get? Session.root name = some v) :
    ((Session.start verbosity).after trees).store.Closed (callOrigin captured values) := by
  have hclosed := closed_after trees (closed_start verbosity)
  have hroot : ((Session.start verbosity).after trees).store.Reaches (· = Session.root)
      Session.root := .here rfl
  refine fun id hid => hclosed id (hid.trans fun c hc => ?_)
  rcases hc with rfl | ⟨v, hm, hc⟩
  · exact hroot.of_get? hf rfl
  · have hsome : v.scope? ≠ none := by
      rw [hc]
      exact Option.some_ne_none c
    obtain ⟨name, hname⟩ := hv v hm hsome
    exact hroot.of_get? hname hc

end Evaluation
end HangulScript
