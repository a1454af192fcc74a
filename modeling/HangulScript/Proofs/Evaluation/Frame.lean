import HangulScript.Proofs.Evaluation.Upkeep

/-!
# What evaluating leaves alone

Evaluating in a scope writes that scope and no other that was there before.  Scopes around
it, scopes that closures captured and scopes of callers keep their names, their values and
their parents; the scope itself only gains names.  A call writes nothing that was there
before, not even the scope that its function was made in, because it works in a scope of its
own.

## The shape of the proof

`WritesAtMost own` relates two stores, one before and one after.  The store before is kept
fixed, and then this is a property of the store after, and one that evaluation keeps up
(`frameUpkeep`).  It goes on in the scope that may be written, and binds there.

A call changes the scope.  The scope it makes is newer than all that were there before, and
writing a newer scope is writing nothing as far as those are concerned
(`WritesAtMost.within`).  With this the call fits in, and the induction on the number of
levels closes.
-/

namespace HangulScript
namespace Bindings

/-- A name that is bound keeps its place, and another one is put behind all others. -/
theorem names_bind (name : String) (value : Value) (b : Bindings) :
    (b.bind name value).names = if name ∈ b.names then b.names else b.names ++ [name] := by
  induction b with
  | nil => rfl
  | cons x rest ih =>
    unfold names at ih ⊢
    by_cases hx : x.1 = name
    · simp [bind, hx]
    · by_cases hm : name ∈ rest.map Prod.fst
      · simp [bind, hx, ih, hm]
      · simp [bind, hx, ih, hm, Ne.symm hx]

/-- Binding keeps the names that are bound, in their order. -/
theorem names_isPrefix_bind (name : String) (value : Value) (bindings : Bindings) :
    bindings.names <+: (bindings.bind name value).names := by
  rw [names_bind]
  split
  · exact List.prefix_refl _
  · exact List.prefix_append ..

end Bindings

namespace Store

/-- Of the scopes that a store has, at most one is written on the way to another store, or
none is: the others stay as they are, and all keep their parents and their names. -/
structure WritesAtMost (own : Option ScopeId) (s s' : Store) : Prop where
  size_le : s.scopes.size ≤ s'.scopes.size
  scope_eq : ∀ id, id < s.scopes.size → own ≠ some id → s'.scopes[id]? = s.scopes[id]?
  parent_eq : ∀ id, id < s.scopes.size → s'.parent? id = s.parent? id
  names_isPrefix : ∀ id, id < s.scopes.size → s.names id <+: s'.names id

namespace WritesAtMost

variable {own : Option ScopeId} {s s' s'' : Store}

theorem refl (own : Option ScopeId) (s : Store) : WritesAtMost own s s :=
  ⟨Nat.le_refl _, fun _ _ _ => rfl, fun _ _ => rfl, fun _ _ => List.prefix_refl _⟩

theorem trans (h : WritesAtMost own s s') (h' : WritesAtMost own s' s'') :
    WritesAtMost own s s'' := by
  refine ⟨Nat.le_trans h.size_le h'.size_le, ?_, ?_, ?_⟩
  · intro id hid hown
    have hid' := Nat.lt_of_lt_of_le hid h.size_le
    rw [h'.scope_eq id hid' hown, h.scope_eq id hid hown]
  · intro id hid
    have hid' := Nat.lt_of_lt_of_le hid h.size_le
    rw [h'.parent_eq id hid', h.parent_eq id hid]
  · intro id hid
    have hid' := Nat.lt_of_lt_of_le hid h.size_le
    exact (h.names_isPrefix id hid).trans (h'.names_isPrefix id hid')

/-- What writes nothing writes at most any one scope. -/
theorem of_none (h : WritesAtMost none s s') : WritesAtMost own s s' :=
  ⟨h.size_le, fun id hid _ => h.scope_eq id hid (by simp), h.parent_eq, h.names_isPrefix⟩

/-- Writing the scope that may be written, or one that is newer than a store, writes no other scope
of that store. -/
theorem within {id : ScopeId} (h : WritesAtMost own s s') (h' : WritesAtMost (some id) s' s'')
    (hid : own = some id ∨ s.scopes.size ≤ id) : WritesAtMost own s s'' := by
  rcases hid with rfl | hid
  · exact h.trans h'
  refine ⟨Nat.le_trans h.size_le h'.size_le, fun other hother hown => ?_, fun other hother => ?_,
    fun other hother => ?_⟩
  · have hne : some id ≠ some other := fun he => by
      cases he
      exact Nat.not_le_of_lt hother hid
    rw [h'.scope_eq other (Nat.lt_of_lt_of_le hother h.size_le) hne, h.scope_eq other hother hown]
  · rw [h'.parent_eq other (Nat.lt_of_lt_of_le hother h.size_le), h.parent_eq other hother]
  · exact (h.names_isPrefix other hother).trans
      (h'.names_isPrefix other (Nat.lt_of_lt_of_le hother h.size_le))

/-- Writing a scope that is newer than a store writes nothing of that store. -/
theorem of_newer {id : ScopeId} (h : WritesAtMost none s s') (h' : WritesAtMost (some id) s' s'')
    (hid : s.scopes.size ≤ id) : WritesAtMost none s s'' :=
  h.within h' (Or.inr hid)

/-- Binding in a scope writes that scope. -/
theorem bind (s : Store) (id : ScopeId) (name : String) (value : Value) :
    WritesAtMost (some id) s (s.bind id name value) := by
  refine ⟨?_, ?_, ?_, ?_⟩
  · exact Nat.le_of_eq (Array.size_modify ..).symm
  · intro other _ hne
    have hne' : id ≠ other := fun he => hne (congrArg some he)
    simp only [Store.bind, Array.getElem?_modify, if_neg hne']
  · intro other _
    exact parent?_bind s id name value other
  · intro other hother
    unfold names
    by_cases he : id = other
    · subst he
      rw [bindings_bind_self s hother]
      exact Bindings.names_isPrefix_bind name value _
    · simp only [bindings_bind_of_ne s he, List.prefix_refl]

/-- A new scope writes none of those before it. -/
theorem push (s : Store) {parent : Option ScopeId}
    (earlier : ∀ p, parent = some p → p < s.scopes.size) :
    WritesAtMost none s (s.push parent earlier).1 := by
  refine ⟨?_, ?_, ?_, ?_⟩
  · show s.scopes.size ≤ (s.scopes.push _).size
    rw [Array.size_push]
    exact Nat.le_succ _
  · intro id hid _
    simp only [Store.push, Array.getElem?_push_lt hid, Array.getElem?_eq_getElem hid]
  · intro id hid
    exact parent?_push_of_lt s earlier hid
  · intro id _
    simp only [names, bindings_push, List.prefix_refl]

theorem addChild (s : Store) (parent : ScopeId) :
    WritesAtMost none s (s.addChild parent).1 := by
  unfold Store.addChild
  split
  · exact push s _
  · exact push s _

end WritesAtMost

/-- A new scope is newer than all others, whether the one around it is there or not. -/
theorem addChild_snd (s : Store) (parent : ScopeId) : (s.addChild parent).2 = s.scopes.size := by
  unfold addChild
  split <;> rfl

end Store

/-- A run writes at most one of the scopes it finds, or none, however it ends. -/
def Run.WritesAtMost {α : Type} (own : Option ScopeId) (x : Run α) : Prop :=
  ∀ m : Machine, Store.WritesAtMost own m.store (x m).2.store

namespace Evaluation

open Run (WritesAtMost)

/-- Expressions that are evaluated in a scope write at most that scope. -/
def Evaluator.WritesItsScope (eval : Evaluator) : Prop :=
  ∀ node scope, WritesAtMost (some scope) (eval node scope)

/-! ## Frames as upkeeps -/

/-- **Evaluation keeps to its frame.**  From a store on, it goes on in the one scope of it that may
be written, or in newer ones, with whatever trees and values. -/
def frameUpkeep (own : Option ScopeId) (s : Store) : Upkeep where
  toSorts := .inScopes fun scope => own = some scope ∨ s.scopes.size ≤ scope
  inv := Store.WritesAtMost own s
  bad _ := True
  region _ := True
  fails _ := trivial
  found _ _ _ := ⟨trivial, fun _ _ => trivial⟩
  bound h _ hb _ _ := h.within (.bind ..) hb

/-- A new scope may be written, and making it writes nothing. -/
theorem frameUpkeep_makesScopes (own : Option ScopeId) (s : Store) :
    (frameUpkeep own s).MakesScopes := by
  intro t r params body captured ht _
  have hnewer : s.scopes.size ≤ (t.addChild captured).2 := by
    rw [Store.addChild_snd]
    exact ht.size_le
  exact ⟨ht.trans (.of_none (.addChild t captured)), trivial, Or.inr hnewer,
    fun _ _ _ _ => Or.inr hnewer⟩

section Rules

variable {verbosity : Nat} {eval : Evaluator}

theorem Evaluator.WritesItsScope.compares (he : eval.WritesItsScope) (own : Option ScopeId)
    (s : Store) : (frameUpkeep own s).Compares eval eval := by
  intro node scope h _ m hm
  refine ⟨rfl, hm.within (he node scope m) h, ?_⟩
  cases (eval node scope m).1 with
  | ok v => exact ⟨trivial, fun _ _ => trivial⟩
  | error failure => trivial

/-- What keeps to the frame of every store it begins with writes at most that scope. -/
theorem writesAtMost_of_upholds {α : Type} {own : Option ScopeId} {good : Store → α → Prop}
    {x : Run α}
    (h : ∀ s, Upholds (frameUpkeep own s).inv (frameUpkeep own s).bad (good s) x x) :
    WritesAtMost own x :=
  fun m => (h m.store m (.refl own m.store)).2.1

variable (he : eval.WritesItsScope)

include he

theorem writesAtMost_statement (scope : ScopeId) (node : Node) :
    WritesAtMost (some scope) (statement verbosity eval scope node) :=
  writesAtMost_of_upholds fun s =>
    (frameUpkeep (some scope) s).statement (he.compares _ s) trivial (Or.inl rfl)

theorem writesAtMost_block (scope : ScopeId) (node : Node) :
    WritesAtMost (some scope) (block verbosity eval scope node) :=
  writesAtMost_of_upholds fun s =>
    (frameUpkeep (some scope) s).block (he.compares _ s) trivial (Or.inl rfl)

/-- **A call writes nothing that was there before**: what it writes is the scope it makes. -/
theorem writesAtMost_callFunction (params : List Node) (body : Node) (captured : ScopeId)
    (values : List Value) (range : Range) :
    WritesAtMost none (callFunction verbosity eval params body captured values range) :=
  writesAtMost_of_upholds fun s => (frameUpkeep none s).callFunction (r := range) (he.compares _ s)
    (frameUpkeep_makesScopes none s) ⟨trivial, fun _ _ => trivial⟩
      fun _ _ => ⟨trivial, fun _ _ => trivial⟩

theorem writesItsScope_expressionWith : Evaluator.WritesItsScope (expressionWith verbosity eval) :=
  fun _ scope => writesAtMost_of_upholds fun s =>
    (frameUpkeep (some scope) s).expressionWith (he.compares _ s) trivial (Or.inl rfl)
      fun _ _ _ _ => frameUpkeep_makesScopes (some scope) s

end Rules

/-- Expressions write at most their scope, however many levels are left. -/
theorem writesItsScope_expression (verbosity limit : Nat) :
    Evaluator.WritesItsScope (expression verbosity limit) := by
  induction limit with
  | zero => exact fun node scope m => .refl _ _
  | succ limit ih => exact writesItsScope_expressionWith ih

theorem writesAtMost_program (verbosity limit : Nat) (scope : ScopeId) (node : Node) :
    WritesAtMost (some scope) (program verbosity limit scope node) :=
  have he := writesItsScope_expression verbosity limit
  writesAtMost_of_upholds fun s =>
    ((frameUpkeep (some scope) s).programWith (he.compares _ s) trivial (Or.inl rfl)
      fun _ _ => trivial).program fun _ => trivial

/-- **Evaluating writes its scope only, and a call writes nothing.**  Take any machine, any
scope and any node, and let it be evaluated as an expression, a statement, a block or a
program, to whatever end: with a value, a marker or a failure.  Every scope that was there,
that scope apart, is the same afterwards, its parent, its names and its values; that scope
keeps its parent, and its names stay and stay in order.  And a function that is called, with
whatever arguments, leaves all scopes that were there the same. -/
theorem evaluation_writes_own_scope_only (verbosity limit : Nat) (m : Machine) :
    (∀ (scope : ScopeId) (node : Node),
      Store.WritesAtMost (some scope) m.store (expression verbosity limit node scope m).2.store ∧
      Store.WritesAtMost (some scope) m.store
        (statement verbosity (expression verbosity limit) scope node m).2.store ∧
      Store.WritesAtMost (some scope) m.store
        (block verbosity (expression verbosity limit) scope node m).2.store ∧
      Store.WritesAtMost (some scope) m.store (program verbosity limit scope node m).2.store) ∧
    ∀ (params : List Node) (body : Node) (captured : ScopeId) (values : List Value)
      (range : Range),
      Store.WritesAtMost none m.store
        (callFunction verbosity (expression verbosity limit) params body captured values range
          m).2.store := by
  have he := writesItsScope_expression verbosity limit
  constructor
  · intro scope node
    exact ⟨he node scope m, writesAtMost_statement he scope node m,
      writesAtMost_block he scope node m, writesAtMost_program verbosity limit scope node m⟩
  · intro params body captured values range
    exact writesAtMost_callFunction he params body captured values range m

end Evaluation
end HangulScript
