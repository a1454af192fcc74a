import HangulScript.Evaluation.Store

/-!
# What can be reached in a store

From a scope one reaches its parent and the scopes that functions bound in it were made in;
from a value one reaches the scope that its function was made in.  Scopes and functions refer
to one another freely, and a scope often binds a function that was made in it, so what can be
reached is a closure and not a tree.

The lemmas below say how the three operations on stores look from a single scope: what it
binds, and what its parent is.
-/

namespace HangulScript
namespace Value

/-- Whether a value is one that a name can be bound to. -/
def isFirstClass : Value → Bool
  | .number .. | .boolean .. | .string .. | .function .. => true
  | .empty _ | .returned _ => false

/-- The scope that a function was made in. -/
def scope? : Value → Option ScopeId
  | .function _ _ _ scope => some scope
  | .returned value => value.scope?
  | _ => none

theorem isReturned_of_isFirstClass {v : Value} (h : v.isFirstClass = true) :
    v.isReturned = false := by
  cases v <;> first | rfl | cases h

/-- A first-class value has a text. -/
theorem exists_text_of_isFirstClass {v : Value} (h : v.isFirstClass = true) :
    ∃ text, v.text? = some text := by
  cases v <;> first | exact ⟨_, rfl⟩ | cases h

end Value

namespace Store

variable {s : Store}

/-- **Looking outwards.**  The own binding of a scope decides, and if there is none, its
parent does. -/
theorem get?_eq (s : Store) (id : ScopeId) (name : String) :
    s.get? id name =
      ((s.bindings id).lookup name).or ((s.parent? id).bind fun p => s.get? p name) := by
  rw [get?, outwards_eq, List.findSome?_cons]
  cases List.lookup name (s.bindings id) with
  | some v => rfl
  | none =>
    cases hp : s.parent? id with
    | none => rfl
    | some p => rfl

/-- Scopes beyond the last one bind nothing. -/
theorem bindings_of_le {id : ScopeId} (h : s.scopes.size ≤ id) : s.bindings id = [] := by
  simp [bindings, h]

/-- Scopes beyond the last one have no parent. -/
theorem parent?_of_le {id : ScopeId} (h : s.scopes.size ≤ id) : s.parent? id = none := by
  simp [parent?, h]

theorem size_bind (s : Store) (id : ScopeId) (name : String) (value : Value) :
    (s.bind id name value).scopes.size = s.scopes.size :=
  Array.size_modify ..

/-- What is bound in a scope after a name was bound in some scope. -/
theorem lookup_bindings_bind (s : Store) (id other : ScopeId) (name name' : String)
    (value : Value) :
    ((s.bind id name value).bindings other).lookup name' =
      if other = id ∧ name' = name ∧ id < s.scopes.size then some value
      else (s.bindings other).lookup name' := by
  by_cases ho : id = other
  · subst ho
    by_cases hs : id < s.scopes.size
    · rw [bindings_bind_self s hs, Bindings.lookup_bind]
      simp [hs]
    · have hb : (s.bind id name value).scopes.size ≤ id := by
        rw [size_bind]
        exact Nat.le_of_not_lt hs
      rw [bindings_of_le hb, bindings_of_le (Nat.le_of_not_lt hs)]
      simp [hs]
  · rw [bindings_bind_of_ne s ho]
    simp [Ne.symm ho]

theorem size_push (s : Store) {parent : Option ScopeId}
    (earlier : ∀ p, parent = some p → p < s.scopes.size) :
    (s.push parent earlier).1.scopes.size = s.scopes.size + 1 :=
  Array.size_push ..

theorem size_addChild (s : Store) (parent : ScopeId) :
    (s.addChild parent).1.scopes.size = s.scopes.size + 1 := by
  unfold addChild
  split <;> exact size_push s _

theorem bindings_addChild (s : Store) (parent id : ScopeId) :
    (s.addChild parent).1.bindings id = s.bindings id := by
  unfold addChild
  split <;> exact bindings_push s _ id

/-- The parent of a new scope is the one it was made in, if that is there; other scopes keep
theirs. -/
theorem parent?_addChild (s : Store) (parent id : ScopeId) :
    (s.addChild parent).1.parent? id =
      if id = s.scopes.size then (if parent < s.scopes.size then some parent else none)
      else s.parent? id := by
  unfold addChild addRoot
  by_cases hp : parent < s.scopes.size
  · simp only [dif_pos hp, if_pos hp]
    by_cases hid : id = s.scopes.size
    · simp [parent?, push, hid]
    · simp [parent?, push, Array.getElem?_push, hid]
  · simp only [dif_neg hp, if_neg hp]
    by_cases hid : id = s.scopes.size
    · simp [parent?, push, hid]
    · simp [parent?, push, Array.getElem?_push, hid]

/-- A root of its own binds nothing. -/
theorem bindings_addRoot_empty (id : ScopeId) : empty.addRoot.1.bindings id = [] := by
  simp only [addRoot, bindings_push]
  exact bindings_of_le (Nat.zero_le id)

/-! ## Reaching -/

/-- A scope can be reached from some scopes: through parents, and through the scopes that
functions bound on the way were made in. -/
inductive Reaches (s : Store) (origin : ScopeId → Prop) : ScopeId → Prop
  | here {id : ScopeId} : origin id → Reaches s origin id
  | parent {id p : ScopeId} : Reaches s origin id → s.parent? id = some p → Reaches s origin p
  | captured {id c : ScopeId} {name : String} {v : Value} : Reaches s origin id →
      (s.bindings id).lookup name = some v → v.scope? = some c → Reaches s origin c

/-- What can be reached from scopes that can be reached can be reached. -/
theorem Reaches.trans {origin origin' : ScopeId → Prop} (h : ∀ id, origin' id → s.Reaches origin id)
    {id : ScopeId} (hid : s.Reaches origin' id) : s.Reaches origin id := by
  induction hid with
  | here hid => exact h _ hid
  | parent _ hp ih => exact ih.parent hp
  | captured _ hv hc ih => exact ih.captured hv hc

/-- The scope that a function was made in can be reached from wherever the function is found. -/
theorem Reaches.of_get? {origin : ScopeId → Prop} {id : ScopeId} (hid : s.Reaches origin id)
    {name : String} {v : Value} (hv : s.get? id name = some v) {c : ScopeId}
    (hc : v.scope? = some c) : s.Reaches origin c := by
  induction id using Nat.strongRecOn with
  | _ id ih =>
    rw [get?_eq, Option.or_eq_some_iff] at hv
    rcases hv with hv | ⟨-, hv⟩
    · exact hid.captured hv hc
    · obtain ⟨p, hp, hv⟩ := Option.bind_eq_some_iff.mp hv
      exact ih p (parent?_lt hp) (hid.parent hp) hv

/-- Everything bound in the scopes that can be reached from some scopes is first-class. -/
def FirstClass (s : Store) (origin : ScopeId → Prop) : Prop :=
  ∀ id, s.Reaches origin id → ∀ name v, (s.bindings id).lookup name = some v →
    v.isFirstClass = true

/-- Everything that can be reached from some scopes is there. -/
def Closed (s : Store) (origin : ScopeId → Prop) : Prop :=
  ∀ id, s.Reaches origin id → id < s.scopes.size

end Store
end HangulScript
