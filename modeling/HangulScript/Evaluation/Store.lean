import HangulScript.Evaluation.Value
import HangulScript.Text.Order
import HangulScript.Text.Quoted

/-!
# Scopes

A scope binds names to values and may have a parent.  A name is looked up outwards,
from the scope through its parent to the root, and the first scope that binds it
decides.  It is always bound in the scope itself: a binding in an outer scope is
shadowed, never changed.

All scopes live in one store and are named by their number in it.  A scope is made
after its parent, so its number is the larger one.  This is part of the type: the walk
outwards ends because the numbers fall.

The bindings of a scope are kept in the order in which the names were first bound, and
binding a name again leaves it in its place.
-/

namespace HangulScript

/-- Names and their values, in the order of their first binding. -/
abbrev Bindings := List (String × Value)

namespace Bindings

/-- The bindings with a name bound to a value. -/
def bind (name : String) (value : Value) : Bindings → Bindings
  | [] => [(name, value)]
  | b :: rest => if b.1 = name then (name, value) :: rest else b :: bind name value rest

/-- The names, in the order of their first binding. -/
def names (bindings : Bindings) : List String := bindings.map Prod.fst

/-- What is bound afterwards: the new value to the name, and to other names what was
bound before. -/
theorem lookup_bind (name other : String) (value : Value) (bindings : Bindings) :
    List.lookup other (bindings.bind name value) =
      if other = name then some value else List.lookup other bindings := by
  have beq_of_ne {a b : String} (h : a ≠ b) : (a == b) = false := by simpa using h
  induction bindings with
  | nil => by_cases h : other = name <;> simp [bind, List.lookup_cons, beq_of_ne, h]
  | cons b rest ih =>
    obtain ⟨n, v⟩ := b
    by_cases hn : n = name
    · subst hn
      by_cases h : other = n <;> simp [bind, List.lookup_cons, beq_of_ne, h]
    · by_cases h : other = n
      · subst h
        simp [bind, hn]
      · simp [bind, hn, List.lookup_cons, ih, beq_of_ne h]

end Bindings

/-- A parent, unless it is a root, and bindings. -/
structure Scope where
  parent : Option ScopeId
  bindings : Bindings

/-- All scopes made so far, each after its parent. -/
structure Store where
  scopes : Array Scope
  parent_lt : ∀ (id p : Nat) (h : id < scopes.size), scopes[id].parent = some p → p < id

namespace Store

/-- A store without scopes. -/
def empty : Store := ⟨#[], by intro id p h; exact absurd h (Nat.not_lt_zero id)⟩

/-- The parent of a scope. -/
def parent? (s : Store) (id : ScopeId) : Option ScopeId := s.scopes[id]?.bind Scope.parent

/-- The own bindings of a scope. -/
def bindings (s : Store) (id : ScopeId) : Bindings :=
  match s.scopes[id]? with
  | some scope => scope.bindings
  | none => []

/-- A store with a further scope that binds nothing, and its number. -/
def push (s : Store) (parent : Option ScopeId) (earlier : ∀ p, parent = some p → p < s.scopes.size) :
    Store × ScopeId :=
  (⟨s.scopes.push ⟨parent, []⟩, by
      intro id p h hp
      rw [Array.getElem_push] at hp
      split at hp
      · next hid => exact s.parent_lt id p hid hp
      · next hid => exact Nat.lt_of_lt_of_le (earlier p hp) (Nat.le_of_not_lt hid)⟩,
    s.scopes.size)

/-- A further root. -/
def addRoot (s : Store) : Store × ScopeId := s.push none (by intro p h; cases h)

/-- A further scope inside another one.  Inside a scope that does not exist it is a
root. -/
def addChild (s : Store) (parent : ScopeId) : Store × ScopeId :=
  if h : parent < s.scopes.size then
    s.push (some parent) (by intro p hp; cases hp; exact h)
  else s.addRoot

/-- The store with a name bound to a value in a scope. -/
def bind (s : Store) (id : ScopeId) (name : String) (value : Value) : Store :=
  ⟨s.scopes.modify id fun scope => { scope with bindings := scope.bindings.bind name value }, by
    intro i p h hp
    rw [Array.size_modify] at h
    rw [Array.getElem_modify] at hp
    split at hp <;> exact s.parent_lt i p h hp⟩

/-- Binding changes no parent. -/
@[simp] theorem parent?_bind (s : Store) (id : ScopeId) (name : String) (value : Value)
    (other : ScopeId) : (s.bind id name value).parent? other = s.parent? other := by
  simp only [parent?, bind, Array.getElem?_modify]
  split
  · next h => subst h; cases s.scopes[id]? <;> rfl
  · rfl

/-- Binding in a scope changes the bindings of no other. -/
theorem bindings_bind_of_ne (s : Store) {id other : ScopeId} (h : id ≠ other) (name : String)
    (value : Value) : (s.bind id name value).bindings other = s.bindings other := by
  simp [bindings, bind, Array.getElem?_modify, h]

/-- Binding in a scope that is there binds the name among its own. -/
theorem bindings_bind_self (s : Store) {id : ScopeId} (h : id < s.scopes.size) (name : String)
    (value : Value) :
    (s.bind id name value).bindings id = (s.bindings id).bind name value := by
  simp only [bindings, bind, Array.getElem?_modify, if_true, Array.getElem?_eq_getElem h,
    Option.map_some]

/-- A new scope changes no parent of those before it. -/
theorem parent?_push_of_lt (s : Store) {parent : Option ScopeId}
    (earlier : ∀ p, parent = some p → p < s.scopes.size) {id : ScopeId}
    (h : id < s.scopes.size) : (s.push parent earlier).1.parent? id = s.parent? id := by
  simp [parent?, push, Array.getElem?_push_lt, h]

/-- A new scope changes no bindings, and binds nothing itself. -/
theorem bindings_push (s : Store) {parent : Option ScopeId}
    (earlier : ∀ p, parent = some p → p < s.scopes.size) (id : ScopeId) :
    (s.push parent earlier).1.bindings id = s.bindings id := by
  by_cases h : id = s.scopes.size
  · subst h
    simp [bindings, push]
  · simp only [bindings, push, Array.getElem?_push, h, if_false]

/-! ## The walk outwards -/

/-- A scope and the scopes around it, innermost first, at most a number of them. -/
def outwardsUpTo (s : Store) : (bound : Nat) → ScopeId → List ScopeId
  | 0, _ => []
  | bound + 1, id =>
    id ::
      match s.parent? id with
      | some parent => outwardsUpTo s bound parent
      | none => []

/-- A scope and all scopes around it, innermost first.  Their numbers fall, so there
are no more of them than the number of the first, plus one. -/
def outwards (s : Store) (id : ScopeId) : List ScopeId := s.outwardsUpTo (id + 1) id

/-- The value of a name in a scope: that of the innermost scope that binds it. -/
def get? (s : Store) (id : ScopeId) (name : String) : Option Value :=
  (s.outwards id).findSome? fun scope => (s.bindings scope).lookup name

/-- Whether a name is bound in a scope or around it. -/
def contains (s : Store) (id : ScopeId) (name : String) : Bool := (s.get? id name).isSome

/-- How many scopes are around a scope. -/
def depth (s : Store) (id : ScopeId) : Nat := (s.outwards id).length - 1

/-- The names a scope itself binds, in the order of their first binding. -/
def names (s : Store) (id : ScopeId) : List String := (s.bindings id).names

/-- How a scope is shown: its depth, and its own names in their order as texts. -/
def shown (s : Store) (id : ScopeId) : String :=
  let names := (Text.sortedBy (fun name => name) (s.names id)).map Text.quoted
  "<Environment depth=" ++ toString (s.depth id) ++ " names=[" ++ ", ".intercalate names ++ "]>"

/-- The parent of a scope has a smaller number. -/
theorem parent?_lt {s : Store} {id p : Nat} (h : s.parent? id = some p) : p < id := by
  simp only [parent?, Option.bind_eq_some_iff] at h
  obtain ⟨scope, hs, hp⟩ := h
  obtain ⟨hid, rfl⟩ := Array.getElem?_eq_some_iff.1 hs
  exact s.parent_lt id p hid hp

/-- A bound above the number of a scope is no bound. -/
theorem outwardsUpTo_eq_of_lt {s : Store} {b c : Nat} {id : Nat} (hb : id < b) (hc : id < c) :
    s.outwardsUpTo b id = s.outwardsUpTo c id := by
  induction b generalizing c id with
  | zero => exact absurd hb (Nat.not_lt_zero id)
  | succ b ih =>
    cases c with
    | zero => exact absurd hc (Nat.not_lt_zero id)
    | succ c =>
      rw [outwardsUpTo, outwardsUpTo]
      cases hp : s.parent? id with
      | none => rfl
      | some p =>
        have hlt : p < id := parent?_lt hp
        simp only [List.cons.injEq, true_and]
        exact ih (Nat.lt_of_lt_of_le hlt (Nat.le_of_lt_succ hb))
          (Nat.lt_of_lt_of_le hlt (Nat.le_of_lt_succ hc))

/-- **The walk.**  It visits the scope, and goes on from its parent if there is one. -/
theorem outwards_eq (s : Store) (id : Nat) :
    s.outwards id =
      id ::
        match s.parent? id with
        | some parent => s.outwards parent
        | none => [] := by
  rw [outwards, outwardsUpTo]
  cases hp : s.parent? id with
  | none => rfl
  | some p =>
    have hlt : p < id := parent?_lt hp
    simp only [List.cons.injEq, true_and]
    exact outwardsUpTo_eq_of_lt hlt (Nat.lt_succ_self p)

end Store
end HangulScript
