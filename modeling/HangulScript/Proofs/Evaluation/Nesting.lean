import HangulScript.Proofs.Evaluation.Discipline
import HangulScript.Proofs.Evaluation.Frame
import HangulScript.Proofs.Tree.Literals
import HangulScript.Session

/-!
# Nestings

Only calls make scopes, and they hang them below the scope that the called function was made in.
So the scopes around a running piece of code follow the function literals around it in the text:
from the inside to the outside there is one scope for each literal, and then comes the root.

Which literals are around the code that runs in a scope is not recorded in a store.  A *nesting*
is such a record beside it, with one entry for each scope.  It only grows, because scopes are
never taken away, and an entry stays as it was made.  A store is *nested* if the record is right:
the parent of a scope has the same entry without the innermost literal, a scope binds no names
but those that belong to its place, and the literal of every function stands where the entry of
its scope says.

A nested store has the scopes that the text has literals (`Nested.mirrors`), and names that
belong to no place around are not found in it (`Nested.get?_eq_none`).  Binding a name where it
belongs and making the scope of a call keep a store nested.
-/

namespace HangulScript

/-- The function literals around the code that runs in each scope, the innermost first: one
entry for each scope, in the order in which they are made. -/
abbrev Nesting := List (List Node)

/-- What is known of a nesting is known of what it becomes. -/
theorem Nesting.entry_of_prefix {nesting nesting' : Nesting} (h : nesting <+: nesting')
    {id : ScopeId} {around : List Node} (hid : nesting[id]? = some around) :
    nesting'[id]? = some around := by
  obtain ⟨more, rfl⟩ := h
  rw [List.getElem?_append_left (List.getElem?_eq_some_iff.mp hid).1, hid]

namespace Bindings

/-- Binding a name adds no other. -/
theorem mem_names_bind {name other : String} {value : Value} {bindings : Bindings}
    (h : other ∈ (bindings.bind name value).names) : other = name ∨ other ∈ bindings.names := by
  rw [names_bind] at h
  split at h
  · exact Or.inr h
  · exact (List.mem_append.mp h).symm.imp_left List.mem_singleton.mp

/-- A name that is not among those that are bound has no value. -/
theorem mem_names_of_lookup {name : String} {value : Value} {bindings : Bindings}
    (h : bindings.lookup name = some value) : name ∈ bindings.names := by
  obtain ⟨before, behind, rfl, -⟩ := List.lookup_eq_some_iff.mp h
  simp [names]

end Bindings

namespace Value

/-- The literal and the scope of a function, also of one that is on its way out of a call. -/
def closure? : Value → Option (Node × ScopeId)
  | .function range params body scope => some (.function range params body, scope)
  | .returned value => value.closure?
  | _ => none

end Value

namespace Store

/-- The scopes outwards from a scope mirror some literals: there is one for each of them, whose
entry in the nesting begins with that literal, and then comes the root. -/
structure Mirrors (s : Store) (nesting : Nesting) (scope : ScopeId) (around : List Node) :
    Prop where
  depth : s.depth scope = around.length
  ancestor : ∀ j, j < around.length →
    ∃ id, (s.outwards scope)[j]? = some id ∧ nesting[id]? = some (around.drop j)
  root : (s.outwards scope)[around.length]? = some Session.root

theorem Mirrors.mono {s : Store} {nesting nesting' : Nesting} {scope : ScopeId}
    {around : List Node} (h : s.Mirrors nesting scope around) (hn : nesting <+: nesting') :
    s.Mirrors nesting' scope around := by
  refine ⟨h.depth, fun j hj => ?_, h.root⟩
  obtain ⟨id, hid, hentry⟩ := h.ancestor j hj
  exact ⟨id, hid, Nesting.entry_of_prefix hn hentry⟩

/-- Every scope has its entry in a nesting, and binds only names that belong there. -/
def NamesWithin (s : Store) (trees : List Node) (nesting : Nesting) : Prop :=
  ∀ id, id < s.scopes.size → ∃ around, nesting[id]? = some around ∧
    ∀ name ∈ s.names id, Node.Owns trees around name

end Store

namespace Evaluation

open Node (StandsIn Owns)

/-! ## Nested stores -/

variable {trees : List Node} {nesting nesting' : Nesting} {around : List Node} {s : Store}

/-- A value is at home in a nesting: if it is a function, its literal stands in one of the trees,
with the literals around it that are around the code of the scope it was made in. -/
def AtHome (trees : List Node) (nesting : Nesting) (v : Value) : Prop :=
  ∀ literal captured, v.closure? = some (literal, captured) →
    ∃ around, nesting[captured]? = some around ∧ literal.StandsIn trees around

theorem AtHome.mono {v : Value} (h : AtHome trees nesting v) (hn : nesting <+: nesting') :
    AtHome trees nesting' v := by
  intro literal captured hv
  obtain ⟨around, hentry, hstands⟩ := h literal captured hv
  exact ⟨around, Nesting.entry_of_prefix hn hentry, hstands⟩

theorem atHome_of_closureless {v : Value} (h : v.closure? = none) : AtHome trees nesting v := by
  intro literal captured hv
  rw [h] at hv
  cases hv

/-- A nesting is right for a store. -/
structure Nested (trees : List Node) (nesting : Nesting) (s : Store) : Prop where
  length : nesting.length = s.scopes.size
  root : nesting[Session.root]? = some []
  parent : ∀ id p, s.parent? id = some p → ∃ literal around,
    nesting[id]? = some (literal :: around) ∧ nesting[p]? = some around
  orphan : ∀ id, id < s.scopes.size → s.parent? id = none → id = Session.root
  names : ∀ id around, nesting[id]? = some around → ∀ name ∈ s.names id, Owns trees around name
  bound : ∀ id name v, (s.bindings id).lookup name = some v → AtHome trees nesting v

namespace Nested

theorem lt (h : Nested trees nesting s) {id : ScopeId} (hid : nesting[id]? = some around) :
    id < s.scopes.size := by
  rw [← h.length]
  exact (List.getElem?_eq_some_iff.mp hid).1

/-- A scope with no literal around its code is the root. -/
theorem eq_root (h : Nested trees nesting s) {id : ScopeId} (hid : nesting[id]? = some []) :
    id = Session.root ∧ s.parent? id = none := by
  cases hp : s.parent? id with
  | none => exact ⟨h.orphan id (h.lt hid) hp, rfl⟩
  | some p =>
    obtain ⟨literal, rest, hentry, -⟩ := h.parent id p hp
    rw [hid] at hentry
    cases hentry

/-- A scope with a literal around its code has a parent, with the other literals around its
code. -/
theorem exists_parent (h : Nested trees nesting s) {id : ScopeId} {literal : Node}
    (hid : nesting[id]? = some (literal :: around)) :
    ∃ p, s.parent? id = some p ∧ nesting[p]? = some around := by
  cases hp : s.parent? id with
  | none =>
    rw [h.orphan id (h.lt hid) hp, h.root] at hid
    cases hid
  | some p =>
    obtain ⟨_, _, hentry, hrest⟩ := h.parent id p hp
    rw [hid] at hentry
    cases hentry
    exact ⟨p, rfl, hrest⟩

/-- The scopes outwards, their number, their entries, and the last of them: by induction on the
literals, one scope and one literal at a time. -/
theorem mirrors (h : Nested trees nesting s) {scope : ScopeId}
    (hs : nesting[scope]? = some around) : s.Mirrors nesting scope around := by
  induction around generalizing scope with
  | nil =>
    obtain ⟨rfl, hp⟩ := h.eq_root hs
    have houtwards : s.outwards Session.root = [Session.root] := by
      rw [Store.outwards_eq, hp]
    refine ⟨?_, fun j hj => absurd hj (Nat.not_lt_zero j), ?_⟩
    · rw [Store.depth, houtwards]
      rfl
    · rw [houtwards]
      rfl
  | cons literal around ih =>
    obtain ⟨p, hp, hentry⟩ := h.exists_parent hs
    have houtwards : s.outwards scope = scope :: s.outwards p := by
      rw [Store.outwards_eq, hp]
    obtain ⟨hdepth, hancestor, hroot⟩ := ih hentry
    have hpos : 0 < (s.outwards p).length := by
      rw [Store.outwards_eq]
      exact Nat.succ_pos _
    refine ⟨?_, ?_, ?_⟩
    · rw [Store.depth] at hdepth ⊢
      rw [houtwards, List.length_cons, List.length_cons]
      omega
    · intro j hj
      cases j with
      | zero => exact ⟨scope, by rw [houtwards]; rfl, hs⟩
      | succ j =>
        obtain ⟨id, hid, he⟩ := hancestor j (Nat.lt_of_succ_lt_succ hj)
        exact ⟨id, by rw [houtwards]; exact hid, he⟩
    · rw [houtwards]
      exact hroot

/-- A scope has no value for a name that does not belong to it. -/
theorem lookup_eq_none (h : Nested trees nesting s) {scope : ScopeId}
    (hs : nesting[scope]? = some around) {name : String} (hname : ¬ Owns trees around name) :
    (s.bindings scope).lookup name = none := by
  cases hv : (s.bindings scope).lookup name with
  | none => rfl
  | some v => exact absurd (h.names scope around hs name (Bindings.mem_names_of_lookup hv)) hname

/-- A name that belongs to no place around is not found. -/
theorem get?_eq_none (h : Nested trees nesting s) {scope : ScopeId}
    (hs : nesting[scope]? = some around) {name : String}
    (hname : ∀ outer, outer <:+ around → ¬ Owns trees outer name) :
    s.get? scope name = none := by
  induction around generalizing scope with
  | nil =>
    rw [Store.get?_eq, h.lookup_eq_none hs (hname _ (List.suffix_refl _)), (h.eq_root hs).2]
    rfl
  | cons literal around ih =>
    obtain ⟨p, hp, hentry⟩ := h.exists_parent hs
    rw [Store.get?_eq, h.lookup_eq_none hs (hname _ (List.suffix_refl _)), hp]
    exact ih hentry fun outer ho => hname outer (ho.trans (List.suffix_cons ..))

theorem namesWithin (h : Nested trees nesting s) (hn : nesting <+: nesting') :
    s.NamesWithin trees nesting' := by
  intro id hid
  rw [← h.length] at hid
  have hentry : nesting[id]? = some nesting[id] := List.getElem?_eq_getElem hid
  exact ⟨nesting[id], Nesting.entry_of_prefix hn hentry, h.names id _ hentry⟩

/-- What is found from a scope is at home. -/
theorem atHome (h : Nested trees nesting s) {scope : ScopeId} {name : String} {v : Value}
    (hv : s.get? scope name = some v) : AtHome trees nesting v := by
  obtain ⟨id, -, hid⟩ := List.exists_of_findSome?_eq_some hv
  exact h.bound id name v hid

/-! ### What evaluating does to a store -/

theorem bind (h : Nested trees nesting s) {scope : ScopeId} (hs : nesting[scope]? = some around)
    {name : String} (hname : Owns trees around name) {v : Value} (hv : AtHome trees nesting v) :
    Nested trees nesting (s.bind scope name v) := by
  refine ⟨?_, h.root, ?_, ?_, ?_, ?_⟩
  · rw [Store.size_bind, h.length]
  · intro id p hp
    rw [Store.parent?_bind] at hp
    exact h.parent id p hp
  · intro id hid hp
    rw [Store.size_bind] at hid
    rw [Store.parent?_bind] at hp
    exact h.orphan id hid hp
  · intro id around' hid other hother
    by_cases he : scope = id
    · subst he
      rw [hs] at hid
      cases hid
      rw [Store.names, Store.bindings_bind_self s (h.lt hs)] at hother
      rcases Bindings.mem_names_bind hother with rfl | hother
      · exact hname
      · exact h.names scope around hs other hother
    · rw [Store.names, Store.bindings_bind_of_ne s he] at hother
      exact h.names id around' hid other hother
  · intro id other w hw
    rw [Store.lookup_bindings_bind] at hw
    split at hw
    · cases hw
      exact hv
    · exact h.bound id other w hw

/-- A scope made inside another gets its literal and those of the other. -/
theorem addChild (h : Nested trees nesting s) {captured : ScopeId}
    (hc : nesting[captured]? = some around) (literal : Node) :
    Nested trees (nesting ++ [literal :: around]) (s.addChild captured).1 := by
  have hlt := h.lt hc
  have hprefix : nesting <+: nesting ++ [literal :: around] := List.prefix_append ..
  have hnew : (nesting ++ [literal :: around])[s.scopes.size]? = some (literal :: around) := by
    rw [← h.length, List.getElem?_append_right (Nat.le_refl _), Nat.sub_self]
    rfl
  -- An entry is the new one or was there before.
  have hold : ∀ {id around'}, (nesting ++ [literal :: around])[id]? = some around' →
      id = s.scopes.size ∨ nesting[id]? = some around' := by
    intro id around' hid
    rcases Nat.lt_or_ge id nesting.length with hlt | hge
    · rw [List.getElem?_append_left hlt] at hid
      exact Or.inr hid
    · have hbound := (List.getElem?_eq_some_iff.mp hid).1
      rw [List.length_append, List.length_singleton] at hbound
      exact Or.inl (by rw [← h.length]; omega)
  refine ⟨?_, Nesting.entry_of_prefix hprefix h.root, ?_, ?_, ?_, ?_⟩
  · rw [List.length_append, Store.size_addChild, h.length]
    rfl
  · intro id p hp
    rw [Store.parent?_addChild, if_pos hlt] at hp
    split at hp
    next hid =>
      cases hp
      exact ⟨literal, around, hid ▸ hnew, Nesting.entry_of_prefix hprefix hc⟩
    next =>
      obtain ⟨literal', rest, hentry, hrest⟩ := h.parent id p hp
      exact ⟨literal', rest, Nesting.entry_of_prefix hprefix hentry,
        Nesting.entry_of_prefix hprefix hrest⟩
  · intro id hid hp
    rw [Store.size_addChild] at hid
    rw [Store.parent?_addChild, if_pos hlt] at hp
    split at hp
    next => cases hp
    next hne => exact h.orphan id (Nat.lt_of_le_of_ne (Nat.le_of_lt_succ hid) hne) hp
  · intro id around' hid name hname
    rw [Store.names, Store.bindings_addChild] at hname
    rcases hold hid with rfl | hid
    · rw [Store.bindings_of_le (Nat.le_refl _)] at hname
      cases hname
    · exact h.names id around' hid name hname
  · intro id name v hv
    rw [Store.bindings_addChild] at hv
    exact (h.bound id name v hv).mono hprefix

end Nested

end Evaluation
end HangulScript
