import HangulScript.Proofs.Evaluation.Variants

/-!
# Stores with the same scopes

The simplest way of joining two stores for a variation is that they have the same scopes, under
the same numbers, inside one another in the same way, and that these bind related names to related
values, the names in the same order.  This need not be asked of all scopes.  A *region* is enough
that has with a scope the one around it, and all scopes that are yet to be made; a scope is then
related to itself if it is in the region.

That two stores are joined in this way is kept if names are related one to one, for then a name
is found in the one list of bindings where it is found in the other.
-/

namespace HangulScript

/-- Two evaluations in the same scopes, those of a region. -/
def Variation.within (name : String → String → Prop) (idle : Prop) (R : ScopeId → Prop) :
    Variation where
  name := name
  scope a b := a = b ∧ R a
  idle := idle

/-- Names that are related and stand in the same order, bound to values that are related. -/
structure Bindings.Varies (V : Variation) (b b' : Bindings) : Prop where
  names : List.Forall₂ V.name b.names b'.names
  lookup {n n' : String} : V.name n n' →
    Option.Rel (Value.Varies V) (List.lookup n b) (List.lookup n' b')

/-- The same scopes in two stores, as far as they are in a region, with related bindings. -/
structure Store.SameWithin (V : Variation) (R : ScopeId → Prop) (s s' : Store) : Prop where
  size : s.scopes.size = s'.scopes.size
  newer : ∀ id, s.scopes.size ≤ id → R id
  closed : ∀ id p, R id → s.parent? id = some p → R p
  parent : ∀ id, R id → s.parent? id = s'.parent? id
  bindings : ∀ id, R id → (s.bindings id).Varies V (s'.bindings id)

variable {V : Variation}

namespace Bindings.Varies

theorem nil : Varies V [] [] := ⟨.nil, fun _ => .none⟩

variable {b b' : Bindings} {n n' : String}

theorem bind (ho : Relator.BiUnique V.name) (h : b.Varies V b') (hn : V.name n n')
    {v v' : Value} (hv : v.Varies V v') : (b.bind n v).Varies V (b'.bind n' v') := by
  refine ⟨?_, ?_⟩
  · have hmem : n ∈ b.names ↔ n' ∈ b'.names := List.rel_mem ho hn h.names
    rw [Bindings.names_bind, Bindings.names_bind]
    by_cases hb : n ∈ b.names
    · rw [if_pos hb, if_pos (hmem.mp hb)]
      exact h.names
    · rw [if_neg hb, if_neg fun hb' => hb (hmem.mpr hb')]
      exact List.rel_append h.names (.cons hn .nil)
  · intro m m' hm
    have hiff : m = n ↔ m' = n' := Relator.rel_eq ho hm hn
    rw [Bindings.lookup_bind, Bindings.lookup_bind]
    by_cases hmn : m = n
    · rw [if_pos hmn, if_pos (hiff.mp hmn)]
      exact .some hv
    · rw [if_neg hmn, if_neg fun he => hmn (hiff.mpr he)]
      exact h.lookup hm

end Bindings.Varies

namespace Store.SameWithin

variable {R : ScopeId → Prop} {s s' : Store} {n n' : String}

theorem addChild (h : s.SameWithin V R s') {p : ScopeId} (hp : R p) :
    (s.addChild p).1.SameWithin V R (s'.addChild p).1 := by
  refine ⟨?_, ?_, ?_, ?_, ?_⟩
  · rw [Store.size_addChild, Store.size_addChild, h.size]
  · intro id hid
    rw [Store.size_addChild] at hid
    exact h.newer id (by omega)
  · intro id q hid hq
    rw [Store.parent?_addChild] at hq
    split at hq
    · split at hq
      · cases hq
        exact hp
      · cases hq
    · exact h.closed id q hid hq
  · intro id hid
    rw [Store.parent?_addChild, Store.parent?_addChild, h.size, h.parent id hid]
  · intro id hid
    rw [Store.bindings_addChild, Store.bindings_addChild]
    exact h.bindings id hid

theorem get? (h : s.SameWithin V R s') {id : ScopeId} (hid : R id) (hn : V.name n n') :
    Option.Rel (Value.Varies V) (s.get? id n) (s'.get? id n') := by
  induction id using Nat.strongRecOn with
  | _ id ih =>
    rw [Store.get?_eq, Store.get?_eq, ← h.parent id hid]
    refine ((h.bindings id hid).lookup hn).or ?_
    cases hp : s.parent? id with
    | none => exact .none
    | some p => exact ih p (Store.parent?_lt hp) (h.closed id p hid hp)

theorem bind (ho : Relator.BiUnique V.name) (h : s.SameWithin V R s') (id : ScopeId)
    (hn : V.name n n') {v v' : Value} (hv : v.Varies V v') :
    (s.bind id n v).SameWithin V R (s'.bind id n' v') := by
  refine ⟨?_, ?_, ?_, ?_, ?_⟩
  · rw [Store.size_bind, Store.size_bind, h.size]
  · intro other hother
    rw [Store.size_bind] at hother
    exact h.newer other hother
  · intro other p hr hp
    rw [Store.parent?_bind] at hp
    exact h.closed other p hr hp
  · intro other hr
    rw [Store.parent?_bind, Store.parent?_bind, h.parent other hr]
  · intro other hr
    by_cases hid : id = other
    · subst hid
      by_cases hs : id < s.scopes.size
      · rw [Store.bindings_bind_self s hs, Store.bindings_bind_self s' (h.size ▸ hs)]
        exact (h.bindings id hr).bind ho hn hv
      · have hs' : s.scopes.size ≤ id := Nat.le_of_not_lt hs
        rw [Store.bindings_of_le (by rwa [Store.size_bind]),
          Store.bindings_of_le (by rwa [Store.size_bind, ← h.size])]
        exact .nil
    · rw [Store.bindings_bind_of_ne s hid, Store.bindings_bind_of_ne s' hid]
      exact h.bindings other hr

end Store.SameWithin

/-- **The same scopes stay the same.**  Stores that are joined by having the same scopes in a region
are kept so by all that evaluating does with them. -/
theorem Variation.kept_within {name : String → String → Prop} (ho : Relator.BiUnique name)
    (idle : Prop) (R : ScopeId → Prop) :
    (within name idle R).Kept (Store.SameWithin (within name idle R) R) where
  get? := by
    rintro s s' a _ n n' h ⟨rfl, ha⟩ hn
    exact h.get? ha hn
  bind := by
    rintro s s' a _ n n' v v' h ⟨rfl, -⟩ hn hv
    exact h.bind ho a hn hv
  addChild := by
    rintro s s' p _ h ⟨rfl, hp⟩
    refine ⟨h.addChild hp, ?_, ?_⟩
    · rw [Store.addChild_snd, Store.addChild_snd, h.size]
    · rw [Store.addChild_snd]
      exact h.newer _ (Nat.le_refl _)

end HangulScript
