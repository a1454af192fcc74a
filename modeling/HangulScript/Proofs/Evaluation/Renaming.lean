import HangulScript.Proofs.Evaluation.Discipline
import HangulScript.Proofs.Evaluation.SameScopes

/-!
# Names mean nothing in themselves

Give every name another one, and different names different ones.  Then a program does under the
new names what it did under the old: it comes to the same value over the same range, or fails with
the same error at the same range, and every scope binds the new names in the order of the old.
The only error whose message tells a name is that of a name that is not bound, and it tells the
new one.

What is renamed is the tree, and of the store what can be reached from the scope in which the tree
is evaluated: the names that are bound in a scope, and the names in the parameters and bodies of
the functions bound there.  Scopes that cannot be reached may hold anything on either side.  A
function that comes out of the run may have been made in a scope that was made on the way, so what
is said about the scopes afterwards is said about these too.

Parameters may repeat, and a name may be bound again, in the same scope or in one further inside.
In each case all that counts is whether two names are equal, and this is what a one-to-one function
does not change.
-/

namespace HangulScript

/-! ## Other names -/

section Maps

variable (f : String → String)

/-- The value with a function applied to every name in it. -/
def Value.renamed : Value → Value
  | .function r ps b scope => .function r (Node.renamedAll f ps) (b.renamed f) scope
  | .returned v => .returned v.renamed
  | v => v

/-- The bindings with a function applied to every name, those in values among them. -/
def Bindings.renamed (b : Bindings) : Bindings := b.map fun x => (f x.1, x.2.renamed f)

/-- The store with a function applied to every name in it. -/
def Store.renamed (s : Store) : Store :=
  ⟨s.scopes.map fun scope => ⟨scope.parent, scope.bindings.renamed f⟩, by
    intro id p h hp
    rw [Array.getElem_map] at hp
    exact s.parent_lt id p (by simpa using h) hp⟩

/-- The failure with a function applied to the name that its message tells. -/
def Failure.renamed : Failure → Failure
  | .error ⟨.unboundIdentifier name, r⟩ => .error ⟨.unboundIdentifier (f name), r⟩
  | failure => failure

/-- The outcome with a function applied to every name in it. -/
def Evaluation.renamedOutcome : Except Failure Value → Except Failure Value
  | .ok v => .ok (v.renamed f)
  | .error failure => .error (failure.renamed f)

/-- In some scopes, one store is another under other names: it has the same scopes around them,
and these bind the new names in the order of the old, to the values under the new names. -/
structure Store.RenamesIn (R : ScopeId → Prop) (s s' : Store) : Prop where
  size : s'.scopes.size = s.scopes.size
  parent : ∀ id, R id → s'.parent? id = s.parent? id
  names : ∀ id, R id → s'.names id = (s.names id).map f
  lookup : ∀ id, R id → ∀ name,
    (s'.bindings id).lookup (f name) = ((s.bindings id).lookup name).map (Value.renamed f)

end Maps

variable {f : String → String}

theorem Failure.renamed_of_name? {cause : Cause} (h : cause.name? = none) (r : Range) :
    (Failure.error ⟨cause, r⟩).renamed f = .error ⟨cause, r⟩ := by
  cases cause <;> first | rfl | cases h

/-! ## Renaming as a variation -/

/-- The same scopes of a region, under names given by a function. -/
def Variation.namedBy (f : String → String) (R : ScopeId → Prop) : Variation :=
  within (fun n n' => n' = f n) False R

theorem Variation.biUnique_namedBy (hf : Function.Injective f) (R : ScopeId → Prop) :
    Relator.BiUnique (namedBy f R).name :=
  ⟨fun _ _ _ h h' => hf (h.symm.trans h'), fun _ _ _ h h' => h.trans h'.symm⟩

variable {R : ScopeId → Prop}

theorem Value.Varies.eq_renamed {v v' : Value} (h : v.Varies (.namedBy f R) v') :
    v' = v.renamed f := by
  have hname : ∀ n n', (Variation.namedBy f R).name n n' → n' = f n := fun _ _ h => h
  induction h with
  | function r hps hb hscope =>
    rw [hps.eq_renamedAll hname id, hb.eq_renamed hname id, ← hscope.1]
    rfl
  | returned _ ih =>
    rw [ih]
    rfl
  | _ => rfl

/-- A value is related to the value under the new names, if its scope is in the region. -/
theorem Value.varies_renamed {v : Value} (h : ∀ c, v.scope? = some c → R c) :
    v.Varies (.namedBy f R) (v.renamed f) := by
  induction v with
  | number r x => exact .number r x
  | boolean r b => exact .boolean r b
  | string r text => exact .string r text
  | empty r => exact .empty r
  | function r ps b scope =>
    exact .function r (Node.variantAll_renamed ps fun _ _ _ _ => rfl)
      (Node.variant_renamed b fun _ _ => rfl) ⟨rfl, h scope rfl⟩
  | returned v ih => exact .returned (ih h)

theorem Failure.Varies.eq_renamed {failure failure' : Failure}
    (h : failure.Varies (.namedBy f R) failure') : failure' = failure.renamed f := by
  cases h with
  | error r hc => rw [Failure.renamed_of_name? hc]
  | unbound r hn =>
    rw [show _ = f _ from hn]
    rfl
  | _ => rfl

theorem OutcomeVaries.eq_renamedOutcome {x y : Except Failure Value}
    (h : OutcomeVaries (.namedBy f R) (Value.Varies (.namedBy f R)) x y) :
    y = Evaluation.renamedOutcome f x := by
  cases h with
  | ok hv =>
    rw [hv.eq_renamed]
    rfl
  | error h =>
    rw [h.eq_renamed]
    rfl

namespace Store

variable {s s' : Store}

theorem SameWithin.renamesIn (h : s.SameWithin (.namedBy f R) R s') : s.RenamesIn f R s' := by
  refine ⟨h.size.symm, fun id hid => (h.parent id hid).symm, fun id hid => ?_, ?_⟩
  · have hnames := List.forall₂_map_left_iff.mpr ((h.bindings id hid).names.imp
      fun _ _ (hn : _ = f _) => hn.symm)
    rw [List.forall₂_eq_eq_eq] at hnames
    exact hnames.symm
  · intro id hid name
    have hlookup := (h.bindings id hid).lookup (show f name = f name from rfl)
    cases hv : List.lookup name (s.bindings id) with
    | none => exact hlookup.eq_none hv
    | some v =>
      obtain ⟨v', hv', hvaries⟩ := hlookup.exists_of_eq_some hv
      rw [hv', hvaries.eq_renamed]
      rfl

/-- **What can be reached is a region.**  If the one store is the other under other names there,
they are joined. -/
theorem RenamesIn.sameWithin {origin : ScopeId → Prop}
    (h : s.RenamesIn f (s.Reaches origin) s') :
    s.SameWithin (.namedBy f (Evaluation.Region s origin)) (Evaluation.Region s origin) s' := by
  refine ⟨h.size.symm, fun id hid => Or.inr hid, ?_, ?_, ?_⟩
  · rintro id p (hid | hid) hp
    · exact Or.inl (hid.parent hp)
    · rw [parent?_of_le hid] at hp
      cases hp
  · rintro id (hid | hid)
    · exact (h.parent id hid).symm
    · rw [parent?_of_le hid, parent?_of_le (h.size ▸ hid)]
  · rintro id (hid | hid)
    · refine ⟨?_, ?_⟩
      · have hnames : (s'.bindings id).names = (s.bindings id).names.map f := h.names id hid
        rw [hnames, List.forall₂_map_right_iff]
        exact List.forall₂_same.mpr fun _ _ => rfl
      · rintro n _ rfl
        rw [h.lookup id hid]
        cases hv : List.lookup n (s.bindings id) with
        | none => exact .none
        | some v => exact .some (Value.varies_renamed fun c hc => Or.inl (hid.captured hv hc))
    · rw [bindings_of_le hid, bindings_of_le (h.size ▸ hid)]
      exact .nil

/-- A store is renamed by renaming all that is in it. -/
theorem renamesIn_renamed (hf : Function.Injective f) (R : ScopeId → Prop) (s : Store) :
    s.RenamesIn f R (s.renamed f) := by
  have hbindings (id : ScopeId) : (s.renamed f).bindings id = (s.bindings id).renamed f := by
    simp only [bindings, renamed, Array.getElem?_map]
    cases s.scopes[id]? <;> rfl
  refine ⟨Array.size_map .., fun id _ => ?_, fun id _ => ?_, fun id _ name => ?_⟩
  · simp only [parent?, renamed, Array.getElem?_map]
    cases s.scopes[id]? <;> rfl
  · unfold names
    rw [hbindings, Bindings.names, Bindings.names, Bindings.renamed, List.map_map, List.map_map]
    rfl
  · rw [hbindings]
    induction s.bindings id with
    | nil => rfl
    | cons x rest ih =>
      rw [Bindings.renamed, List.map_cons, List.lookup_cons, List.lookup_cons]
      by_cases hx : name = x.1
      · rw [beq_iff_eq.mpr hx, beq_iff_eq.mpr (congrArg f hx)]
        rfl
      · rw [beq_eq_false_iff_ne.mpr hx, beq_eq_false_iff_ne.mpr (hf.ne hx)]
        exact ih

end Store

namespace Evaluation

/-- **Names are opaque.**  Let a one-to-one function be applied to every name in a tree, and let
the one machine have, as far as can be reached from a scope, what the other has under the new
names.  Then the tree comes to the same outcome there, under the new names; and the scopes that
could be reached, and those that are made on the way, bind the same values under the new names, in
the same order. -/
theorem names_are_opaque (hf : Function.Injective f) (verbosity limit : Nat) (scope : ScopeId)
    (tree : Node) {m m' : Machine}
    (hm : m.store.RenamesIn f (m.store.Reaches (· = scope)) m'.store) :
    (program verbosity limit scope (tree.renamed f) m').1 =
        renamedOutcome f (program verbosity limit scope tree m).1 ∧
      (program verbosity limit scope tree m).2.store.RenamesIn f
        (Region m.store (· = scope))
        (program verbosity limit scope (tree.renamed f) m').2.store := by
  have hone := Variation.biUnique_namedBy hf (Region m.store (· = scope))
  have hruns : Run.Varies (.namedBy f (Region m.store (· = scope))) _ (Value.Varies _)
      (program verbosity limit scope tree) (program verbosity limit scope (tree.renamed f)) :=
    varies_program (Variation.kept_within hone False _) verbosity limit
      (Node.variant_renamed tree fun _ _ => rfl) ⟨rfl, Or.inl (.here rfl)⟩
  have hends := hruns m m' hm.sameWithin
  exact ⟨hends.outcome.eq_renamedOutcome, hends.stores.renamesIn⟩

/-- A function with two parameters of one name assigns to a name that is bound outside as well, and
returns a function.  Under longer names everything is called by its longer name. -/
theorem names_are_opaque_shadowing :
    let longer (name : String) := "ㄱ" ++ name
    let here := Range.point Position.origin
    let name := Node.identifier here
    let text := Node.string here
    let inner := Node.function here [] (.block here [.returnStatement here (name "ㄴ")])
    let literal := Node.function here [name "ㄱ", name "ㄱ"] (.block here
      [.expressionStatement here (.assignment here (name "ㄴ") (name "ㄱ")),
        .returnStatement here inner])
    let tree := Node.program here
      [.expressionStatement here (.call here literal [text "a", text "b"])]
    let m : Machine := ⟨Store.empty.addRoot.1.bind 0 "ㄴ" (.string here "c"), []⟩
    let m' : Machine := ⟨m.store.renamed longer, []⟩
    Function.Injective longer ∧ m.store.RenamesIn longer (m.store.Reaches (· = 0)) m'.store ∧
      (program 0 9 0 tree m).2.store.names 1 = ["ㄱ", "ㄴ"] ∧
      (program 0 9 0 (tree.renamed longer) m').1 =
        renamedOutcome longer (program 0 9 0 tree m).1 ∧
      (program 0 9 0 tree m).2.store.RenamesIn longer (Region m.store (· = 0))
        (program 0 9 0 (tree.renamed longer) m').2.store := by
  intro longer here name text inner literal tree m m'
  have hlonger : Function.Injective longer := fun a b h => (String.append_right_inj "ㄱ").mp h
  have hm := m.store.renamesIn_renamed hlonger (m.store.Reaches (· = 0))
  exact ⟨hlonger, hm, by decide +kernel,
    names_are_opaque hlonger 0 9 0 tree hm⟩

end Evaluation
end HangulScript
