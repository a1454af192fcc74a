import HangulScript.Evaluation.Machine
import HangulScript.Proofs.Evaluation.Regions
import HangulScript.Proofs.Tree.Variants
import Mathlib.Data.List.Forall2

/-!
# What may vary between two evaluations

Two trees that are variants of one another are evaluated in two scopes, and the two evaluations
are compared.  They need not have the same names, nor the same statements where none is ever
reached; their scopes need not have the same numbers, nor the same scopes around them.  A
*variation* says what is related: names, and scopes.  Values are related if they are equal up to
these, a function by its parameters and its body, which are variants, and by its scope.

Failures and events tell names and texts, and no scopes.  Where only equal names are related,
failures and events that are related are the same.
-/

namespace HangulScript

/-- What may vary between two evaluations: which names and which scopes are related, and whether
the second may have further statements behind returns. -/
structure Variation where
  name : String → String → Prop
  scope : ScopeId → ScopeId → Prop
  idle : Prop

variable {V : Variation}

/-- Values that are equal up to what may vary. -/
inductive Value.Varies (V : Variation) : Value → Value → Prop
  | number (r : Range) (x : Double) : Varies V (.number r x) (.number r x)
  | boolean (r : Range) (b : Bool) : Varies V (.boolean r b) (.boolean r b)
  | string (r : Range) (text : String) : Varies V (.string r text) (.string r text)
  | empty (r : Range) : Varies V (.empty r) (.empty r)
  | function (r : Range) {ps ps' : List Node} {b b' : Node} {a a' : ScopeId} :
      Node.VariantAll V.name V.idle ps ps' → Node.Variant V.name V.idle b b' → V.scope a a' →
      Varies V (.function r ps b a) (.function r ps' b' a')
  | returned {v v' : Value} : Varies V v v' → Varies V (.returned v) (.returned v')

/-- The name that a message tells. -/
def Cause.name? : Cause → Option String
  | unboundIdentifier name => some name
  | _ => none

/-- Failures that are equal up to names. -/
inductive Failure.Varies (V : Variation) : Failure → Failure → Prop
  | error {cause : Cause} (r : Range) : cause.name? = none →
      Varies V (.error ⟨cause, r⟩) (.error ⟨cause, r⟩)
  | unbound {n n' : String} (r : Range) : V.name n n' →
      Varies V (.error ⟨.unboundIdentifier n, r⟩) (.error ⟨.unboundIdentifier n', r⟩)
  | exhausted : Varies V .exhausted .exhausted
  | defect (d : Defect) : Varies V (.defect d) (.defect d)

/-- Events that are equal up to names. -/
inductive Event.Varies (V : Variation) : Event → Event → Prop
  | statement (r : Range) (text : String) : Varies V (.statement r text) (.statement r text)
  | call {ns ns' : List String} (count : Nat) (r : Range) : List.Forall₂ V.name ns ns' →
      Varies V (.call (Value.signature ns) count r) (.call (Value.signature ns') count r)
  | binding {n n' : String} (text : String) : V.name n n' →
      Varies V (.binding n text) (.binding n' text)
  | branch (r : Range) (text : String) : Varies V (.branch r text) (.branch r text)

namespace Value.Varies

variable {v v' : Value}

theorem text?_eq (h : v.Varies V v') : v.text? = v'.text? := by
  cases h <;> rfl

theorem isReturned_eq (h : v.Varies V v') : v.isReturned = v'.isReturned := by
  cases h <;> rfl

/-- Values that are related stay so when more scopes are. -/
theorem mono {name : String → String → Prop} {scope scope' : ScopeId → ScopeId → Prop}
    {idle : Prop} (h : v.Varies ⟨name, scope, idle⟩ v') (hs : ∀ a a', scope a a' → scope' a a') :
    v.Varies ⟨name, scope', idle⟩ v' := by
  induction h with
  | number r x => exact .number r x
  | boolean r b => exact .boolean r b
  | string r text => exact .string r text
  | empty r => exact .empty r
  | function r hp hb ha => exact .function r hp hb (hs _ _ ha)
  | returned _ ih => exact .returned ih

/-- Where every name is related to itself, a value is, if its scope is. -/
theorem self (hname : ∀ x, V.name x x) (hs : ∀ c, v.scope? = some c → V.scope c c) :
    v.Varies V v := by
  induction v with
  | number r x => exact .number r x
  | boolean r b => exact .boolean r b
  | string r text => exact .string r text
  | empty r => exact .empty r
  | function r ps b c =>
    exact .function r (Node.variantAll_self fun _ _ x _ => hname x)
      (Node.variant_self fun x _ => hname x) (hs c rfl)
  | returned v ih => exact .returned (ih hs)

/-- The scope of a function is related to that of a function it is equal to. -/
theorem exists_scope (h : v.Varies V v') {c : ScopeId} (hc : v.scope? = some c) :
    ∃ d, V.scope c d := by
  induction h with
  | function _ _ _ ha =>
    cases hc
    exact ⟨_, ha⟩
  | returned _ ih => exact ih hc
  | _ => cases hc

end Value.Varies

/-- The names of parameters that are variants are related, or not all are names on either
side. -/
theorem Node.VariantAll.paramNames?_rel {name : String → String → Prop} {idle : Prop}
    {ps ps' : List Node} (hp : Node.VariantAll name idle ps ps') :
    Option.Rel (List.Forall₂ name) (Value.paramNames? ps) (Value.paramNames? ps') := by
  induction ps generalizing ps' with
  | nil =>
    cases hp
    exact .some .nil
  | cons p ps ih =>
    cases hp with
    | @cons _ p' _ ps' hp hps =>
      have hn := hp.name?_rel
      have hns := ih hps
      simp only [Value.paramNames?, List.mapM_cons] at hns ⊢
      generalize p.name? = x, p'.name? = x' at hn ⊢
      generalize ps.mapM Node.name? = y, ps'.mapM Node.name? = y' at hns ⊢
      cases hn with
      | none => exact .none
      | some hn =>
        cases hns with
        | none => exact .none
        | some hns => exact .some (.cons hn hns)

/-! ## Where names are the same -/

section Same

variable (hname : ∀ n n', V.name n n' → n = n')

include hname

theorem Failure.Varies.eq {failure failure' : Failure} (h : failure.Varies V failure') :
    failure' = failure := by
  cases h with
  | unbound r hn => rw [hname _ _ hn]
  | _ => rfl

theorem Event.Varies.eq {e e' : Event} (h : e.Varies V e') : e' = e := by
  cases h with
  | call count r hns =>
    have hns := hns.imp hname
    rw [List.forall₂_eq_eq_eq] at hns
    rw [hns]
  | binding text hn => rw [hname _ _ hn]
  | _ => rfl

/-- Values are the same, where scopes are too and no statements are added. -/
theorem Value.Varies.eq (hno : ¬ V.idle) (hscope : ∀ a a', V.scope a a' → a = a') {v v' : Value}
    (h : v.Varies V v') : v' = v := by
  induction h with
  | function r hp hb ha => rw [hp.eq hname hno, hb.eq hname hno, hscope _ _ ha]
  | returned _ ih => rw [ih]
  | _ => rfl

end Same
end HangulScript
