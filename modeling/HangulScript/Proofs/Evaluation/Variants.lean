import HangulScript.Proofs.Evaluation.Correspondence
import HangulScript.Proofs.Evaluation.Coupling

/-!
# Variants are evaluated alike

What evaluating asks of a store is little.  It looks names up, it binds them, and it makes scopes
inside others.  So of two stores all that is needed is that these three keep them *joined*, and
that names that are related, looked up in scopes that are related, are found together
(`Variation.Kept`).  How stores are joined is left open here: for every way of joining stores that
is kept, evaluating variants in them is a coupling (`variesCoupling`).

Why statements behind a return do not matter is to be seen at one place only, in
`Coupling.statements`: what stands before them ends with a marker, whatever it is evaluated to, and
the rest of the list is left alone on both sides.
-/

namespace HangulScript

variable {V : Variation}

/-- Outcomes that are equal up to what may vary: results that are related, or failures. -/
inductive OutcomeVaries (V : Variation) {α β : Type} (R : α → β → Prop) :
    Except Failure α → Except Failure β → Prop
  | ok {a : α} {b : β} : R a b → OutcomeVaries V R (.ok a) (.ok b)
  | error {failure failure' : Failure} : failure.Varies V failure' →
      OutcomeVaries V R (.error failure) (.error failure')

theorem OutcomeVaries.mono {α β : Type} {R R' : α → β → Prop} {x : Except Failure α}
    {y : Except Failure β} (h : OutcomeVaries V R x y) (hr : ∀ a b, R a b → R' a b) :
    OutcomeVaries V R' x y := by
  cases h with
  | ok hab => exact .ok (hr _ _ hab)
  | error h => exact .error h

namespace Variation

/-- A way of joining stores is kept by all that evaluating does with a store. -/
structure Kept (V : Variation) (joins : Store → Store → Prop) : Prop where
  get? {s s' : Store} {a a' : ScopeId} {n n' : String} : joins s s' → V.scope a a' →
    V.name n n' → Option.Rel (Value.Varies V) (s.get? a n) (s'.get? a' n')
  bind {s s' : Store} {a a' : ScopeId} {n n' : String} {v v' : Value} : joins s s' →
    V.scope a a' → V.name n n' → v.Varies V v' → joins (s.bind a n v) (s'.bind a' n' v')
  addChild {s s' : Store} {p p' : ScopeId} : joins s s' → V.scope p p' →
    joins (s.addChild p).1 (s'.addChild p').1 ∧ V.scope (s.addChild p).2 (s'.addChild p').2

/-- How two runs end that began on two machines. -/
structure Ends (V : Variation) (joins : Store → Store → Prop) {α β : Type} (R : α → β → Prop)
    (m m' : Machine) (r : Except Failure α × Machine) (r' : Except Failure β × Machine) :
    Prop where
  outcome : OutcomeVaries V R r.1 r'.1
  stores : joins r.2.store r'.2.store
  events : ∃ new new', r.2.events = new ++ m.events ∧ r'.2.events = new' ++ m'.events ∧
    List.Forall₂ (Event.Varies V) new new'

end Variation

/-! ## Where names are the same -/

section Same

variable (hname : ∀ n n', V.name n n' → n = n')

include hname

theorem OutcomeVaries.agree {α β : Type} {R : α → β → Prop} {x : Except Failure α}
    {y : Except Failure β} (h : OutcomeVaries V R x y) : Agree R x y := by
  cases h with
  | ok hr => exact .ok hr
  | error h =>
    rw [h.eq hname]
    exact .error _

/-- The same events are recorded. -/
theorem Variation.Ends.exists_events {joins : Store → Store → Prop} {α β : Type}
    {R : α → β → Prop} {m m' : Machine} {r : Except Failure α × Machine}
    {r' : Except Failure β × Machine} (h : V.Ends joins R m m' r r') :
    ∃ new, r.2.events = new ++ m.events ∧ r'.2.events = new ++ m'.events := by
  obtain ⟨new, new', hnew, hnew', hevents⟩ := h.events
  have hsame := hevents.imp fun e e' he => (he.eq hname).symm
  rw [List.forall₂_eq_eq_eq] at hsame
  exact ⟨new, hnew, hsame ▸ hnew'⟩

end Same

/-! ## Runs -/

/-- From stores that are joined, two runs do the same up to what may vary. -/
def Run.Varies (V : Variation) (joins : Store → Store → Prop) {α β : Type} (R : α → β → Prop)
    (x : Run α) (y : Run β) : Prop :=
  ∀ m m' : Machine, joins m.store m'.store → V.Ends joins R m m' (x m) (y m')

namespace Run.Varies

variable {joins : Store → Store → Prop} {α β γ δ : Type} {R : α → β → Prop} {S : γ → δ → Prop}
  {x : Run α} {y : Run β}

theorem done {a : α} {b : β} (h : R a b) : Varies V joins R (pure a) (pure b) :=
  fun _ _ hm => ⟨.ok h, hm, [], [], rfl, rfl, .nil⟩

theorem fail {failure failure' : Failure} (h : failure.Varies V failure') :
    Varies V joins R (Run.fail failure) (Run.fail failure') :=
  fun _ _ hm => ⟨.error h, hm, [], [], rfl, rfl, .nil⟩

theorem bind {f : α → Run γ} {g : β → Run δ} (h : Varies V joins R x y)
    (hf : ∀ a b, R a b → Varies V joins S (f a) (g b)) :
    Varies V joins S (x >>= f) (y >>= g) := by
  intro m m' hm
  obtain ⟨houtcome, hstores, new, new', hnew, hnew', hevents⟩ := h m m' hm
  rw [bind_apply, bind_apply]
  cases hx : x m with
  | mk outcome n =>
    cases hy : y m' with
    | mk outcome' n' =>
      rw [hx, hy] at houtcome hstores
      rw [hx] at hnew
      rw [hy] at hnew'
      cases houtcome with
      | error h => exact ⟨.error h, hstores, new, new', hnew, hnew', hevents⟩
      | ok hab =>
        obtain ⟨houtcome, hstores', newer, newer', hnewer, hnewer', hevents'⟩ :=
          hf _ _ hab n n' hstores
        refine ⟨houtcome, hstores', newer ++ new, newer' ++ new', ?_, ?_,
          List.rel_append hevents' hevents⟩
        · rw [List.append_assoc, ← hnew, hnewer]
        · rw [List.append_assoc, ← hnew', hnewer']

theorem mono {R' : α → β → Prop} (h : Varies V joins R x y) (hr : ∀ a b, R a b → R' a b) :
    Varies V joins R' x y := by
  intro m m' hm
  obtain ⟨houtcome, hstores, hevents⟩ := h m m' hm
  exact ⟨houtcome.mono hr, hstores, hevents⟩

theorem record {e e' : Event} (h : e.Varies V e') :
    Varies V joins (fun _ _ => True) (Run.record e) (Run.record e') :=
  fun _ _ hm => ⟨.ok trivial, hm, [e], [e'], rfl, rfl, .cons h .nil⟩

variable (hk : V.Kept joins)

include hk

theorem get? {a a' : ScopeId} (ha : V.scope a a') {n n' : String} (hn : V.name n n') :
    Varies V joins (Option.Rel (Value.Varies V)) (Run.get? a n) (Run.get? a' n') :=
  fun _ _ hm => ⟨.ok (hk.get? hm ha hn), hm, [], [], rfl, rfl, .nil⟩

theorem bindIn {a a' : ScopeId} (ha : V.scope a a') {n n' : String} (hn : V.name n n')
    {v v' : Value} (hv : v.Varies V v') :
    Varies V joins (fun _ _ => True) (Run.bindIn a n v) (Run.bindIn a' n' v') :=
  fun _ _ hm => ⟨.ok trivial, hk.bind hm ha hn hv, [], [], rfl, rfl, .nil⟩

theorem addChild {p p' : ScopeId} (hp : V.scope p p') :
    Varies V joins V.scope (Run.addChild p) (Run.addChild p') := by
  intro m m' hm
  obtain ⟨hstores, hscopes⟩ := hk.addChild hm hp
  exact ⟨.ok hscopes, hstores, [], [], rfl, rfl, .nil⟩

end Run.Varies

namespace Evaluation

open Node (Variant)
open Run (Varies)

/-- Two ways of evaluating expressions do the same with variants, in scopes that are related. -/
def Evaluator.Varies (V : Variation) (joins : Store → Store → Prop) (eval eval' : Evaluator) :
    Prop :=
  ∀ (n n' : Node) (a a' : ScopeId), Variant V.name V.idle n n' → V.scope a a' →
    Run.Varies V joins (Value.Varies V) (eval n a) (eval' n' a')

variable {joins : Store → Store → Prop}

/-- **Doing the same up to what may vary, as a coupling.**  There is one world.  Of trees and values
nothing is asked but that they are variants, and equal up to what may vary. -/
def variesCoupling (hk : V.Kept joins) : Coupling Unit where
  World := Unit
  order := oneWorld
  sorts _ := .all
  name := V.name
  idle := V.idle
  scope _ := V.scope
  sorts_below _ := .refl _
  scope_mono _ h := h
  runs _ _ S x y := Varies V joins (S ()) x (y ())
  done := .done
  fail _ := .fail
  bind h hf := h.bind fun a a' => hf () a a' le_rfl
  record := .record
  get? ha hn := (Varies.get? hk ha hn).mono fun _ _ h => h.imp fun _ _ hv => ⟨hv, trivial⟩
  bindIn ha _ hn hv := .bindIn hk ha hn hv.1

section Rules

variable (hk : V.Kept joins) {verbosity : Nat} {eval eval' : Evaluator} {a a' : ScopeId}
  (he : eval.Varies V joins eval')

include hk he

theorem Evaluator.Varies.couples (ha : V.scope a a') :
    (variesCoupling hk).Couples () a a' eval fun _ => eval' :=
  fun _ _ n n' _ hn => (he n n' a a' hn ha).mono fun _ _ hv => ⟨hv, trivial⟩

theorem Evaluator.Varies.calls : (variesCoupling hk).Calls () eval fun _ => eval' := by
  intro _ _ r params params' body body' captured captured' hf
  have hcaptured : V.scope captured captured' := by
    cases hf.1 with
    | function _ _ _ ha => exact ha
  exact (Varies.addChild hk hcaptured).mono fun _ _ hs =>
    ⟨Evaluator.Varies.couples hk he hs, hs, trivial, fun _ _ _ _ => trivial⟩

theorem varies_expressionWith :
    Evaluator.Varies V joins (expressionWith verbosity eval) (expressionWith verbosity eval') :=
  fun _ _ _ _ hn ha => (Coupling.expressionWith (Evaluator.Varies.couples hk he ha) ha trivial hn
    fun _ _ _ _ => Evaluator.Varies.calls hk he).mono fun _ _ hv => hv.1

theorem varies_programWith {n n' : Node} (hn : Variant V.name V.idle n n') (ha : V.scope a a') :
    Varies V joins (Value.Varies V) (programWith verbosity eval a n)
      (programWith verbosity eval' a' n') :=
  (Coupling.programWith (Evaluator.Varies.couples hk he ha) trivial hn
    fun _ _ _ _ _ => .fail (.error _ rfl)).mono fun _ _ hv => hv.1.varies

end Rules

/-- Variants are evaluated alike, however many levels are left. -/
theorem varies_expression (hk : V.Kept joins) (verbosity limit : Nat) :
    Evaluator.Varies V joins (expression verbosity limit) (expression verbosity limit) := by
  induction limit with
  | zero => exact fun _ _ _ _ _ _ => .fail .exhausted
  | succ limit ih => exact varies_expressionWith hk ih

/-- **Variants are evaluated alike.**  From stores that are joined, in scopes that are related, two
programs that are variants of one another come to outcomes that are equal up to what may vary,
leave stores that are joined, and record events that are equal up to names. -/
theorem varies_program (hk : V.Kept joins) (verbosity limit : Nat) {n n' : Node}
    (hn : Variant V.name V.idle n n') {a a' : ScopeId} (ha : V.scope a a') :
    Varies V joins (Value.Varies V) (program verbosity limit a n)
      (program verbosity limit a' n') := by
  intro m m' hm
  obtain ⟨houtcome, hstores, hevents⟩ :=
    varies_programWith hk (varies_expression hk verbosity limit) hn ha m m' hm
  unfold program
  rw [← hn.range_eq]
  cases hx : programWith verbosity (expression verbosity limit) a n m with
  | mk outcome s =>
    cases hy : programWith verbosity (expression verbosity limit) a' n' m' with
    | mk outcome' s' =>
      rw [hx, hy] at houtcome hstores hevents
      cases houtcome with
      | ok hv => exact ⟨.ok hv, hstores, hevents⟩
      | error h =>
        cases h with
        | exhausted => exact ⟨.error (.error _ rfl), hstores, hevents⟩
        | error r hc => exact ⟨.error (.error r hc), hstores, hevents⟩
        | unbound r hn => exact ⟨.error (.unbound r hn), hstores, hevents⟩
        | defect d => exact ⟨.error (.defect d), hstores, hevents⟩

end Evaluation
end HangulScript
