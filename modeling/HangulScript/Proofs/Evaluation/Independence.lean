import HangulScript.Proofs.Evaluation.Correspondence
import HangulScript.Proofs.Evaluation.Coupling

/-!
# What a call depends on

A call sees what can be reached from its function and its arguments, and nothing else: neither
the scope that it is made from, nor what else is in the store, nor the numbers of scopes.  If what
can be reached looks the same in two stores, up to these numbers, then the call ends in both the
same way.

One tree is evaluated in two scopes that are paired, and the two evaluations are compared.  This is
a coupling whose worlds are correspondences (`alikeCoupling`).  Reading goes by `Joins.get?`,
binding by `Joins.bind`; a call pairs the two scopes that it makes, and evaluates its body there.
The events and the messages of errors are made of texts, type names and ranges, and these are the
same for values that correspond.

What was there before a call is written by no call, so it is joined with itself in the store that
a call leaves behind (`Joins.diagonal`).  For that reason no call can tell whether another one came
before it.
-/

namespace HangulScript
namespace Evaluation

open Run (Alike)

/-- Expressions do the same in scopes that are paired. -/
def Evaluator.Alike (eval : Evaluator) : Prop :=
  ∀ (β : Correspondence) (node : Node) (a b : ScopeId), β.relates a b →
    Run.Alike β Value.Corresponds (eval node a) (eval node b)

/-! ## Correspondences as worlds -/

/-- To correspond is to be equal up to the numbers of scopes, which are paired. -/
theorem corresponds_iff {β : Correspondence} {v w : Value} :
    v.Varies ⟨Eq, β.relates, False⟩ w ↔ v.Corresponds β w := by
  constructor
  · intro h
    induction h with
    | number r x => exact .number r x
    | boolean r b => exact .boolean r b
    | string r text => exact .string r text
    | empty r => exact .empty r
    | function r hp hb ha =>
      rw [hp.eq (fun _ _ hx => hx) id, hb.eq (fun _ _ hx => hx) id]
      exact .function r _ _ ha
    | returned _ ih => exact .returned ih
  · intro h
    induction h with
    | number r x => exact .number r x
    | boolean r b => exact .boolean r b
    | string r text => exact .string r text
    | empty r => exact .empty r
    | function r ps b ha =>
      exact .function r (Node.variantAll_self fun _ _ _ _ => rfl)
        (Node.variant_self fun _ _ => rfl) ha
    | returned _ ih => exact .returned ih

/-- **Doing the same from stores that are joined, as a coupling.**  The worlds are correspondences,
and they grow.  Of trees and values nothing is asked. -/
def alikeCoupling : Coupling Unit where
  World := Correspondence
  order := inferInstance
  sorts _ := .all
  name := Eq
  idle := False
  scope β := β.relates
  sorts_below _ := .refl _
  scope_mono hβ h := hβ _ _ h
  runs β _ S x y := Alike β S x (y ())
  done := .done
  fail _ hf := by
    rw [hf.eq fun _ _ h => h]
    exact .fail _
  bind h hf := h.bind hf
  record he := by
    rw [he.eq fun _ _ h => h]
    exact .record _
  get? := by
    rintro β a a' n n' ha rfl
    exact (Alike.get? ha n).imp fun _ _ _ h =>
      h.imp fun _ _ hv => ⟨corresponds_iff.mpr hv, trivial⟩
  bindIn := by
    rintro β a a' n n' v v' ha - rfl hv
    exact .bindIn ha n (corresponds_iff.mp hv.1)

theorem value_of_corresponds {β : Correspondence} {v w : Value} (h : v.Corresponds β w) :
    alikeCoupling.value β v w := ⟨corresponds_iff.mpr h, trivial⟩

section Rules

variable {verbosity : Nat} {eval : Evaluator} {β : Correspondence} {a b : ScopeId}
  (he : eval.Alike)

include he

theorem Evaluator.Alike.couples (hab : β.relates a b) :
    alikeCoupling.Couples β a b eval fun _ => eval := by
  intro β' hβ n n' _ hn
  obtain rfl : n = n' := (hn.eq (fun _ _ h => h) id).symm
  exact (he β' n a b (hβ a b hab)).imp fun _ _ _ => value_of_corresponds

/-- **A call** pairs the scopes that it makes, and evaluates its body in them. -/
theorem Evaluator.Alike.calls : alikeCoupling.Calls β eval fun _ => eval := by
  intro β' _ r params params' body body' captured captured' hf
  have hcaptured : β'.relates captured captured' := by
    cases hf.1 with
    | function _ _ _ ha => exact ha
  exact (Alike.addChild hcaptured).imp fun _ _ _ hs =>
    ⟨he.couples hs, hs, trivial, fun _ _ _ _ => trivial⟩

theorem alike_callFunction (params : List Node) (body : Node) (range : Range)
    {captured captured' : ScopeId} (hc : β.relates captured captured')
    {values values' : List Value} (hv : List.Forall₂ (Value.Corresponds β) values values') :
    Alike β Value.Corresponds (callFunction verbosity eval params body captured values range)
      (callFunction verbosity eval params body captured' values' range) := by
  have hf : alikeCoupling.value β (.function range params body captured)
      (.function range params body captured') :=
    value_of_corresponds (.function range params body hc)
  have hvalues : alikeCoupling.values β values values' :=
    hv.imp fun _ _ => value_of_corresponds
  exact (Coupling.callFunction hf hvalues he.calls range).imp fun _ _ _ h =>
    corresponds_iff.mp h.1

theorem alike_expressionWith : Evaluator.Alike (expressionWith verbosity eval) := by
  intro β node a b hab
  exact (Coupling.expressionWith (C := alikeCoupling) (he.couples hab) hab trivial
    (Node.variant_self fun _ _ => rfl) fun _ _ _ _ => he.calls).imp fun _ _ _ h =>
      corresponds_iff.mp h.1

theorem alike_programWith (hab : β.relates a b) (node : Node) :
    Alike β Value.Corresponds (programWith verbosity eval a node)
      (programWith verbosity eval b node) :=
  (Coupling.programWith (C := alikeCoupling) (he.couples hab) trivial
    (Node.variant_self fun _ _ => rfl) fun _ _ _ _ _ => .fail _).imp fun _ _ _ h =>
      corresponds_iff.mp h.1.varies

end Rules

/-- Expressions do the same in scopes that are paired, however many levels are left. -/
theorem alike_expression (verbosity limit : Nat) :
    Evaluator.Alike (expression verbosity limit) := by
  induction limit with
  | zero => exact fun β node a b _ => .fail _
  | succ limit ih => exact alike_expressionWith ih

theorem alike_program (verbosity limit : Nat) {β : Correspondence} {a b : ScopeId}
    (hab : β.relates a b) (node : Node) :
    Alike β Value.Corresponds (program verbosity limit a node)
      (program verbosity limit b node) := by
  intro m m' hm
  obtain ⟨β', hgrows, hjoins, hagree, hevents⟩ :=
    alike_programWith (alike_expression verbosity limit) hab node m m' hm
  unfold program
  cases hx : programWith verbosity (expression verbosity limit) a node m with
  | mk outcome n =>
    cases hy : programWith verbosity (expression verbosity limit) b node m' with
    | mk outcome' n' =>
      rw [hx, hy] at hgrows hjoins hagree hevents
      cases hagree with
      | ok hvw => exact ⟨β', hgrows, hjoins, .ok hvw, hevents⟩
      | error failure =>
        cases failure with
        | exhausted => exact ⟨β', hgrows, hjoins, .error _, hevents⟩
        | _ => exact ⟨β', hgrows, hjoins, .error _, hevents⟩

/-- **Programs leave no number without its scope.**  If a store has what can be reached from some
scopes, it still does after a program was evaluated in one of them. -/
theorem closed_program (verbosity limit : Nat) {origin : ScopeId → Prop} {scope : ScopeId}
    (hs : origin scope) (node : Node) {m : Machine} (h : m.store.Closed origin) :
    (program verbosity limit scope node m).2.store.Closed origin := by
  have hself : ∀ a, origin a → (Correspondence.diagonal (m.store.Reaches origin)).relates a a :=
    fun a ha => ⟨rfl, .here ha⟩
  obtain ⟨β', hgrows, hjoins, -⟩ :=
    alike_program verbosity limit (hself scope hs) node m m (.diagonal h (.refl none m.store))
  exact hjoins.closed fun a ha => ⟨a, hgrows.keeps a a (hself a ha)⟩

/-! ## What a call depends on -/

/-- The scopes that a call begins at: the one that its function was made in, and those of the
functions among its arguments. -/
def callOrigin (captured : ScopeId) (values : List Value) (id : ScopeId) : Prop :=
  id = captured ∨ ∃ v ∈ values, v.scope? = some id

/-- **A call depends only on what its function and its arguments can reach.**  Take two machines,
and a correspondence between scopes of the one and of the other that joins their stores: paired
scopes have paired parents, bind the same names, and bind corresponding values.  Let a function be
called in both, made in scopes that are paired, with arguments that correspond.  Whatever the limit,
the calls fail with the same failure or have results that correspond, they record the same events,
and what is paired afterwards, apart from what was paired before, are scopes that the calls made.

In particular no call changes what another one sees.  Take a machine that has whatever can be
reached from a function and arguments, and any other call; it may be the same one.  Then calling the
function after that call ends as calling it right away does, up to scopes made by the calls. -/
theorem call_determined_by_reach (verbosity limit : Nat) (params : List Node) (body : Node)
    (range : Range) :
    (∀ (β : Correspondence) (m m' : Machine) (captured captured' : ScopeId)
      (values values' : List Value),
        β.Joins m.store m'.store → β.relates captured captured' →
          List.Forall₂ (Value.Corresponds β) values values' →
            EndAlike β Value.Corresponds m m'
              (callFunction verbosity (expression verbosity limit) params body captured values
                range m)
              (callFunction verbosity (expression verbosity limit) params body captured' values'
                range m')) ∧
    ∀ (m : Machine) (captured : ScopeId) (values : List Value),
      m.store.Closed (callOrigin captured values) →
        ∀ (otherVerbosity otherLimit : Nat) (otherParams : List Node) (otherBody : Node)
          (otherCaptured : ScopeId) (otherValues : List Value) (otherRange : Range),
            let between := (callFunction otherVerbosity (expression otherVerbosity otherLimit)
              otherParams otherBody otherCaptured otherValues otherRange m).2
            EndAlike (.diagonal (m.store.Reaches (callOrigin captured values))) Value.Corresponds
              m between
              (callFunction verbosity (expression verbosity limit) params body captured values
                range m)
              (callFunction verbosity (expression verbosity limit) params body captured values
                range between) := by
  have he := alike_expression verbosity limit
  constructor
  · intro β m m' captured captured' values values' hm hc hv
    exact alike_callFunction he params body range hc hv m m' hm
  · intro m captured values hclosed v l ps b c vs r between
    have hwrites : Store.WritesAtMost none m.store between.store :=
      writesAtMost_callFunction (writesItsScope_expression v l) ps b c vs r m
    let β := Correspondence.diagonal (m.store.Reaches (callOrigin captured values))
    have hc : β.relates captured captured := ⟨rfl, .here (Or.inl rfl)⟩
    have hv : List.Forall₂ (Value.Corresponds β) values values :=
      List.forall₂_same.mpr fun v hv => .self fun c hc => ⟨rfl, .here (Or.inr ⟨v, hv, hc⟩)⟩
    exact alike_callFunction he params body range hc hv m between (.diagonal hclosed hwrites)

/-- A scope that binds a function made in it, in one store under the number zero and in another,
behind a further scope, under the number one.  The function returns itself, and is called twice
with itself. -/
theorem call_determined_by_reach_cycle :
    let here := Range.point Position.origin
    let params := [Node.identifier here "x"]
    let body := Node.block here [.returnStatement here (.identifier here "f")]
    let f := fun scope => Value.function here params body scope
    let m : Machine := ⟨Store.empty.addRoot.1.bind 0 "f" (f 0), []⟩
    let m' : Machine := ⟨Store.empty.addRoot.1.addRoot.1.bind 1 "f" (f 1), []⟩
    let call := fun scope =>
      callFunction 3 (expression 3 nestingLimit) params body scope [f scope] here
    ∃ β : Correspondence, (β.Joins m.store m'.store ∧ β.relates 0 1 ∧
        List.Forall₂ (Value.Corresponds β) [f 0] [f 1]) ∧
      EndAlike β Value.Corresponds m m' (call 0 m) (call 1 m') ∧
        m.store.Closed (callOrigin 0 [f 0]) ∧
          EndAlike (.diagonal (m.store.Reaches (callOrigin 0 [f 0]))) Value.Corresponds m
            (call 0 m).2 (call 0 m) (call 0 (call 0 m).2) := by
  intro here params body f m m' call
  let β : Correspondence :=
    { relates := fun a b => a = 0 ∧ b = 1
      right_unique := fun h h' => h.2.trans h'.2.symm
      left_unique := fun h h' => h.1.trans h'.1.symm }
  have hpair : β.relates 0 1 := ⟨rfl, rfl⟩
  have hf : (f 0).Corresponds β (f 1) := .function here params body hpair
  have hroots : β.Joins Store.empty.addRoot.1 Store.empty.addRoot.1.addRoot.1 := by
    refine ⟨?_, ?_, ?_⟩
    · rintro a b ⟨rfl, rfl⟩
      exact ⟨by decide, by decide⟩
    · rintro a b ⟨rfl, rfl⟩
      exact .none
    · rintro a b name ⟨rfl, rfl⟩
      exact .none
  have hjoins : β.Joins m.store m'.store := hroots.bind hpair "f" hf
  have hvalues : List.Forall₂ (Value.Corresponds β) [f 0] [f 1] := .cons hf .nil
  have hclosed : m.store.Closed (callOrigin 0 [f 0]) := by
    refine hjoins.closed fun a ha => ⟨1, ?_, rfl⟩
    rcases ha with rfl | ⟨v, hv, hs⟩
    · rfl
    · rw [List.mem_singleton] at hv
      subst hv
      exact (Option.some.inj hs).symm
  obtain ⟨hfirst, hsecond⟩ := call_determined_by_reach 3 nestingLimit params body here
  exact ⟨β, ⟨hjoins, hpair, hvalues⟩, hfirst β m m' 0 1 _ _ hjoins hpair hvalues, hclosed,
    hsecond m 0 [f 0] hclosed 3 nestingLimit params body 0 [f 0] here⟩

end Evaluation
end HangulScript
