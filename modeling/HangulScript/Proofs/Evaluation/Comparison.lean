import Mathlib.Data.List.Forall2
import HangulScript.Proofs.Evaluation.Script
import HangulScript.Proofs.Tree.Likeness

/-!
# Two evaluations side by side

Two trees that are like each other are evaluated, and the steps of the two are compared.  The
steps go in pairs: the same scope is asked, the same one is written, and where one records an
event the other does.  A *comparison* says how the two may differ apart from that.

* Ranges and names may be related in any way.
* The two may record at different verbosities.  What only the first is told to record is then
  unheard of by the second.
* The first may have fewer levels, and be cut short by it.

All rules are gone through once, for all comparisons (`like_program`).  What follows for
machines depends on the comparison, and is read off the steps by an induction on them.

## Where verbosities make a difference

Recording needs the text of a value, and the names of the parameters of a function.  A marker
has no text.  A parameter that is no name has none either, and a function with such a parameter
fails at its call when calls are recorded, and a little later otherwise: not before its scope is
made, and not later than its parameters are bound in that scope.  So the two may differ in a
scope that nobody can get at, and it is the only difference (`Fills`).

## Where nothing is

A message is ranged at a predicate, a callee, a body or a statement.  If there is nothing in
that place, then there is no range to be related; but then there was no value either, for
evaluating nothing fails.  Therefore a result is compared together with the fact that there is
something it is the result of (`Gives`, `Completes`).
-/

namespace HangulScript

/-- How two evaluations may differ. -/
structure Comparison where
  /-- The ranges of the two. -/
  range : Range → Range → Prop
  /-- The names of the two. -/
  name : String → String → Prop
  /-- Whether all parameters of functions are names. -/
  named : Prop
  /-- Whether a marker may be the value of a name. -/
  marks : Prop
  /-- The verbosity of the first. -/
  loud : Nat
  /-- The verbosity of the second. -/
  quiet : Nat
  /-- Whether the first may be cut short. -/
  cut : Prop
  /-- How the second fails where the first is exhausted. -/
  bottom : Failure
  quiet_le : quiet ≤ loud
  /-- Markers have no text, so with them the two have to record the same. -/
  level : marks → loud ≤ quiet

/-- Values that differ in related ranges and names at most. -/
inductive Value.Like (c : Comparison) : Value → Value → Prop
  | number {r r' : Range} (x : Double) : c.range r r' → Like c (.number r x) (.number r' x)
  | boolean {r r' : Range} (b : Bool) : c.range r r' → Like c (.boolean r b) (.boolean r' b)
  | string {r r' : Range} (s : String) : c.range r r' → Like c (.string r s) (.string r' s)
  | empty {r r' : Range} : c.range r r' → Like c (.empty r) (.empty r')
  | function {r r' : Range} {ps ps' : List Node} {b b' : Node} {scope : ScopeId} :
      c.range r r' → Node.LikeAll c.range c.name c.named ps ps' →
      (c.named → ∀ p ∈ ps, p.name?.isSome = true) → Node.Like c.range c.name c.named b b' →
      Like c (.function r ps b scope) (.function r' ps' b' scope)
  | returned {v v' : Value} : c.marks → Like c v v' → Like c (.returned v) (.returned v')

/-- Causes that differ in related names at most. -/
inductive Cause.Like (c : Comparison) : Cause → Cause → Prop
  | same {cause : Cause} : cause.family = .evaluation → Like c cause cause
  | unboundIdentifier {n n' : String} : c.name n n' →
      Like c (.unboundIdentifier n) (.unboundIdentifier n')

/-- Failures that differ in related ranges and names at most. -/
inductive Failure.Like (c : Comparison) : Failure → Failure → Prop
  | error {cause cause' : Cause} {r r' : Range} : Cause.Like c cause cause' → c.range r r' →
      Like c (.error ⟨cause, r⟩) (.error ⟨cause', r'⟩)
  | exhausted : Like c .exhausted c.bottom
  | defect (d : Defect) : Like c (.defect d) (.defect d)

/-- Events that differ in related ranges and names at most. -/
inductive Event.Like (c : Comparison) : Event → Event → Prop
  | statement {r r' : Range} (text : String) : c.range r r' →
      Like c (.statement r text) (.statement r' text)
  | call {ns ns' : List String} {r r' : Range} (count : Nat) : List.Forall₂ c.name ns ns' →
      c.range r r' →
      Like c (.call (Value.signature ns) count r) (.call (Value.signature ns') count r')
  | binding {n n' : String} (text : String) : c.name n n' →
      Like c (.binding n text) (.binding n' text)
  | branch {r r' : Range} (text : String) : c.range r r' →
      Like c (.branch r text) (.branch r' text)

namespace Value.Like

variable {c : Comparison} {v v' : Value}

theorem typeName_eq (h : v.Like c v') : v.typeName = v'.typeName := by
  cases h <;> rfl

theorem text?_eq (h : v.Like c v') : v.text? = v'.text? := by
  cases h <;> rfl

theorem isReturned_eq (h : v.Like c v') : v.isReturned = v'.isReturned := by
  cases h <;> rfl

/-- A value that has no text is a marker. -/
theorem marks_of_text? (h : v.Like c v') (ht : v.text? = none) : c.marks := by
  cases h with
  | returned hm _ => exact hm
  | _ => cases ht

end Value.Like

namespace Script

/-! ## Steps in pairs -/

/-- The script writes nothing but one scope, and then fails for a parameter that is no name. -/
inductive Fills {α : Type} (own : ScopeId) : Script α → Prop
  | fail : Fills own (fail (.defect .noName))
  | bindIn {name : String} {value : Value} {next : Script α} : Fills own next →
      Fills own (bindIn own name value next)

theorem Fills.bind {α β : Type} {own : ScopeId} {s : Script α} (h : s.Fills own)
    (f : α → Script β) : (s >>= f).Fills own := by
  induction h with
  | fail => exact .fail
  | bindIn _ ih => exact .bindIn ih

/-- The two scripts take their steps in pairs, as far as a comparison asks for it, and come to
related results. -/
inductive Like (c : Comparison) {α β : Type} (R : α → β → Prop) : Script α → Script β → Prop
  | done {a : α} {b : β} : R a b → Like c R (done a) (done b)
  | fail {failure failure' : Failure} : failure.Like c failure' →
      Like c R (fail failure) (fail failure')
  | get? {scope : ScopeId} {n n' : String} {next : Option Value → Script α}
      {next' : Option Value → Script β} : c.name n n' →
      (∀ v v', Option.Rel (Value.Like c) v v' → Like c R (next v) (next' v')) →
      Like c R (get? scope n next) (get? scope n' next')
  | bindIn {scope : ScopeId} {n n' : String} {v v' : Value} {next : Script α} {next' : Script β} :
      c.name n n' → v.Like c v' → Like c R next next' →
      Like c R (bindIn scope n v next) (bindIn scope n' v' next')
  | addChild {parent : ScopeId} {next : ScopeId → Script α} {next' : ScopeId → Script β} :
      (∀ id, Like c R (next id) (next' id)) →
      Like c R (addChild parent next) (addChild parent next')
  | record {e e' : Event} {next : Script α} {next' : Script β} : e.level ≤ c.quiet →
      e.Like c e' → Like c R next next' → Like c R (record e next) (record e' next')
  /-- Only the first records an event. -/
  | unheard {e : Event} {next : Script α} {s' : Script β} : c.quiet < e.level →
      e.level ≤ c.loud → Like c R next s' → Like c R (record e next) s'
  /-- Only the first records calls, and comes upon a parameter that is no name. -/
  | nameless {parent : ScopeId} {next' : ScopeId → Script β} : ¬ c.named → c.quiet = 0 →
      c.loud ≠ 0 → (∀ id, (next' id).Fills id) →
      Like c R (fail (.defect .noName)) (addChild parent next')
  /-- The first is cut short. -/
  | exhausted {s' : Script β} : c.cut → Like c R (fail .exhausted) s'

namespace Like

variable {c : Comparison} {α β γ δ : Type} {R : α → β → Prop} {S : γ → δ → Prop}

theorem bind {s : Script α} {s' : Script β} {f : α → Script γ} {f' : β → Script δ}
    (h : Like c R s s') (hf : ∀ a b, R a b → Like c S (f a) (f' b)) :
    Like c S (s >>= f) (s' >>= f') := by
  induction h with
  | done hr => exact hf _ _ hr
  | fail h => exact .fail h
  | get? hn _ ih => exact .get? hn ih
  | bindIn hn hv _ ih => exact .bindIn hn hv ih
  | addChild _ ih => exact .addChild ih
  | record hq he _ ih => exact .record hq he ih
  | unheard hq hl _ ih => exact .unheard hq hl ih
  | nameless hn hq hl hf => exact .nameless hn hq hl fun id => (hf id).bind _
  | exhausted hc => exact .exhausted hc

theorem mono {R' : α → β → Prop} {s : Script α} {s' : Script β} (h : Like c R s s')
    (hr : ∀ a b, R a b → R' a b) : Like c R' s s' := by
  induction h with
  | done h => exact .done (hr _ _ h)
  | fail h => exact .fail h
  | get? hn _ ih => exact .get? hn ih
  | bindIn hn hv _ ih => exact .bindIn hn hv ih
  | addChild _ ih => exact .addChild ih
  | record hq he _ ih => exact .record hq he ih
  | unheard hq hl _ ih => exact .unheard hq hl ih
  | nameless hn hq hl hf => exact .nameless hn hq hl hf
  | exhausted hc => exact .exhausted hc

/-- Errors of one cause, at related ranges. -/
theorem error {cause : Cause} {r r' : Range} (hc : cause.family = .evaluation)
    (hr : c.range r r') : Like c R (Script.error cause r) (Script.error cause r') :=
  .fail (.error (.same hc) hr)

theorem defect (d : Defect) : Like c R (Script.defect d) (Script.defect d) := .fail (.defect d)

theorem orDefect {d : Defect} {x : Option α} {y : Option β} (h : Option.Rel R x y) :
    Like c R (Script.orDefect d x) (Script.orDefect d y) := by
  cases h with
  | none => exact .defect d
  | some h => exact .done h

/-- An action that is asked for from a verbosity on: both do it, or the first alone, or
none. -/
theorem whenVerbose {needed : Nat} {action action' : Script Unit}
    (both : needed ≤ c.quiet → Like c (fun _ _ => True) action action')
    (alone : c.quiet < needed → needed ≤ c.loud →
      Like c (fun _ _ => True) action (Script.done ())) :
    Like c (fun _ _ => True) (Script.whenVerbose c.loud needed action)
      (Script.whenVerbose c.quiet needed action') := by
  unfold Script.whenVerbose
  by_cases hq : needed ≤ c.quiet
  · rw [if_pos hq, if_pos (Nat.le_trans hq c.quiet_le)]
    exact both hq
  · rw [if_neg hq]
    split
    · next hl => exact alone (Nat.lt_of_not_le hq) hl
    · exact .done trivial

/-- Recording the texts of values that are like each other. -/
theorem recordText {needed : Nat} {v v' : Value} (hv : v.Like c v')
    (event event' : String → Event) (hl : ∀ text, (event text).level = needed)
    (he : ∀ text, (event text).Like c (event' text)) :
    Like c (fun _ _ => True)
      (Script.whenVerbose c.loud needed do
        let text ← textOf v
        Script.record (event text) (Script.done ()))
      (Script.whenVerbose c.quiet needed do
        let text ← textOf v'
        Script.record (event' text) (Script.done ())) := by
  refine .whenVerbose (fun hq => ?_) fun hq hn => ?_
  · have ht : Option.Rel Eq v.text? v'.text? := by
      rw [hv.text?_eq]
      cases v'.text? with
      | none => exact .none
      | some text => exact .some rfl
    refine (Like.orDefect ht).bind fun text text' h => ?_
    subst h
    exact .record (hl text ▸ hq) (he text) (.done trivial)
  · have hm : ¬ c.marks := fun hm => absurd (c.level hm) (by omega)
    rw [textOf]
    cases ht : v.text? with
    | none => exact absurd (hv.marks_of_text? ht) hm
    | some text => exact .unheard (hl text ▸ hq) (hl text ▸ hn) (.done trivial)

end Like

end Script

/-! ## Results -/

namespace Comparison

variable (c : Comparison)

/-- The values of an expression: if there are any, then there is an expression. -/
def Gives (n : Node) (v v' : Value) : Prop := n.isAbsent = false ∧ v.Like c v'

/-- The values that statements end with, which can be markers around values. -/
def Ends (v v' : Value) : Prop :=
  v.Like c v' ∨ ∃ w w', v = .returned w ∧ v' = .returned w' ∧ w.Like c w'

/-- The values of a statement: if there are any, then there is a statement. -/
def Completes (n : Node) (v v' : Value) : Prop := n.isAbsent = false ∧ c.Ends v v'

/-- Two ways of evaluating expressions that take their steps in pairs. -/
def Matches (eval eval' : Node → ScopeId → Script Value) : Prop :=
  ∀ (n n' : Node) (scope : ScopeId), n.Like c.range c.name c.named n' →
    Script.Like c (c.Gives n) (eval n scope) (eval' n' scope)

variable {c}

theorem Ends.isReturned_eq {v v' : Value} (h : c.Ends v v') : v.isReturned = v'.isReturned := by
  rcases h with h | ⟨w, w', rfl, rfl, -⟩
  · exact h.isReturned_eq
  · rfl

theorem Ends.like {v v' : Value} (h : c.Ends v v') (hr : ¬ v.isReturned = true) :
    v.Like c v' := by
  rcases h with h | ⟨w, w', rfl, rfl, -⟩
  · exact h
  · exact absurd rfl hr

end Comparison

/-! ## The rules, side by side -/

namespace Script

open Comparison (Matches)

variable {c : Comparison} {eval eval' : Node → ScopeId → Script Value} {scope : ScopeId}

/-! ### Statements -/

mutual

theorem like_statement (he : c.Matches eval eval') : ∀ n n' : Node,
    n.Like c.range c.name c.named n' →
    Like c (c.Completes n) (statement c.loud eval scope n) (statement c.quiet eval' scope n')
  | .expressionStatement _ _, _, h => by
    cases h with
    | expressionStatement _ hn => exact (he _ _ scope hn).mono fun v v' hv => ⟨rfl, Or.inl hv.2⟩
  | .returnStatement _ _, _, h => by
    cases h with
    | returnStatement _ hn =>
      refine (he _ _ scope hn).bind fun v v' hv => ?_
      exact .done ⟨rfl, Or.inr ⟨v, v', rfl, rfl, hv.2⟩⟩
  | .branch _ predicate consequence alternative, _, h => by
    have hb := like_block he consequence
    have ha := like_block he alternative
    cases h with
    | branch hr hp hc hal =>
      refine (he _ _ scope hp).bind fun v v' hv => ?_
      obtain ⟨habs, hv⟩ := hv
      cases hv with
      | boolean decision _ =>
        refine (Like.whenVerbose (fun hq => ?_) fun hq hl => ?_).bind fun _ _ _ => ?_
        · exact .record hq (.branch _ hr) (.done trivial)
        · exact .unheard hq hl (.done trivial)
        · split
          · exact (hb _ hc).mono fun _ _ h => ⟨rfl, h.2⟩
          · rw [hal.isAbsent_eq]
            split
            · exact .done ⟨rfl, Or.inl (.empty hr)⟩
            · exact (ha _ hal).mono fun _ _ h => ⟨rfl, h.2⟩
      | _ => exact .error rfl (hp.ranges habs)
  | .absent, _, h | .program .., _, h | .block .., _, h | .number .., _, h | .boolean .., _, h
  | .string .., _, h | .identifier .., _, h | .unary .., _, h | .binary .., _, h
  | .assignment .., _, h | .function .., _, h | .call .., _, h => by
    cases h
    exact .defect _

theorem like_block (he : c.Matches eval eval') : ∀ n n' : Node,
    n.Like c.range c.name c.named n' →
    Like c (c.Completes n) (block c.loud eval scope n) (block c.quiet eval' scope n')
  | .program _ inner, _, h => by
    have hi := like_statements he inner
    cases h with
    | program hr hn => exact (hi _ hn (.empty hr)).mono fun _ _ h => ⟨rfl, h⟩
  | .block _ inner, _, h => by
    have hi := like_statements he inner
    cases h with
    | block hr hn => exact (hi _ hn (.empty hr)).mono fun _ _ h => ⟨rfl, h⟩
  | .absent, _, h | .expressionStatement .., _, h | .returnStatement .., _, h
  | .branch .., _, h | .number .., _, h | .boolean .., _, h | .string .., _, h
  | .identifier .., _, h | .unary .., _, h | .binary .., _, h | .assignment .., _, h
  | .function .., _, h | .call .., _, h => by
    cases h
    exact .defect _

theorem like_statements (he : c.Matches eval eval') : ∀ ns ns' : List Node,
    Node.LikeAll c.range c.name c.named ns ns' → ∀ {last last' : Value}, last.Like c last' →
    Like c c.Ends (statements c.loud eval scope last ns)
      (statements c.quiet eval' scope last' ns')
  | [], _, h, _, _, hl => by
    cases h
    exact .done (Or.inl hl)
  | first :: rest, _, h, _, _, hl => by
    have hf := like_statement he first
    have hr := like_statements he rest
    cases h with
    | cons hn hns =>
      refine (hf _ hn).bind fun v v' hv => ?_
      rw [hv.2.isReturned_eq]
      split
      · exact .done hv.2
      · next hm => exact hr _ hns (hv.2.like (hv.2.isReturned_eq ▸ hm))

end

/-! ### Operators -/

theorem like_unaryResult {r r' : Range} (hr : c.range r r') (op : String) {v v' : Value}
    (hv : v.Like c v') :
    Like c (Value.Like c) (outcomeOf (Evaluation.unaryResult r op v))
      (outcomeOf (Evaluation.unaryResult r' op v')) := by
  cases hv with
  | number x _ =>
    simp only [Evaluation.unaryResult]
    split
    · exact .done (.number x hr)
    · split
      · exact .done (.number x.neg hr)
      · exact .error rfl hr
  | boolean b _ =>
    simp only [Evaluation.unaryResult]
    split
    · exact .done (.boolean _ hr)
    · exact .error rfl hr
  | _ => exact .error rfl hr

/-- The result of a comparison. -/
theorem like_compared {r r' : Range} (hr : c.range r r') (result : Except UnknownOperator Bool) :
    Like c (Value.Like c) (outcomeOf (Run.applied result >>= fun x => pure (.boolean r x)))
      (outcomeOf (Run.applied result >>= fun x => pure (.boolean r' x))) := by
  cases result with
  | ok b => exact .done (.boolean b hr)
  | error operator => exact .defect _

theorem like_binaryResult {r r' : Range} (hr : c.range r r') (op : String) {v v' w w' : Value}
    (hv : v.Like c v') (hw : w.Like c w') :
    Like c (Value.Like c) (outcomeOf (Evaluation.binaryResult r op v w))
      (outcomeOf (Evaluation.binaryResult r' op v' w')) := by
  have hrefused : Like c (Value.Like c)
      (outcomeOf (Run.error (.badBinary op v.typeName w.typeName) r : Run Value))
      (outcomeOf (Run.error (.badBinary op v'.typeName w'.typeName) r')) := by
    rw [hv.typeName_eq, hw.typeName_eq]
    exact .error rfl hr
  cases hv with
  | number x _ =>
    cases hw with
    | number y _ =>
      simp only [Evaluation.binaryResult]
      split
      · cases Operator.arithmetic op x y with
        | ok z => exact .done (.number z hr)
        | error operator => exact .defect _
      · split
        · exact like_compared hr _
        · exact hrefused
    | _ => exact hrefused
  | boolean x _ =>
    cases hw with
    | boolean y _ =>
      simp only [Evaluation.binaryResult]
      split
      · exact like_compared hr _
      · exact hrefused
    | _ => exact hrefused
  | string x _ =>
    cases hw with
    | string y _ =>
      simp only [Evaluation.binaryResult]
      split
      · exact like_compared hr _
      · exact hrefused
    | _ => exact hrefused
  | _ => exact hrefused

/-! ### Calls -/

theorem like_bindName {n n' : String} (hn : c.name n n') {v v' : Value}
    (hv : v.Like c v') :
    Like c (fun _ _ => True) (bindName c.loud scope n v) (bindName c.quiet scope n' v') := by
  have hb : Like c (fun _ _ => True) (bindIn scope n v (done ())) (bindIn scope n' v' (done ())) :=
    .bindIn hn hv (.done trivial)
  exact hb.bind fun _ _ _ => .recordText hv (.binding n) (.binding n') (fun _ => rfl)
    fun text => .binding text hn

theorem like_bindParams {ps ps' : List Node}
    (hp : Node.LikeAll c.range c.name c.named ps ps') {vs vs' : List Value}
    (hv : List.Forall₂ (Value.Like c) vs vs') :
    Like c (fun _ _ => True) (bindParams c.loud scope ps vs)
      (bindParams c.quiet scope ps' vs') := by
  induction ps generalizing ps' vs vs' with
  | nil =>
    cases hp
    exact .done trivial
  | cons p ps ih =>
    cases hp with
    | cons hp hps =>
      cases hv with
      | nil => exact .done trivial
      | cons hv hvs =>
        refine (Like.orDefect hp.name?_rel).bind fun n n' hn => ?_
        exact (like_bindName hn hv).bind fun _ _ _ => ih hps hvs

/-- Two lists of parameters have names together. -/
theorem paramNames?_rel {ps ps' : List Node} (hp : Node.LikeAll c.range c.name c.named ps ps') :
    Option.Rel (List.Forall₂ c.name) (Value.paramNames? ps) (Value.paramNames? ps') := by
  induction ps generalizing ps' with
  | nil =>
    cases hp
    exact .some .nil
  | cons p ps ih =>
    cases hp with
    | @cons _ p' _ ps' hp hps =>
      have hn := hp.name?_rel
      have hns := ih hps
      simp only [Value.paramNames?, List.mapM_cons] at hns ⊢
      generalize p.name? = x, p'.name? = x' at hn ⊢
      generalize ps.mapM Node.name? = y, ps'.mapM Node.name? = y' at hns ⊢
      cases hn with
      | none => exact .none
      | some hn =>
        cases hns with
        | none => exact .none
        | some hns => exact .some (.cons hn hns)

/-- Where nothing is recorded, binding parameters of which one is no name writes the scope, and
fails. -/
theorem fills_bindParams {α : Type} {ps : List Node} (hp : Value.paramNames? ps = none)
    {vs : List Value} (hl : vs.length = ps.length) (own : ScopeId) (f : Unit → Script α) :
    (bindParams 0 own ps vs >>= f).Fills own := by
  induction ps generalizing vs with
  | nil => cases hp
  | cons p ps ih =>
    cases vs with
    | nil => cases hl
    | cons v vs =>
      have hl' : vs.length = ps.length := Nat.succ.inj hl
      cases hn : p.name? with
      | none =>
        rw [bindParams, hn]
        exact .fail
      | some n =>
        have hps : Value.paramNames? ps = none := by
          rw [Value.paramNames?, List.mapM_cons, hn] at hp
          rw [Value.paramNames?]
          cases hm : ps.mapM Node.name? with
          | none => rfl
          | some ns =>
            rw [hm] at hp
            cases hp
        rw [bindParams, hn]
        exact .bindIn (ih hps hl')

theorem like_callFunction (he : c.Matches eval eval') {ps ps' : List Node}
    (hp : Node.LikeAll c.range c.name c.named ps ps')
    (hnamed : c.named → ∀ p ∈ ps, p.name?.isSome = true) {body body' : Node}
    (hb : body.Like c.range c.name c.named body') {vs vs' : List Value}
    (hv : List.Forall₂ (Value.Like c) vs vs') {r r' : Range} (hr : c.range r r') :
    Like c (Value.Like c) (callFunction c.loud eval ps body scope vs r)
      (callFunction c.quiet eval' ps' body' scope vs' r') := by
  unfold callFunction
  rw [hv.length_eq, hp.length_eq]
  split
  · exact .error rfl hr
  next hlen =>
  have hnames := paramNames?_rel hp
  -- Only the first looks for the names of the parameters, and there are none.
  by_cases hnone : (c.quiet < 1 ∧ 1 ≤ c.loud) ∧ Value.paramNames? ps = none
  · obtain ⟨⟨hq, hl⟩, hn⟩ := hnone
    have hn' : Value.paramNames? ps' = none := by
      rw [hn] at hnames
      generalize Value.paramNames? ps' = y at hnames
      cases hnames
      rfl
    have hquiet : c.quiet = 0 := by omega
    rw [hn, whenVerbose, if_pos hl, hquiet]
    refine .nameless (fun h => ?_) hquiet (by omega) fun id => ?_
    · obtain ⟨p, hp, hnone⟩ := Value.exists_of_paramNames?_eq_none hn
      exact absurd (hnamed h p hp) (by simp [hnone])
    · exact fills_bindParams hn' (by simpa using hlen) id _
  · refine (Like.whenVerbose (fun hq => ?_) fun hq hl => ?_).bind fun _ _ _ => ?_
    · refine (Like.orDefect hnames).bind fun ns ns' hns => ?_
      exact .record hq (.call _ hns hr) (.done trivial)
    · cases hn : Value.paramNames? ps with
      | none => exact absurd ⟨⟨hq, hl⟩, hn⟩ hnone
      | some ns => exact .unheard hq hl (.done trivial)
    · refine .addChild fun id => ?_
      refine (like_bindParams hp hv).bind fun _ _ _ => ?_
      refine (like_block he body body' hb).bind fun v v' hv => ?_
      rcases hv with ⟨habs, hv | ⟨w, w', rfl, rfl, hw⟩⟩
      · cases hv with
        | returned _ hw => exact .done hw
        | _ => exact .error rfl (hb.ranges habs)
      · exact .done hw

theorem like_arguments (he : c.Matches eval eval') {ns ns' : List Node}
    (hn : Node.LikeAll c.range c.name c.named ns ns') :
    Like c (List.Forall₂ (Value.Like c)) (arguments eval scope ns)
      (arguments eval' scope ns') := by
  induction ns generalizing ns' with
  | nil =>
    cases hn
    exact .done .nil
  | cons n ns ih =>
    cases hn with
    | cons hn hns =>
      refine (he _ _ scope hn).bind fun v v' hv => ?_
      refine (ih hns).bind fun vs vs' hvs => ?_
      exact .done (.cons hv.2 hvs)

/-! ### Expressions -/

theorem like_expressionWith (he : c.Matches eval eval') :
    c.Matches (expressionWith c.loud eval) (expressionWith c.quiet eval') := by
  intro n n' scope h
  cases h with
  | number x hr => exact .done ⟨rfl, .number x hr⟩
  | boolean b hr => exact .done ⟨rfl, .boolean b hr⟩
  | string s hr => exact .done ⟨rfl, .string s hr⟩
  | identifier hr hn =>
    refine .get? hn fun v v' hv => ?_
    cases hv with
    | none => exact .fail (.error (.unboundIdentifier hn) hr)
    | some hv => exact .done ⟨rfl, hv⟩
  | unary op hr ho =>
    refine (he _ _ scope ho).bind fun v v' hv => ?_
    exact (like_unaryResult hr op hv.2).mono fun _ _ h => ⟨rfl, h⟩
  | binary op hr ha hb =>
    refine (he _ _ scope ha).bind fun v v' hv => ?_
    refine (he _ _ scope hb).bind fun w w' hw => ?_
    exact (like_binaryResult hr op hv.2 hw.2).mono fun _ _ h => ⟨rfl, h⟩
  | @assignment _ _ a a' _ _ hr ha hb =>
    have hname := ha.name?_rel
    simp only [expressionWith]
    cases hl : a.name? with
    | none =>
      rw [hl] at hname
      generalize a'.name? = y at hname
      cases hname
      exact .error rfl hr
    | some name =>
      rw [hl] at hname
      generalize a'.name? = y at hname
      cases hname with
      | some hn =>
        refine (he _ _ scope hb).bind fun v v' hv => ?_
        exact (like_bindName hn hv.2).bind fun _ _ _ => .done ⟨rfl, hv.2⟩
  | function hr hp hn hb => exact .done ⟨rfl, .function hr hp hn hb⟩
  | call hr hc has =>
    refine (he _ _ scope hc).bind fun v v' hv => ?_
    obtain ⟨habs, hv⟩ := hv
    cases hv with
    | function _ hp hn hb =>
      refine (like_arguments he has).bind fun vs vs' hvs => ?_
      exact (like_callFunction he hp hn hb hvs hr).mono fun _ _ h => ⟨rfl, h⟩
    | _ => exact .error rfl (hc.ranges habs)
  | absent => exact .defect _
  | program _ _ => exact .defect _
  | block _ _ => exact .defect _
  | expressionStatement _ _ => exact .defect _
  | returnStatement _ _ => exact .defect _
  | branch _ _ _ _ => exact .defect _

/-- **Expressions side by side.**  Fewer levels are allowed to the first only where it may be
cut short. -/
theorem like_expression {limit limit' : Nat} (hl : limit ≤ limit') (hc : limit < limit' → c.cut) :
    c.Matches (expression .exhausted c.loud limit) (expression c.bottom c.quiet limit') := by
  induction limit generalizing limit' with
  | zero =>
    intro n n' scope h
    cases limit' with
    | zero => exact .fail .exhausted
    | succ limit' => exact .exhausted (hc (Nat.succ_pos limit'))
  | succ limit ih =>
    cases limit' with
    | zero => omega
    | succ limit' => exact like_expressionWith (ih (by omega) fun h => hc (by omega))

/-! ### Programs -/

theorem like_topLevel (he : c.Matches eval eval') {last last' : Value}
    (hl : last.Like c last') {ns ns' : List Node}
    (hn : Node.LikeAll c.range c.name c.named ns ns') :
    Like c (Value.Like c) (topLevel c.loud eval scope last ns)
      (topLevel c.quiet eval' scope last' ns') := by
  induction ns generalizing ns' last last' with
  | nil =>
    cases hn
    exact .done hl
  | cons n ns ih =>
    cases hn with
    | cons hn hns =>
      refine (like_statement he _ _ hn).bind fun v v' hv => ?_
      rw [hv.2.isReturned_eq]
      split
      · exact .error rfl (hn.ranges hv.1)
      next hm =>
        have hv' := hv.2.like (hv.2.isReturned_eq ▸ hm)
        have ht := Like.recordText hv' (.statement n.range) (.statement _) (fun _ => rfl)
          fun text => .statement text (hn.ranges hv.1)
        exact ht.bind fun _ _ _ => ih hv' hns

/-- **Programs side by side.**  Two trees that are like each other take their steps in pairs,
whatever the comparison. -/
theorem like_program {limit limit' : Nat} (hl : limit ≤ limit') (hc : limit < limit' → c.cut)
    (scope : ScopeId) {n n' : Node} (hn : n.Like c.range c.name c.named n') :
    Like c (Value.Like c) (program .exhausted c.loud limit scope n)
      (program c.bottom c.quiet limit' scope n') := by
  have he := like_expression (c := c) hl hc
  unfold program programWith
  have hr := hn.ranges
  cases hn with
  | program _ hss => exact like_topLevel he (.empty (hr rfl)) hss
  | block _ hss => exact like_topLevel he (.empty (hr rfl)) hss
  | _ => exact .defect _

end Script
end HangulScript
