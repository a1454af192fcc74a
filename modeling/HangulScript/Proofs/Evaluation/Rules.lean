import HangulScript.Evaluation.Rules
import HangulScript.Proofs.Evaluation.Semantics

/-!
# The rules in parts

Some rules do several things, and proofs about them want to speak of these one at a time.

1. An operator asks tables whether it can be applied, and then applies itself.  What it comes to
   is the meaning that the semantics gives it, or a refusal if it has none (`unaryResult_eq`,
   `binaryResult_eq`).
2. A call of a function first goes as far as the end of the body, and then takes the value out of
   the marker, if there is one (`callFunction_eq`).
3. A call as an expression evaluates what is called, then the arguments, and then applies the
   one to the others.  What it is to apply a function is left open in `callWith`, so that other
   evaluators than the one of the language can be told by it.
-/

namespace HangulScript

/-- Runs can be regrouped. -/
instance : LawfulMonad Run := by
  refine LawfulMonad.mk' Run (fun x => ?_) (fun _ _ => rfl) fun x f g => ?_
  · funext m
    show (x >>= fun a => pure (id a)) m = x m
    rw [Run.bind_apply]
    rcases x m with ⟨outcome, m'⟩
    cases outcome <;> rfl
  · funext m
    simp only [Run.bind_apply]
    rcases x m with ⟨outcome, m'⟩
    cases outcome <;> rfl

namespace Evaluation

/-! ## Operators -/

theorem mem_of_arithmetic {op : String} {x y z : Double} (h : Operator.arithmetic op x y = .ok z) :
    op ∈ Operator.arithmeticOperators := by
  by_cases hop : op ∈ Operator.arithmeticOperators
  · exact hop
  · simp only [Operator.arithmeticOperators, List.mem_cons, List.not_mem_nil, or_false,
      not_or] at hop
    simp [Operator.arithmetic, hop] at h

theorem mem_of_holds {op : String} {order : Option Ordering} {b : Bool}
    (h : Operator.holds op order = .ok b) : op ∈ Operator.comparisons := by
  by_cases hop : op ∈ Operator.comparisons
  · exact hop
  · simp only [Operator.comparisons, List.mem_cons, List.not_mem_nil, or_false, not_or] at hop
    simp [Operator.holds, hop] at h

/-- An operator in front of a value does what it means, or is refused because it means
nothing. -/
theorem unaryResult_eq (range : Range) (op : String) (v : Value) :
    (∃ w, FrontMeans range op v w ∧ unaryResult range op v = pure w) ∨
      (∀ w, ¬ FrontMeans range op v w) ∧
        unaryResult range op v = Run.error (.badUnary op v.typeName) range := by
  cases v with
  | number r x =>
    by_cases hplus : op = "+"
    · subst hplus
      exact Or.inl ⟨_, .plus, rfl⟩
    · by_cases hminus : op = "-"
      · subst hminus
        exact Or.inl ⟨_, .minus, rfl⟩
      · refine Or.inr ⟨?_, by simp only [unaryResult, if_neg hplus, if_neg hminus]⟩
        intro w hw
        cases hw with
        | plus => exact hplus rfl
        | minus => exact hminus rfl
  | boolean r b =>
    by_cases hnot : op = "!"
    · subst hnot
      exact Or.inl ⟨_, .negation, rfl⟩
    · refine Or.inr ⟨?_, by simp only [unaryResult, if_neg hnot]⟩
      intro w hw
      cases hw with
      | negation => exact hnot rfl
  | _ =>
    refine Or.inr ⟨?_, rfl⟩
    intro w hw
    cases hw

theorem unaryResult_of_means {range : Range} {op : String} {v w : Value}
    (h : FrontMeans range op v w) : unaryResult range op v = pure w ∧ w.isReturned = false := by
  cases h <;> exact ⟨rfl, rfl⟩

/-- Two values that can be compared are compared by a comparison, and refused by any other
operator, if that does no arithmetic with them. -/
theorem comparison_eq {range : Range} {op : String} {left right : Value} {order : Option Ordering}
    (hc : Compare left right order)
    (ha : ∀ w, InfixMeans range op left right w → op ∈ Operator.comparisons) :
    let result : Run Value :=
      if op ∈ Operator.comparisons then do
        return .boolean range (← Run.applied (Operator.holds op order))
      else Run.error (.badBinary op left.typeName right.typeName) range
    (∃ w, InfixMeans range op left right w ∧ result = pure w) ∨
      (∀ w, ¬ InfixMeans range op left right w) ∧
        result = Run.error (.badBinary op left.typeName right.typeName) range := by
  intro result
  by_cases hop : op ∈ Operator.comparisons
  · obtain ⟨b, hb⟩ := Operator.holds_ok hop order
    refine Or.inl ⟨_, .comparison hc hb, ?_⟩
    simp only [result, if_pos hop, hb]
    rfl
  · exact Or.inr ⟨fun w h => hop (ha w h), if_neg hop⟩

theorem binaryResult_eq (range : Range) (op : String) (left right : Value) :
    (∃ w, InfixMeans range op left right w ∧ binaryResult range op left right = pure w) ∨
      (∀ w, ¬ InfixMeans range op left right w) ∧ binaryResult range op left right =
        Run.error (.badBinary op left.typeName right.typeName) range := by
  unfold binaryResult
  simp only
  split
  next r x r' y =>
    by_cases hop : op ∈ Operator.arithmeticOperators
    · obtain ⟨z, hz⟩ := Operator.arithmetic_ok hop x y
      refine Or.inl ⟨_, .arithmetic hz, ?_⟩
      rw [if_pos hop, hz]
      rfl
    · rw [if_neg hop]
      refine comparison_eq .numbers ?_
      rintro w (h | ⟨-, h⟩)
      · exact absurd (mem_of_arithmetic h) hop
      · exact mem_of_holds h
  next =>
    refine comparison_eq .booleans ?_
    rintro w (_ | ⟨-, h⟩)
    exact mem_of_holds h
  next =>
    refine comparison_eq .strings ?_
    rintro w (_ | ⟨-, h⟩)
    exact mem_of_holds h
  next hn hb hs =>
    refine Or.inr ⟨?_, rfl⟩
    rintro w (h | ⟨h, -⟩)
    · exact hn _ _ _ _ rfl rfl
    · cases h with
      | numbers => exact hn _ _ _ _ rfl rfl
      | booleans => exact hb _ _ _ _ rfl rfl
      | strings => exact hs _ _ _ _ rfl rfl

theorem binaryResult_of_means {range : Range} {op : String} {left right w : Value}
    (h : InfixMeans range op left right w) :
    binaryResult range op left right = pure w ∧ w.isReturned = false := by
  cases h with
  | arithmetic hz =>
    refine ⟨?_, rfl⟩
    simp only [binaryResult, if_pos (mem_of_arithmetic hz), hz]
    rfl
  | comparison hc hb =>
    refine ⟨?_, rfl⟩
    have hop := mem_of_holds hb
    have hn : op ∉ Operator.arithmeticOperators := by
      have hapart : ∀ op ∈ Operator.comparisons, op ∉ Operator.arithmeticOperators := by decide
      exact hapart op hop
    cases hc <;>
    · simp only [binaryResult, if_neg hn, if_pos hop, hb]
      rfl

/-! ## Calls -/

/-- The first part of a call: it ends with what the body of the function comes to, unless there
is the wrong number of arguments. -/
def enterFunction (verbosity : Nat) (eval : Evaluator) (params : List Node) (body : Node)
    (captured : ScopeId) (values : List Value) (range : Range) : Run Value := do
  if values.length ≠ params.length then Run.error (.arity params.length values.length) range
  else
    Run.whenVerbose verbosity 1 do
      let names ← Run.orDefect .noName (Value.paramNames? params)
      Run.record (.call (Value.signature names) values.length range)
    let scope ← Run.addChild captured
    bindParams verbosity scope params values
    block verbosity eval scope body

/-- How a call ends, given how its body did. -/
def finish (range : Range) : Value → Run Value
  | .returned value => return value
  | _ => Run.error .missingReturn range

/-- A call is its first part, and then takes the value out of the marker that the body came to. -/
theorem callFunction_eq (verbosity : Nat) (eval : Evaluator) (params : List Node) (body : Node)
    (captured : ScopeId) (values : List Value) (range : Range) :
    callFunction verbosity eval params body captured values range =
      enterFunction verbosity eval params body captured values range >>= finish body.range := by
  unfold callFunction enterFunction
  split
  · rfl
  · simp only [bind_assoc]
    rfl

/-- A call of a body that came to no marker fails for the want of a return. -/
theorem finish_of_unmarked {v : Value} (h : v.isReturned = false) (range : Range) :
    finish range v = Run.error .missingReturn range := by
  cases v <;> first | rfl | cases h

/-- A call as an expression, where it is left open what it is to apply a function: to a range, the
parameters, the body, the scope it was made in, and the values of the arguments. -/
def callWith (apply : Range → List Node → Node → ScopeId → List Value → Run Value)
    (eval : Evaluator) (callee : Node) (args : List Node) (scope : ScopeId) : Run Value := do
  match ← eval callee scope with
  | .function r params body captured => do
    let values ← arguments eval scope args
    apply r params body captured values
  | other => Run.error (.notCallable other.typeName) callee.range

theorem expressionWith_call (verbosity : Nat) (eval : Evaluator) (range : Range) (callee : Node)
    (args : List Node) (scope : ScopeId) :
    expressionWith verbosity eval (.call range callee args) scope =
      callWith (fun _ params body captured values =>
        callFunction verbosity eval params body captured values range) eval callee args scope :=
  rfl

end Evaluation
end HangulScript
