import HangulScript.Tree.Grammar

/-!
# What each reading does when it succeeds

A part of a tree is read by a short sequence of steps: consume a token of a known kind,
read a smaller part, build a node.  Every rule of the grammar is inverted here, once: it
succeeds *exactly* when its steps do, one after the other, and the node is the one stated.
Whatever is proved about reading afterwards, in either direction, goes through these
equivalences and opens no rule again.

The loops are inverted one round at a time.  Their bound is still visible here; that it is
never reached is the subject of `HangulScript.Proofs.Reading.Consumption`.
-/

namespace HangulScript

/-- Two steps succeed when the first does and the second does on what the first gave. -/
theorem except_bind_eq_ok {ε α β : Type} {x : Except ε α} {f : α → Except ε β} {b : β} :
    (x >>= f) = .ok b ↔ ∃ a, x = .ok a ∧ f a = .ok b := by
  cases x <;> simp [bind, Except.bind]

theorem except_eq_ok_of_toOption {ε α : Type} {x : Except ε α} {a : α}
    (h : x.toOption = some a) : x = .ok a := by
  cases x <;> cases h
  rfl

namespace Cursor

theorem holds_iff {c : Cursor} {kind : TokenKind} : c.holds kind = true ↔ c.current.kind = kind := by
  simp [holds]

/-- A token is consumed when it is of the kind and there is a token behind it. -/
theorem consume_eq_ok {kind : TokenKind} {c : Cursor} {r : Token × Cursor} :
    c.consume kind = .ok r ↔ c.current.kind = kind ∧ r.1 = c.current ∧ c.advance = .ok r.2 := by
  obtain ⟨t, d⟩ := r
  by_cases h : c.current.kind = kind
  · simp only [consume, h, if_true, true_and, except_bind_eq_ok, pure, Except.pure,
      Except.ok.injEq, Prod.mk.injEq]
    constructor
    · rintro ⟨e, he, rfl, rfl⟩
      exact ⟨rfl, he⟩
    · rintro ⟨rfl, he⟩
      exact ⟨d, he, rfl, rfl⟩
  · simp [consume, h]

end Cursor

namespace Grammar

variable {down : Level} {c : Cursor}

/-! ## Lists -/

/-- A further item is there exactly when a comma is in hand. -/
theorem moreItems_succ_eq_ok {item : Reading Node} {bound : Nat} {r : List Node × Cursor} :
    moreItems item (bound + 1) c = .ok r ↔
      (c.current.kind ≠ .comma ∧ ([], c) = r) ∨
      (c.current.kind = .comma ∧ ∃ further first between others last,
        c.advance = .ok further ∧ item further = .ok (first, between) ∧
          moreItems item bound between = .ok (others, last) ∧ (first :: others, last) = r) := by
  by_cases h : c.current.kind = .comma
  · simp [moreItems, Cursor.holds, h, except_bind_eq_ok, Cursor.consume_eq_ok, pure,
      Except.pure, and_assoc]
  · simp [moreItems, Cursor.holds, h]

/-- No item is there exactly when the closing parenthesis is in hand. -/
theorem items_eq_ok {item : Reading Node} {r : List Node × Cursor} :
    items item c = .ok r ↔
      (c.current.kind = .rightParenthesis ∧ ([], c) = r) ∨
      (c.current.kind ≠ .rightParenthesis ∧ ∃ first between others last,
        item c = .ok (first, between) ∧
          moreItems item (between.remaining + 1) between = .ok (others, last) ∧
          (first :: others, last) = r) := by
  by_cases h : c.current.kind = .rightParenthesis
  · simp [items, Cursor.holds, h]
  · simp [items, Cursor.holds, h, except_bind_eq_ok, pure, Except.pure]

/-- A further statement is there exactly when neither the terminator nor the end of input
is in hand. -/
theorem statementsUpTo_succ_eq_ok {terminator : TokenKind} {bound : Nat}
    {r : List Node × Cursor} :
    statementsUpTo down terminator (bound + 1) c = .ok r ↔
      (c.current.kind = terminator ∧ ([], c) = r) ∨
      (c.current.kind ≠ terminator ∧ c.current.kind ≠ .endOfInput ∧
        ∃ first between others last, down.statement c = .ok (first, between) ∧
          statementsUpTo down terminator bound between = .ok (others, last) ∧
          (first :: others, last) = r) := by
  by_cases h : c.current.kind = terminator
  · simp [statementsUpTo, Cursor.holds, h]
  · by_cases he : c.current.kind = .endOfInput
    · have ht : ¬ TokenKind.endOfInput = terminator := he ▸ h
      simp [statementsUpTo, Cursor.holds, he, ht]
    · simp [statementsUpTo, Cursor.holds, h, he, except_bind_eq_ok, pure, Except.pure]

/-! ## Blocks and statements -/

theorem block_eq_ok {r : Node × Cursor} :
    block down c = .ok r ↔
      c.current.kind = .leftBrace ∧ ∃ inside inner closing last, c.advance = .ok inside ∧
        statements down .rightBrace inside = .ok (inner, closing) ∧
        closing.current.kind = .rightBrace ∧ closing.advance = .ok last ∧
        (.block (c.current.range.span closing.current.range) inner, last) = r := by
  simp [block, except_bind_eq_ok, Cursor.consume_eq_ok, pure, Except.pure, and_assoc]

theorem returnStatement_eq_ok {r : Node × Cursor} :
    returnStatement down c = .ok r ↔
      c.current.kind = .returnKeyword ∧ ∃ further e last, c.advance = .ok further ∧
        down.expression 0 further = .ok (e, last) ∧
        (.returnStatement (c.current.range.span e.range) e, last) = r := by
  simp [returnStatement, except_bind_eq_ok, Cursor.consume_eq_ok, pure, Except.pure, and_assoc]

theorem branch_eq_ok {r : Node × Cursor} :
    branch down c = .ok r ↔
      c.current.kind = .ifKeyword ∧ ∃ further predicate before consequence behind,
        c.advance = .ok further ∧ down.expression 0 further = .ok (predicate, before) ∧
        down.block before = .ok (consequence, behind) ∧
        ((behind.current.kind ≠ .elseKeyword ∧
            (.branch (c.current.range.span consequence.range) predicate consequence .absent,
              behind) = r) ∨
          (behind.current.kind = .elseKeyword ∧ ∃ opening alternative last,
            behind.advance = .ok opening ∧ down.block opening = .ok (alternative, last) ∧
            (.branch (c.current.range.span alternative.range) predicate consequence
              alternative, last) = r)) := by
  simp only [branch, except_bind_eq_ok, Cursor.consume_eq_ok, Prod.exists, pure, Except.pure]
  constructor
  · rintro ⟨_, further, ⟨h, rfl, ha⟩, predicate, before, hp, consequence, behind, hc, hr⟩
    refine ⟨h, further, predicate, before, consequence, behind, ha, hp, hc, ?_⟩
    by_cases he : behind.current.kind = .elseKeyword
    · rw [if_pos (Cursor.holds_iff.mpr he)] at hr
      simp only [except_bind_eq_ok, Cursor.consume_eq_ok, Prod.exists, Except.ok.injEq] at hr
      obtain ⟨_, opening, ⟨-, -, ho⟩, alternative, last, hb, rfl⟩ := hr
      exact Or.inr ⟨he, opening, alternative, last, ho, hb, rfl⟩
    · rw [if_neg (fun hh => he (Cursor.holds_iff.mp hh))] at hr
      exact Or.inl ⟨he, Except.ok.inj hr⟩
  · rintro ⟨h, further, predicate, before, consequence, behind, ha, hp, hc, hr⟩
    refine ⟨c.current, further, ⟨h, rfl, ha⟩, predicate, before, hp, consequence, behind, hc, ?_⟩
    rcases hr with ⟨he, rfl⟩ | ⟨he, opening, alternative, last, ho, hb, rfl⟩
    · rw [if_neg (fun hh => he (Cursor.holds_iff.mp hh))]
    · rw [if_pos (Cursor.holds_iff.mpr he)]
      simp only [except_bind_eq_ok, Cursor.consume_eq_ok, Prod.exists, Except.ok.injEq]
      exact ⟨behind.current, opening, ⟨he, rfl, ho⟩, alternative, last, hb, rfl⟩

/-- The token in hand decides which statement is read. -/
theorem statement_eq_ok {r : Node × Cursor} :
    statement down c = .ok r ↔
      (c.current.kind = .returnKeyword ∧ returnStatement down c = .ok r) ∨
      (c.current.kind = .ifKeyword ∧ branch down c = .ok r) ∨
      (c.current.kind ≠ .returnKeyword ∧ c.current.kind ≠ .ifKeyword ∧
        ∃ e last, down.expression 0 c = .ok (e, last) ∧
          (.expressionStatement e.range e, last) = r) := by
  by_cases hr : c.current.kind = .returnKeyword
  · simp [statement, Cursor.holds, hr]
  · by_cases hi : c.current.kind = .ifKeyword
    · simp [statement, Cursor.holds, hi]
    · simp [statement, Cursor.holds, hr, hi, except_bind_eq_ok, pure, Except.pure]

/-! ## Expressions -/

theorem parameter_eq_ok {r : Node × Cursor} :
    parameter c = .ok r ↔
      c.current.kind = .identifier ∧ ∃ last, c.advance = .ok last ∧
        (.identifier c.current.range c.current.text, last) = r := by
  simp [parameter, except_bind_eq_ok, Cursor.consume_eq_ok, pure, Except.pure, and_assoc]

theorem function_eq_ok {r : Node × Cursor} :
    function down c = .ok r ↔
      c.current.kind = .functionKeyword ∧ ∃ opening inside params closing behind body last,
        c.advance = .ok opening ∧
        opening.current.kind = .leftParenthesis ∧ opening.advance = .ok inside ∧
        items parameter inside = .ok (params, closing) ∧
        closing.current.kind = .rightParenthesis ∧ closing.advance = .ok behind ∧
        down.block behind = .ok (body, last) ∧
        (.function (c.current.range.span body.range) params body, last) = r := by
  simp [function, except_bind_eq_ok, Cursor.consume_eq_ok, pure, Except.pure, and_assoc]

theorem call_eq_ok {callee : Node} {r : Node × Cursor} :
    call down callee c = .ok r ↔
      c.current.kind = .leftParenthesis ∧ ∃ inside args closing last, c.advance = .ok inside ∧
        items (down.expression 0) inside = .ok (args, closing) ∧
        closing.current.kind = .rightParenthesis ∧ closing.advance = .ok last ∧
        (.call (callee.range.span closing.current.range) callee args, last) = r := by
  simp [call, except_bind_eq_ok, Cursor.consume_eq_ok, pure, Except.pure, and_assoc]

theorem grouping_eq_ok {r : Node × Cursor} :
    grouping down c = .ok r ↔
      c.current.kind = .leftParenthesis ∧ ∃ inside inner closing last, c.advance = .ok inside ∧
        down.expression 0 inside = .ok (inner, closing) ∧
        closing.current.kind = .rightParenthesis ∧ closing.advance = .ok last ∧
        (inner.withRange (c.current.range.span closing.current.range), last) = r := by
  simp [grouping, except_bind_eq_ok, Cursor.consume_eq_ok, pure, Except.pure, and_assoc]

theorem unary_eq_ok {r : Node × Cursor} :
    unary down c = .ok r ↔
      ∃ further operand last, c.advance = .ok further ∧
        down.expression unaryPower further = .ok (operand, last) ∧
        (.unary (c.current.range.span operand.range) c.current.text operand, last) = r := by
  simp [unary, except_bind_eq_ok, pure, Except.pure]

theorem literal_eq_ok {node : Node} {r : Node × Cursor} :
    literal node c = .ok r ↔ ∃ last, c.advance = .ok last ∧ (node, last) = r := by
  simp [literal, except_bind_eq_ok, pure, Except.pure]

theorem numeral_eq_ok {r : Node × Cursor} :
    numeral c = .ok r ↔ ∃ last value, c.advance = .ok last ∧
      Numeral.value? c.current.text.toList = some value ∧
      (.number c.current.range value, last) = r := by
  cases hv : Numeral.value? c.current.text.toList <;>
    simp [numeral, hv, except_bind_eq_ok, pure, Except.pure]

/-- A round of the operator loop calls, joins or stops. -/
theorem operatorLoop_succ_eq_ok {minimum : Int} {bound : Nat} {left : Node}
    {r : Node × Cursor} :
    operatorLoop down minimum (bound + 1) left c = .ok r ↔
      ((c.current.kind = .leftParenthesis ∧ minimum < callPower) ∧
        ∃ whole further, call down left c = .ok (whole, further) ∧
          operatorLoop down minimum bound whole further = .ok r) ∨
      (¬ (c.current.kind = .leftParenthesis ∧ minimum < callPower) ∧
        ((binding? c.current.kind = none ∧ (left, c) = r) ∨
          ∃ power grouping, binding? c.current.kind = some (power, grouping) ∧
            ((power ≤ minimum ∧ (left, c) = r) ∨
              (minimum < power ∧ ∃ further right behind, c.advance = .ok further ∧
                down.expression (rightMinimum power grouping) further = .ok (right, behind) ∧
                operatorLoop down minimum bound (joined c.current left right) behind =
                  .ok r)))) := by
  by_cases h : c.current.kind = .leftParenthesis ∧ minimum < callPower
  · simp [operatorLoop, Cursor.holds, h, except_bind_eq_ok]
  · cases hb : binding? c.current.kind with
    | none => simp [operatorLoop, Cursor.holds, h, hb]
    | some op =>
      obtain ⟨power, grouping⟩ := op
      by_cases hp : power ≤ minimum
      · have hn : ¬ minimum < power := Int.not_lt.mpr hp
        simp [operatorLoop, Cursor.holds, h, hb, hp, hn, and_assoc]
      · have hn : minimum < power := Int.not_le.mp hp
        simp [operatorLoop, Cursor.holds, h, hb, hp, hn, except_bind_eq_ok, and_assoc]

theorem expression_eq_ok {minimum : Int} {r : Node × Cursor} :
    expression down minimum c = .ok r ↔
      ∃ left further, operand down c = .ok (left, further) ∧
        operators down minimum left further = .ok r := by
  simp [expression, except_bind_eq_ok]

end Grammar
end HangulScript
