import HangulScript.Proofs.Reading.Steps

/-!
# Reading consumes

Every expression, statement and block that is read leaves fewer tokens than it found.
This is the one fact about progress that the grammar rests on, and it is proved by
recursion on the level: a rule either consumes a token itself or hands over to a part one
level down.

## What it is for

The loops of the grammar carry a bound, one more than the number of tokens left.  A loop
whose rounds consume never uses it up, so the bound can be forgotten: `operators_eq`,
`statements_eq`, `items_eq` and `furtherItems_eq` are the equations that the loops would
have been defined by, had the definition not to be seen to end.  Everything later uses
these and never a bound.
-/

namespace HangulScript

/-- Two continuations that agree on what the first step gives can be exchanged. -/
theorem except_bind_congr {ε α β : Type} {x : Except ε α} {f g : α → Except ε β}
    (h : ∀ a, x = .ok a → f a = g a) : (x >>= f) = (x >>= g) := by
  cases x with
  | error e => rfl
  | ok a => exact h a rfl

namespace Grammar

/-- A reading that leaves fewer tokens whenever it succeeds. -/
def Consumes {α : Type} (reading : Reading α) : Prop :=
  ∀ ⦃c : Cursor⦄ ⦃a : α⦄ ⦃d : Cursor⦄, reading c = .ok (a, d) → d.remaining < c.remaining

/-- A level all of whose readings consume. -/
structure Level.Consuming (level : Level) : Prop where
  expression : ∀ minimum, Consumes (level.expression minimum)
  statement : Consumes level.statement
  block : Consumes level.block

/-- Advancing from a token of a kind that is no end of input leaves fewer tokens. -/
theorem remaining_lt_of_kind {c d : Cursor} {kind : TokenKind} (h : c.advance = .ok d)
    (hk : c.current.kind = kind) (he : kind ≠ .endOfInput) : d.remaining < c.remaining :=
  Cursor.remaining_advance_lt h (hk ▸ he)

/-! ## Lists -/

theorem remaining_moreItems_le {item : Reading Node} (hi : Consumes item) {bound : Nat}
    {c d : Cursor} {ns : List Node} (h : moreItems item bound c = .ok (ns, d)) :
    d.remaining ≤ c.remaining := by
  induction bound generalizing c ns with
  | zero => cases h
  | succ bound ih =>
    rcases moreItems_succ_eq_ok.mp h with ⟨-, he⟩ | ⟨hk, further, n, between, ms, last, ha, hn, hm, he⟩
    · cases he
      exact Nat.le_refl _
    · cases he
      have h₁ := remaining_lt_of_kind ha hk (by decide)
      have h₂ := hi hn
      have h₃ := ih hm
      omega

theorem remaining_items_le {item : Reading Node} (hi : Consumes item) {c d : Cursor}
    {ns : List Node} (h : items item c = .ok (ns, d)) : d.remaining ≤ c.remaining := by
  rcases items_eq_ok.mp h with ⟨-, he⟩ | ⟨-, n, between, ms, last, hn, hm, he⟩
  · cases he
    exact Nat.le_refl _
  · cases he
    have h₁ := hi hn
    have h₂ := remaining_moreItems_le hi hm
    omega

theorem remaining_statementsUpTo_le {down : Level} (hd : Consumes down.statement)
    {terminator : TokenKind} {bound : Nat} {c d : Cursor} {ns : List Node}
    (h : statementsUpTo down terminator bound c = .ok (ns, d)) : d.remaining ≤ c.remaining := by
  induction bound generalizing c ns with
  | zero => cases h
  | succ bound ih =>
    rcases statementsUpTo_succ_eq_ok.mp h with ⟨-, he⟩ | ⟨-, -, n, between, ms, last, hn, hm, he⟩
    · cases he
      exact Nat.le_refl _
    · cases he
      have h₁ := hd hn
      have h₂ := ih hm
      omega

/-! ## The rules -/

theorem consumes_parameter : Consumes parameter := by
  intro c n d h
  obtain ⟨hk, last, ha, he⟩ := parameter_eq_ok.mp h
  cases he
  exact remaining_lt_of_kind ha hk (by decide)

section Rules

variable {down : Level} (hd : down.Consuming)
include hd

theorem consumes_block : Consumes (block down) := by
  intro c n d h
  obtain ⟨hk, inside, ns, closing, last, ha, hs, hc, hl, he⟩ := block_eq_ok.mp h
  cases he
  have h₁ := remaining_lt_of_kind ha hk (by decide)
  have h₂ := remaining_statementsUpTo_le hd.statement hs
  have h₃ := remaining_lt_of_kind hl hc (by decide)
  omega

theorem consumes_returnStatement : Consumes (returnStatement down) := by
  intro c n d h
  obtain ⟨hk, further, e, last, ha, hx, he⟩ := returnStatement_eq_ok.mp h
  cases he
  have h₁ := remaining_lt_of_kind ha hk (by decide)
  have h₂ := hd.expression 0 hx
  omega

theorem consumes_branch : Consumes (branch down) := by
  intro c n d h
  obtain ⟨hk, further, p, before, q, behind, ha, hp, hq, hr⟩ := branch_eq_ok.mp h
  have h₁ := remaining_lt_of_kind ha hk (by decide)
  have h₂ := hd.expression 0 hp
  have h₃ := hd.block hq
  rcases hr with ⟨-, he⟩ | ⟨hl, opening, r, last, ho, hb, he⟩
  · cases he
    omega
  · cases he
    have h₄ := remaining_lt_of_kind ho hl (by decide)
    have h₅ := hd.block hb
    omega

theorem consumes_statement : Consumes (statement down) := by
  intro c n d h
  rcases statement_eq_ok.mp h with ⟨-, hr⟩ | ⟨-, hb⟩ | ⟨-, -, e, last, hx, he⟩
  · exact consumes_returnStatement hd hr
  · exact consumes_branch hd hb
  · cases he
    exact hd.expression 0 hx

theorem consumes_function : Consumes (function down) := by
  intro c n d h
  obtain ⟨hk, opening, inside, ps, closing, behind, b, last, ha, ho, hi, hp, hc, hl, hb, he⟩ :=
    function_eq_ok.mp h
  cases he
  have h₁ := remaining_lt_of_kind ha hk (by decide)
  have h₂ := remaining_lt_of_kind hi ho (by decide)
  have h₃ := remaining_items_le consumes_parameter hp
  have h₄ := remaining_lt_of_kind hl hc (by decide)
  have h₅ := hd.block hb
  omega

theorem consumes_call (callee : Node) : Consumes (call down callee) := by
  intro c n d h
  obtain ⟨hk, inside, ns, closing, last, ha, hi, hc, hl, he⟩ := call_eq_ok.mp h
  cases he
  have h₁ := remaining_lt_of_kind ha hk (by decide)
  have h₂ := remaining_items_le (hd.expression 0) hi
  have h₃ := remaining_lt_of_kind hl hc (by decide)
  omega

theorem consumes_grouping : Consumes (grouping down) := by
  intro c n d h
  obtain ⟨hk, inside, e, closing, last, ha, hx, hc, hl, he⟩ := grouping_eq_ok.mp h
  cases he
  have h₁ := remaining_lt_of_kind ha hk (by decide)
  have h₂ := hd.expression 0 hx
  have h₃ := remaining_lt_of_kind hl hc (by decide)
  omega

theorem remaining_unary_lt {c d : Cursor} {n : Node} (h : unary down c = .ok (n, d))
    (hk : c.current.kind ≠ .endOfInput) : d.remaining < c.remaining := by
  obtain ⟨further, e, last, ha, hx, he⟩ := unary_eq_ok.mp h
  cases he
  have h₁ := Cursor.remaining_advance_lt ha hk
  have h₂ := hd.expression unaryPower hx
  omega

omit hd in
theorem remaining_literal_lt {node : Node} {c d : Cursor} {n : Node}
    (h : literal node c = .ok (n, d)) (hk : c.current.kind ≠ .endOfInput) :
    d.remaining < c.remaining := by
  obtain ⟨last, ha, he⟩ := literal_eq_ok.mp h
  cases he
  exact Cursor.remaining_advance_lt ha hk

omit hd in
theorem remaining_numeral_lt {c d : Cursor} {n : Node} (h : numeral c = .ok (n, d))
    (hk : c.current.kind ≠ .endOfInput) : d.remaining < c.remaining := by
  obtain ⟨last, v, ha, -, he⟩ := numeral_eq_ok.mp h
  cases he
  exact Cursor.remaining_advance_lt ha hk

theorem consumes_operand : Consumes (operand down) := by
  intro c n d h
  have hk : c.current.kind ≠ .endOfInput := by
    intro hk
    simp only [operand, hk] at h
    cases h
  simp only [operand] at h
  split at h
  · exact remaining_unary_lt hd h hk
  · exact remaining_unary_lt hd h hk
  · exact remaining_unary_lt hd h hk
  · exact remaining_numeral_lt h hk
  · exact remaining_literal_lt h hk
  · exact remaining_literal_lt h hk
  · exact remaining_literal_lt h hk
  · exact remaining_literal_lt h hk
  · exact consumes_function hd h
  · exact consumes_grouping hd h
  · cases h

theorem remaining_operatorLoop_le {minimum : Int} {bound : Nat} {left n : Node} {c d : Cursor}
    (h : operatorLoop down minimum bound left c = .ok (n, d)) : d.remaining ≤ c.remaining := by
  induction bound generalizing c left with
  | zero => cases h
  | succ bound ih =>
    rcases operatorLoop_succ_eq_ok.mp h with ⟨-, whole, further, hc, hl⟩ |
      ⟨-, ⟨-, he⟩ | ⟨power, grouping, hb, ⟨-, he⟩ | ⟨-, further, right, behind, ha, hx, hl⟩⟩⟩
    · have h₁ := consumes_call hd left hc
      have h₂ := ih hl
      omega
    · cases he
      exact Nat.le_refl _
    · cases he
      exact Nat.le_refl _
    · have h₁ := Cursor.remaining_advance_le ha
      have h₂ := hd.expression _ hx
      have h₃ := ih hl
      omega

theorem consumes_expression (minimum : Int) : Consumes (expression down minimum) := by
  intro c n d h
  obtain ⟨left, further, ho, hl⟩ := expression_eq_ok.mp h
  have h₁ := consumes_operand hd ho
  have h₂ := remaining_operatorLoop_le hd hl
  omega

end Rules

/-- **Every level consumes.** -/
theorem consuming_levels (limit : Nat) : (levels limit).Consuming := by
  induction limit with
  | zero =>
    refine ⟨?_, ?_, ?_⟩
    · intro minimum c n d h
      cases h
    · intro c n d h
      cases h
    · intro c n d h
      cases h
  | succ limit ih =>
    exact ⟨fun minimum => consumes_expression ih minimum, consumes_statement ih, consumes_block ih⟩

/-! ## The loops without their bounds -/

theorem moreItems_congr {item : Reading Node} (hi : Consumes item) (bound bound' : Nat)
    (c : Cursor) (hb : c.remaining < bound) (hb' : c.remaining < bound') :
    moreItems item bound c = moreItems item bound' c := by
  induction bound generalizing bound' c with
  | zero => omega
  | succ bound ih =>
    obtain ⟨bound', rfl⟩ : ∃ k, bound' = k + 1 := ⟨bound' - 1, by omega⟩
    simp only [moreItems]
    split
    · refine except_bind_congr fun r hr => except_bind_congr fun s hs => ?_
      obtain ⟨hk, -, ha⟩ := Cursor.consume_eq_ok.mp hr
      have h₁ := remaining_lt_of_kind ha hk (by decide)
      have h₂ := hi hs
      rw [ih bound' _ (by omega) (by omega)]
    · rfl

theorem statementsUpTo_congr {down : Level} (hd : Consumes down.statement)
    {terminator : TokenKind} (bound bound' : Nat) (c : Cursor) (hb : c.remaining < bound)
    (hb' : c.remaining < bound') :
    statementsUpTo down terminator bound c = statementsUpTo down terminator bound' c := by
  induction bound generalizing bound' c with
  | zero => omega
  | succ bound ih =>
    obtain ⟨bound', rfl⟩ : ∃ k, bound' = k + 1 := ⟨bound' - 1, by omega⟩
    simp only [statementsUpTo]
    split
    · rfl
    · split
      · rfl
      · refine except_bind_congr fun r hr => ?_
        have h₁ := hd hr
        rw [ih bound' _ (by omega) (by omega)]

theorem operatorLoop_congr {down : Level} (hd : down.Consuming) {minimum : Int}
    (bound bound' : Nat) (left : Node) (c : Cursor) (hb : c.remaining < bound)
    (hb' : c.remaining < bound') :
    operatorLoop down minimum bound left c = operatorLoop down minimum bound' left c := by
  induction bound generalizing bound' c left with
  | zero => omega
  | succ bound ih =>
    obtain ⟨bound', rfl⟩ : ∃ k, bound' = k + 1 := ⟨bound' - 1, by omega⟩
    simp only [operatorLoop]
    split
    · refine except_bind_congr fun r hr => ?_
      have h₁ := consumes_call hd left hr
      rw [ih bound' _ _ (by omega) (by omega)]
    · split
      · rfl
      · split
        · rfl
        · refine except_bind_congr fun r hr => except_bind_congr fun s hs => ?_
          have h₁ := Cursor.remaining_advance_le hr
          have h₂ := hd.expression _ hs
          rw [ih bound' _ _ (by omega) (by omega)]

/-- The further items of a list, without a bound. -/
def furtherItems (item : Reading Node) : Reading (List Node) := fun c =>
  moreItems item (c.remaining + 1) c

/-- A list is empty, or an item and further items. -/
theorem items_eq (item : Reading Node) (c : Cursor) :
    items item c =
      if c.holds .rightParenthesis then .ok ([], c)
      else do
        let (first, c) ← item c
        let (others, c) ← furtherItems item c
        return (first :: others, c) := rfl

/-- Further items begin with a comma, or there are none. -/
theorem furtherItems_eq {item : Reading Node} (hi : Consumes item) (c : Cursor) :
    furtherItems item c =
      if c.holds .comma then do
        let (_, c) ← c.consume .comma
        let (first, c) ← item c
        let (others, c) ← furtherItems item c
        return (first :: others, c)
      else .ok ([], c) := by
  simp only [furtherItems]
  rw [moreItems]
  split
  · refine except_bind_congr ?_
    rintro ⟨t, d⟩ hr
    refine except_bind_congr ?_
    rintro ⟨n, e⟩ hs
    obtain ⟨hk, -, ha⟩ := Cursor.consume_eq_ok.mp hr
    have h₁ : d.remaining < c.remaining := remaining_lt_of_kind ha hk (by decide)
    have h₂ := hi hs
    simp only [moreItems_congr hi c.remaining (e.remaining + 1) e (by omega) (by omega)]
  · rfl

/-- Statements end at the terminator, and go on before any other token but the end of
input. -/
theorem statements_eq {down : Level} (hd : Consumes down.statement) (terminator : TokenKind)
    (c : Cursor) :
    statements down terminator c =
      if c.holds terminator then .ok ([], c)
      else if c.holds .endOfInput then .error (.error (Error.mismatchedToken terminator c.current))
      else do
        let (first, c) ← down.statement c
        let (others, c) ← statements down terminator c
        return (first :: others, c) := by
  simp only [statements]
  rw [statementsUpTo]
  split
  · rfl
  · split
    · rfl
    · refine except_bind_congr ?_
      rintro ⟨n, d⟩ hr
      have h₁ := hd hr
      simp only [statementsUpTo_congr hd c.remaining (d.remaining + 1) d (by omega) (by omega)]

/-- The operator loop takes a call, an operator that binds more tightly than the minimum,
or nothing. -/
theorem operators_eq {down : Level} (hd : down.Consuming) (minimum : Int) (left : Node)
    (c : Cursor) :
    operators down minimum left c =
      if c.holds .leftParenthesis ∧ minimum < callPower then do
        let (whole, c) ← call down left c
        operators down minimum whole c
      else
        (match binding? c.current.kind with
          | none => .ok (left, c)
          | some (power, grouping) =>
            if power ≤ minimum then .ok (left, c)
            else do
              let further ← c.advance
              let (right, d) ← down.expression (rightMinimum power grouping) further
              operators down minimum (joined c.current left right) d) := by
  simp only [operators]
  rw [operatorLoop]
  split
  · refine except_bind_congr ?_
    rintro ⟨n, d⟩ hr
    have h₁ := consumes_call hd left hr
    simp only [operatorLoop_congr hd c.remaining (d.remaining + 1) n d (by omega) (by omega)]
  · cases hb : binding? c.current.kind with
    | none => rfl
    | some op =>
      simp only
      split
      · rfl
      · refine except_bind_congr fun further hr => except_bind_congr ?_
        rintro ⟨n, d⟩ hs
        have h₁ := Cursor.remaining_advance_le hr
        have h₂ := hd.expression _ hs
        simp only [operatorLoop_congr hd c.remaining (d.remaining + 1) (joined c.current left n) d
          (by omega) (by omega)]

end Grammar
end HangulScript
