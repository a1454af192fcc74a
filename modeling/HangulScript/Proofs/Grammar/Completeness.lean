import HangulScript.Proofs.Grammar.Powers
import HangulScript.Proofs.Reading.Passage

/-!
# What is derived is read

If tokens derive a phrase in the stratified grammar, and what stands behind them may follow
that phrase, then the reading of the phrase, started at the first of them, passes exactly
these tokens and gives the tree of the derivation.

For expressions this cannot be said of the reading alone, because an operand on the left is
not read on its own: the operator loop holds it and goes on.  What is said instead is that
reading the whole comes to the *same as going on with the loop*, the tree of the derivation
on the left and the cursor behind its tokens.  The minimum stays open, so that the statement
for an operand serves for the whole expression around it.

Each rule of the grammar has a lemma (`readBy_call`, `readBy_branch` and so on), which takes the
tokens of the phrase apart and puts together how its parts are read.  The induction only chains
these (`Derives.readBy`).
-/

namespace HangulScript
namespace Grammar

/-! ## Readings of phrases -/

/-- A token that begins a statement stops an expression, unless the expression takes it. -/
theorem stops_of_starter {kind : TokenKind} (h : kind ∈ statementStarters) (hj : kind ∉ joiners) :
    Stops 0 kind := by
  have hs : ∀ k ∈ statementStarters, k ∉ joiners → Stops 0 k := by decide
  exact hs kind h hj

/-- How an item of a list is read. -/
def Item.reading : Item → Level → Reading Node
  | argument, level => level.expression 0
  | parameter, _ => Grammar.parameter

theorem consumes_item (sort : Item) (depth : Nat) : Consumes (sort.reading (levels depth)) := by
  cases sort with
  | argument => exact (consuming_levels depth).expression 0
  | parameter => exact consumes_parameter

/-- A token of this kind may follow a phrase. -/
def Phrase.Admits : Phrase → TokenKind → Prop
  | .expression s _, kind => s.Admits kind
  | .items .., kind | .furtherItems .., kind => kind = .rightParenthesis
  | .statement n, kind => (endsInExpression n = true → Stops 0 kind) ∧ kind ≠ .elseKeyword
  | .statements _, kind => kind = .endOfInput ∨ kind = .rightBrace
  | _, _ => True

/-- Reading a phrase leads from one cursor to another. -/
def Phrase.LeadsTo (depth : Nat) : Phrase → Cursor → Cursor → Prop
  | .expression s n, c, d => ∀ minimum, floor minimum ≤ s → minimum < callPower →
      (levels depth).expression minimum c = operators (levels (depth - 1)) minimum n d
  | .parameter n, c, d => Grammar.parameter c = .ok (n, d)
  | .items sort ns, c, d => Grammar.items (sort.reading (levels depth)) c = .ok (ns, d)
  | .furtherItems sort ns, c, d =>
      Grammar.furtherItems (sort.reading (levels depth)) c = .ok (ns, d)
  | .block n, c, d => (levels depth).block c = .ok (n, d)
  | .statement n, c, d => (levels depth).statement c = .ok (n, d)
  | .statements ns, c, d =>
      Grammar.statements (levels depth) d.current.kind c = .ok (ns, d)
  | .program _, _, _ => True

/-- An operand hands over to the operator loop. -/
theorem expression_of_operand {down : Level} {minimum : Int} {n : Node} {c d : Cursor}
    (h : operand down c = .ok (n, d)) : expression down minimum c = operators down minimum n d := by
  simp only [expression, h]
  rfl

/-- An expression is read to its end when what follows stops the loop. -/
theorem leads_expression (minimum : Int) {depth : Nat} {s : Stratum} {n : Node} {c d : Cursor}
    (h : (Phrase.expression s n).LeadsTo depth c d) (hs : floor minimum ≤ s)
    (hm : minimum < callPower) (hd : Stops minimum d.current.kind) :
    (levels depth).expression minimum c = .ok (n, d) := by
  rw [h minimum hs hm, operators_of_stops hd]

/-- An item of a list is read to its end before a comma or a closing parenthesis. -/
theorem leads_item {depth : Nat} {sort : Item} {n : Node} {c d : Cursor}
    (h : (sort.phrase n).LeadsTo depth c d)
    (hd : d.current.kind = .comma ∨ d.current.kind = .rightParenthesis) :
    sort.reading (levels depth) c = .ok (n, d) := by
  cases sort with
  | argument =>
    refine leads_expression 0 h (Stratum.le_refl _) (by decide) ?_
    rcases hd with hd | hd <;> rw [hd] <;> decide
  | parameter => exact h

theorem admits_item {sort : Item} {n : Node} {kind : TokenKind}
    (hk : kind = .comma ∨ kind = .rightParenthesis) : (sort.phrase n).Admits kind := by
  cases sort with
  | argument =>
    show Stratum.assignment.Admits kind
    rcases hk with rfl | rfl <;> decide
  | parameter => trivial

/-! ## The rounds of the operator loop -/

/-- A call is taken whatever was asked for, as long as that is below a call. -/
theorem operators_call {depth : Nat} {minimum : Int} {callee : Node} {args : List Node}
    {c inside closing d : Cursor} (hk : c.current.kind = .leftParenthesis)
    (hm : minimum < callPower) (ha : c.advance = .ok inside)
    (hi : items ((levels depth).expression 0) inside = .ok (args, closing))
    (hc : closing.current.kind = .rightParenthesis) (hl : closing.advance = .ok d) :
    operators (levels depth) minimum callee c =
      operators (levels depth) minimum
        (.call (callee.range.span closing.current.range) callee args) d := by
  have hcall : call (levels depth) callee c =
      .ok (.call (callee.range.span closing.current.range) callee args, d) :=
    call_eq_ok.mpr ⟨hk, inside, args, closing, d, ha, hi, hc, hl, rfl⟩
  rw [operators_eq (consuming_levels depth), if_pos ⟨Cursor.holds_iff.mpr hk, hm⟩, hcall]
  rfl

theorem admits_of_tier {kind : TokenKind} {tier : Tier} (h : tier? kind = some tier) :
    tier.left.Admits kind := by
  refine ⟨?_, ?_⟩
  · rintro rfl
    cases h
  · intro t ht
    rw [h] at ht
    cases ht
    exact Stratum.le_refl _

/-- An operator is taken when its power is above the minimum. -/
theorem operators_join {depth : Nat} {minimum power : Int} {grouping : Grouping}
    {left right : Node} {c further d : Cursor}
    (hb : binding? c.current.kind = some (power, grouping)) (hm : minimum < power)
    (ha : c.advance = .ok further)
    (hx : (levels depth).expression (rightMinimum power grouping) further = .ok (right, d)) :
    operators (levels depth) minimum left c =
      operators (levels depth) minimum (joined c.current left right) d := by
  have hc : ¬ (c.holds .leftParenthesis = true ∧ minimum < callPower) := by
    rintro ⟨hk, -⟩
    rw [Cursor.holds_iff.mp hk] at hb
    cases hb
  rw [operators_eq (consuming_levels depth), if_neg hc, hb]
  simp only [if_neg (Int.not_le.mpr hm), ha, hx, bind, Except.bind]

theorem operand_unary {down : Level} {n : Node} {c further d : Cursor}
    (hk : isUnary c.current.kind = true) (ha : c.advance = .ok further)
    (hx : down.expression unaryPower further = .ok (n, d)) :
    operand down c =
      .ok (.unary (c.current.range.span n.range) c.current.text n, d) := by
  have hu : unary down c = .ok (.unary (c.current.range.span n.range) c.current.text n, d) :=
    unary_eq_ok.mpr ⟨further, n, d, ha, hx, rfl⟩
  rw [← hu]
  cases hc : c.current.kind <;> rw [hc] at hk
  case plus | minus | bang => simp only [operand, hc]
  all_goals cases hk

/-! ## Between phrases -/

section Between

variable {depth : Nat} {c m d : Cursor} {n : Node} {ts us : List Token}

theorem kind_of_expression {s : Stratum} (h : Derives depth (.expression s n) ts)
    (hp : c.Passes ts d) : c.current.kind ∈ expressionStarters := by
  obtain ⟨t, rest, rfl, ht⟩ := h.beginsWell
  rwa [hp.current_eq]

theorem kind_of_statement (h : Derives depth (.statement n) ts) (hp : c.Passes ts d) :
    c.current.kind ∈ statementStarters := by
  obtain ⟨t, rest, rfl, ht⟩ := h.beginsWell
  rwa [hp.current_eq]

theorem kind_of_item {sort : Item} (h : Derives depth (sort.phrase n) ts) (hp : c.Passes ts d) :
    c.current.kind ∈ expressionStarters := by
  cases sort with
  | argument => exact kind_of_expression h hp
  | parameter =>
    cases h with
    | parameter hk =>
      rw [hp.current_eq, hk]
      decide

theorem kind_of_block (h : Derives depth (.block n) ts) (hp : c.Passes ts d) :
    c.current.kind = .leftBrace := by
  cases h with
  | block ho _ _ => rw [hp.current_eq, ho]

theorem kind_of_furtherItems {sort : Item} {ns : List Node}
    (h : Derives depth (.furtherItems sort ns) ts) (hp : c.Passes ts d)
    (hd : d.current.kind = .rightParenthesis) :
    c.current.kind = .comma ∨ c.current.kind = .rightParenthesis := by
  cases h with
  | lastItem =>
    obtain rfl := hp
    exact Or.inr hd
  | furtherItem hk _ _ => exact Or.inl (hp.current_eq ▸ hk)

/-- A block stands behind any expression. -/
theorem admits_before_block {s : Stratum} (hm : m.current.kind = .leftBrace) :
    (Phrase.expression s n).Admits m.current.kind := by
  show s.Admits _
  rw [hm, admits_iff_stops]
  cases s <;> decide

theorem leads_before_block (h : (Phrase.expression .assignment n).LeadsTo depth c m)
    (hm : m.current.kind = .leftBrace) : (levels depth).expression 0 c = .ok (n, m) := by
  refine leads_expression 0 h (Stratum.le_refl _) (by decide) ?_
  rw [hm]
  decide

/-- Behind a statement stands what ends the list, or a statement that it does not take. -/
theorem admits_before_statements {ns : List Node} (h : Derives depth (.statements ns) us)
    (hp : m.Passes us d) (hj : endsInExpression n = true → ∀ t ∈ us.head?, t.kind ∉ joiners)
    (hd : (Phrase.statements ns).Admits d.current.kind) :
    (Phrase.statement n).Admits m.current.kind := by
  cases h with
  | noStatements =>
    obtain rfl := hp
    rcases hd with hd | hd
    · rw [hd]
      exact ⟨fun _ => by decide, by decide⟩
    · rw [hd]
      exact ⟨fun _ => by decide, by decide⟩
  | statements hf _ _ =>
    obtain ⟨t, rest, rfl, ht⟩ := hf.beginsWell
    have hm : m.current = t := hp.current_eq
    rw [hm]
    refine ⟨fun he => stops_of_starter ht (hj he t rfl), ?_⟩
    intro hk
    exact absurd (hk ▸ ht) (by decide)

end Between

/-! ## Phrase by phrase -/

/-- Reading a phrase passes tokens: it leads from where they begin to where they end, if what stands
behind them may follow the phrase. -/
def Phrase.ReadBy (depth : Nat) (phrase : Phrase) (ts : List Token) : Prop :=
  ∀ {c d : Cursor}, c.Passes ts d → phrase.Admits d.current.kind → phrase.LeadsTo depth c d

section Expressions

variable {depth : Nat} {s : Stratum} {n : Node} {ts us : List Token}
  {keyword opening closing op : Token}

/-- An operand is read by what `operand` does with it. -/
theorem readBy_of_operand (h : ∀ {c d : Cursor}, c.Passes ts d → s.Admits d.current.kind →
    operand (levels depth) c = .ok (n, d)) : (Phrase.expression s n).ReadBy (depth + 1) ts :=
  fun hp hd _ _ _ => expression_of_operand (h hp hd)

theorem readBy_number {t : Token} {value : Double} (hk : t.kind = .number)
    (hv : Numeral.value? t.text.toList = some value) :
    (Phrase.expression .primary (.number t.range value)).ReadBy (depth + 1) [t] := by
  refine readBy_of_operand ?_
  rintro c d ⟨rfl, -, e, ha, rfl⟩ -
  simp only [operand, hk]
  exact numeral_eq_ok.mpr ⟨e, value, ha, hv, rfl⟩

theorem readBy_function {params : List Node} {body : Node} (hk : keyword.kind = .functionKeyword)
    (ho : opening.kind = .leftParenthesis) (hps : (Phrase.items .parameter params).ReadBy depth ts)
    (hc : closing.kind = .rightParenthesis) (hb : (Phrase.block body).ReadBy depth us) :
    (Phrase.expression .primary
      (.function (keyword.range.span body.range) params body)).ReadBy (depth + 1)
        (keyword :: opening :: ts ++ closing :: us) := by
  refine readBy_of_operand fun {c d} hp _ => ?_
  obtain ⟨m, hp₁, rfl, -, b, hbrace, hp₂⟩ := Cursor.passes_append.mp hp
  obtain ⟨rfl, -, o, ha, rfl, -, i, hi, hp₃⟩ := hp₁
  simp only [operand, hk]
  exact function_eq_ok.mpr ⟨hk, o, i, params, m, b, body, d, ha, ho, hi, hps hp₃ hc, hc, hbrace,
    hb hp₂ trivial, rfl⟩

theorem readBy_grouping {inner : Node} (ho : opening.kind = .leftParenthesis)
    (h : (Phrase.expression .assignment inner).ReadBy depth ts)
    (hc : closing.kind = .rightParenthesis) :
    (Phrase.expression .primary (inner.withRange (opening.range.span closing.range))).ReadBy
      (depth + 1) (opening :: ts ++ [closing]) := by
  refine readBy_of_operand fun {c d} hp _ => ?_
  obtain ⟨m, ⟨rfl, -, i, hi, hp₁⟩, rfl, -, e, he, rfl⟩ := Cursor.passes_append.mp hp
  have hadmits : Stratum.assignment.Admits m.current.kind := by
    rw [hc]
    decide
  have hstops : Stops 0 m.current.kind := by
    rw [hc]
    decide
  have hx := leads_expression 0 (h hp₁ hadmits) (Stratum.le_refl _) (by decide) hstops
  simp only [operand, ho]
  exact grouping_eq_ok.mpr ⟨ho, i, inner, m, e, hi, hx, hc, he, rfl⟩

theorem readBy_call {callee : Node} {args : List Node}
    (hf : (Phrase.expression .call callee).ReadBy (depth + 1) ts)
    (ho : opening.kind = .leftParenthesis) (ha : (Phrase.items .argument args).ReadBy depth us)
    (hc : closing.kind = .rightParenthesis) :
    (Phrase.expression .call (.call (callee.range.span closing.range) callee args)).ReadBy
      (depth + 1) (ts ++ opening :: us ++ [closing]) := by
  intro c d hp _ minimum hs hm
  obtain ⟨m, hp₁, rfl, -, e, he, rfl⟩ := Cursor.passes_append.mp hp
  obtain ⟨f, hp₂, rfl, -, i, hi, hp₃⟩ := Cursor.passes_append.mp hp₁
  have hadmits : Stratum.call.Admits f.current.kind := by
    rw [ho, admits_iff_stops]
    decide
  rw [hf hp₂ hadmits minimum hs hm]
  exact operators_call ho hm hi (ha hp₃ hc) hc he

theorem readBy_unary (hk : isUnary op.kind = true)
    (h : (Phrase.expression .unary n).ReadBy depth ts) :
    (Phrase.expression .unary (.unary (op.range.span n.range) op.text n)).ReadBy (depth + 1)
      (op :: ts) := by
  refine readBy_of_operand fun {c d} hp hd => ?_
  obtain ⟨rfl, -, e, ha, hp₁⟩ := hp
  have hstops : Stops unaryPower d.current.kind := (admits_iff_stops .unary _).mp hd
  exact operand_unary hk ha
    (leads_expression unaryPower (h hp₁ hd) (Stratum.le_refl _) (by decide) hstops)

theorem readBy_binary {tier : Tier} {left right : Node} (ht : tier? op.kind = some tier)
    (hl : (Phrase.expression tier.left left).ReadBy (depth + 1) ts)
    (hr : (Phrase.expression tier.right right).ReadBy depth us) :
    (Phrase.expression tier.own (joined op left right)).ReadBy (depth + 1) (ts ++ op :: us) := by
  intro c d hp hd minimum hs hm
  obtain ⟨m, hp₁, rfl, -, e, he, hp₂⟩ := Cursor.passes_append.mp hp
  obtain ⟨power, grouping, hb, hf⟩ := exists_binding_of_tier ht
  have hstops : Stops (rightMinimum power grouping) d.current.kind := by
    rw [hf.ceiling_eq]
    exact (admits_iff_stops tier.own _).mp hd
  have hright := leads_expression (rightMinimum power grouping)
    (hr hp₂ (Stratum.Admits.of_le hd hf.own_le_right)) (hf.floor_eq ▸ Stratum.le_refl _)
      hf.rightMinimum_lt hstops
  rw [hl hp₁ (admits_of_tier ht) minimum (Stratum.le_trans hs hf.own_le_left) hm]
  exact operators_join hb ((hf.floor_le_iff minimum).mp hs) he hright

end Expressions

section Items

variable {depth : Nat} {sort : Item} {comma : Token} {first : Node} {others : List Node}
  {ts us : List Token}

/-- An item is read before the other items, and these after it. -/
theorem readings_of_items (hf : (sort.phrase first).ReadBy depth ts)
    (hos : Derives depth (.furtherItems sort others) us)
    (ho : (Phrase.furtherItems sort others).ReadBy depth us) {c m d : Cursor} (hp : c.Passes ts m)
    (hp' : m.Passes us d) (hd : d.current.kind = .rightParenthesis) :
    sort.reading (levels depth) c = .ok (first, m) ∧
      Grammar.furtherItems (sort.reading (levels depth)) m = .ok (others, d) := by
  have hm := kind_of_furtherItems hos hp' hd
  exact ⟨leads_item (hf hp (admits_item hm)) hm, ho hp' hd⟩

theorem readBy_items (hfs : Derives depth (sort.phrase first) ts)
    (hf : (sort.phrase first).ReadBy depth ts) (hos : Derives depth (.furtherItems sort others) us)
    (ho : (Phrase.furtherItems sort others).ReadBy depth us) :
    (Phrase.items sort (first :: others)).ReadBy depth (ts ++ us) := by
  intro c d hp hd
  obtain ⟨m, hp₁, hp₂⟩ := Cursor.passes_append.mp hp
  obtain ⟨hfirst, hothers⟩ := readings_of_items hf hos ho hp₁ hp₂ hd
  have hc : c.current.kind ≠ .rightParenthesis := by
    intro hc
    exact absurd (hc ▸ kind_of_item hfs hp₁) (by decide)
  exact items_eq_ok.mpr (Or.inr ⟨hc, first, m, others, d, hfirst, hothers, rfl⟩)

theorem readBy_lastItem : (Phrase.furtherItems sort []).ReadBy depth [] := by
  rintro c d rfl hd
  have hc : ¬ c.holds .comma = true := by
    intro hc
    exact absurd ((Cursor.holds_iff.mp hc).symm.trans hd) (by decide)
  show Grammar.furtherItems _ c = _
  rw [furtherItems_eq (consumes_item sort depth), if_neg hc]

theorem readBy_furtherItem (hk : comma.kind = .comma) (hf : (sort.phrase first).ReadBy depth ts)
    (hos : Derives depth (.furtherItems sort others) us)
    (ho : (Phrase.furtherItems sort others).ReadBy depth us) :
    (Phrase.furtherItems sort (first :: others)).ReadBy depth (comma :: ts ++ us) := by
  intro c d hp hd
  obtain ⟨m, ⟨rfl, -, e, ha, hp₁⟩, hp₂⟩ := Cursor.passes_append.mp hp
  obtain ⟨hfirst, hothers⟩ := readings_of_items hf hos ho hp₁ hp₂ hd
  have hc : c.consume .comma = .ok (c.current, e) := Cursor.consume_eq_ok.mpr ⟨hk, rfl, ha⟩
  show Grammar.furtherItems _ c = _
  rw [furtherItems_eq (consumes_item sort depth), if_pos (Cursor.holds_iff.mpr hk)]
  simp only [hc, hfirst, hothers, bind, Except.bind]
  rfl

end Items

section Statements

variable {depth : Nat} {keyword between opening closing : Token} {e p q r : Node}
  {ts us vs : List Token}

theorem readBy_block {inner : List Node} (ho : opening.kind = .leftBrace)
    (h : (Phrase.statements inner).ReadBy depth ts) (hc : closing.kind = .rightBrace) :
    (Phrase.block (.block (opening.range.span closing.range) inner)).ReadBy (depth + 1)
      (opening :: ts ++ [closing]) := by
  intro c d hp _
  obtain ⟨m, ⟨rfl, -, i, hi, hp₁⟩, rfl, -, e, he, rfl⟩ := Cursor.passes_append.mp hp
  have hs := h hp₁ (Or.inr hc)
  simp only [Phrase.LeadsTo, hc] at hs
  exact block_eq_ok.mpr ⟨ho, i, inner, m, e, hi, hs, hc, he, rfl⟩

/-- An expression at the end of a statement is read to its end. -/
theorem leads_ending (h : (Phrase.expression .assignment e).ReadBy depth ts) {c d : Cursor}
    (hp : c.Passes ts d) (hs : Stops 0 d.current.kind) :
    (levels depth).expression 0 c = .ok (e, d) :=
  leads_expression 0 (h hp ((stops_zero_iff _).mp hs)) (Stratum.le_refl _) (by decide) hs

theorem readBy_expressionStatement (he : Derives depth (.expression .assignment e) ts)
    (h : (Phrase.expression .assignment e).ReadBy depth ts) :
    (Phrase.statement (.expressionStatement e.range e)).ReadBy (depth + 1) ts := by
  intro c d hp hd
  have hx := leads_ending h hp (hd.1 rfl)
  have hc := kind_of_expression he hp
  refine statement_eq_ok.mpr (Or.inr (Or.inr ⟨?_, ?_, e, d, hx, rfl⟩))
  · intro hk
    exact absurd (hk ▸ hc) (by decide)
  · intro hk
    exact absurd (hk ▸ hc) (by decide)

theorem readBy_returnStatement (hk : keyword.kind = .returnKeyword)
    (h : (Phrase.expression .assignment e).ReadBy depth ts) :
    (Phrase.statement (.returnStatement (keyword.range.span e.range) e)).ReadBy (depth + 1)
      (keyword :: ts) := by
  intro c d hp hd
  obtain ⟨rfl, -, f, ha, hp₁⟩ := hp
  have hx := leads_ending h hp₁ (hd.1 rfl)
  exact statement_eq_ok.mpr (Or.inl ⟨hk, returnStatement_eq_ok.mpr ⟨hk, f, e, d, ha, hx, rfl⟩⟩)

/-- The predicate of a branch is read up to the block behind it, and then the block. -/
theorem readings_of_branch (hp : (Phrase.expression .assignment p).ReadBy depth ts)
    (hq : Derives depth (.block q) us) (hc : (Phrase.block q).ReadBy depth us) {c m d : Cursor}
    (hts : c.Passes ts m) (hus : m.Passes us d) :
    (levels depth).expression 0 c = .ok (p, m) ∧ (levels depth).block m = .ok (q, d) := by
  have hm := kind_of_block hq hus
  exact ⟨leads_before_block (hp hts (admits_before_block hm)) hm, hc hus trivial⟩

theorem readBy_branch (hk : keyword.kind = .ifKeyword)
    (hp : (Phrase.expression .assignment p).ReadBy depth ts) (hq : Derives depth (.block q) us)
    (hc : (Phrase.block q).ReadBy depth us) :
    (Phrase.statement (.branch (keyword.range.span q.range) p q .absent)).ReadBy (depth + 1)
      (keyword :: ts ++ us) := by
  intro c d hpasses hd
  obtain ⟨m, ⟨rfl, -, f, ha, hts⟩, hus⟩ := Cursor.passes_append.mp hpasses
  obtain ⟨hx, hy⟩ := readings_of_branch hp hq hc hts hus
  exact statement_eq_ok.mpr (Or.inr (Or.inl ⟨hk, branch_eq_ok.mpr
    ⟨hk, f, p, m, q, d, ha, hx, hy, Or.inl ⟨hd.2, rfl⟩⟩⟩))

theorem readBy_branchElse (hk : keyword.kind = .ifKeyword)
    (hp : (Phrase.expression .assignment p).ReadBy depth ts) (hq : Derives depth (.block q) us)
    (hc : (Phrase.block q).ReadBy depth us) (he : between.kind = .elseKeyword)
    (hr : (Phrase.block r).ReadBy depth vs) :
    (Phrase.statement (.branch (keyword.range.span r.range) p q r)).ReadBy (depth + 1)
      (keyword :: ts ++ us ++ between :: vs) := by
  intro c d hpasses _
  obtain ⟨m, hfront, rfl, -, g, hg, hvs⟩ := Cursor.passes_append.mp hpasses
  obtain ⟨l, ⟨rfl, -, f, ha, hts⟩, hus⟩ := Cursor.passes_append.mp hfront
  obtain ⟨hx, hy⟩ := readings_of_branch hp hq hc hts hus
  exact statement_eq_ok.mpr (Or.inr (Or.inl ⟨hk, branch_eq_ok.mpr
    ⟨hk, f, p, l, q, m, ha, hx, hy, Or.inr ⟨he, g, r, d, hg, hr hvs trivial, rfl⟩⟩⟩))

theorem readBy_noStatements : (Phrase.statements []).ReadBy depth [] := by
  rintro c d rfl _
  show Grammar.statements _ _ c = _
  rw [statements_eq (consuming_levels depth).statement, if_pos (Cursor.holds_iff.mpr rfl)]

theorem readBy_statements {first : Node} {others : List Node}
    (hfs : Derives depth (.statement first) ts) (hf : (Phrase.statement first).ReadBy depth ts)
    (hos : Derives depth (.statements others) us) (ho : (Phrase.statements others).ReadBy depth us)
    (hj : endsInExpression first = true → ∀ t ∈ us.head?, t.kind ∉ joiners) :
    (Phrase.statements (first :: others)).ReadBy depth (ts ++ us) := by
  intro c d hp hd
  obtain ⟨m, hp₁, hp₂⟩ := Cursor.passes_append.mp hp
  have hfirst : (levels depth).statement c = .ok (first, m) :=
    hf hp₁ (admits_before_statements hos hp₂ hj hd)
  have hothers : Grammar.statements (levels depth) d.current.kind m = .ok (others, d) := ho hp₂ hd
  have hc := kind_of_statement hfs hp₁
  have h₁ : ¬ c.holds d.current.kind = true := by
    intro h
    rw [Cursor.holds_iff.mp h] at hc
    rcases hd with hd | hd <;> exact absurd (hd ▸ hc) (by decide)
  have h₂ : ¬ c.holds .endOfInput = true := by
    intro h
    exact absurd (Cursor.holds_iff.mp h ▸ hc) (by decide)
  show Grammar.statements _ _ c = _
  rw [statements_eq (consuming_levels depth).statement, if_neg h₁, if_neg h₂]
  simp only [hfirst, hothers, bind, Except.bind]
  rfl

end Statements

/-! ## The induction -/

/-- **What is derived is read.** -/
theorem Derives.readBy {depth : Nat} {phrase : Phrase} {ts : List Token}
    (h : Derives depth phrase ts) : phrase.ReadBy depth ts := by
  induction h with
  | number hk hv => exact readBy_number hk hv
  | string hk | trueKeyword hk | falseKeyword hk | name hk =>
    refine readBy_of_operand ?_
    rintro c d ⟨rfl, -, e, ha, rfl⟩ -
    simp only [operand, hk]
    exact literal_eq_ok.mpr ⟨e, ha, rfl⟩
  | function hk ho _ hc _ ihp ihb => exact readBy_function hk ho ihp hc ihb
  | grouping ho _ hc ih => exact readBy_grouping ho ih hc
  | call _ ho _ hc ihf iha => exact readBy_call ihf ho iha hc
  | unary hk _ ih => exact readBy_unary hk ih
  | binary ht _ _ ihl ihr => exact readBy_binary ht ihl ihr
  | looser _ hs ih =>
    exact fun hp hd minimum hm hc =>
      ih hp (Stratum.Admits.of_le hd hs) minimum (Stratum.le_trans hm hs) hc
  | parameter hk =>
    rintro c d ⟨rfl, -, e, ha, rfl⟩ -
    exact parameter_eq_ok.mpr ⟨hk, e, ha, rfl⟩
  | noItems =>
    rintro c d rfl hd
    exact items_eq_ok.mpr (Or.inl ⟨hd, rfl⟩)
  | items hfs hos ihf iho => exact readBy_items hfs ihf hos iho
  | lastItem => exact readBy_lastItem
  | furtherItem hk _ hos ihf iho => exact readBy_furtherItem hk ihf hos iho
  | block ho _ hc ih => exact readBy_block ho ih hc
  | expressionStatement he ih => exact readBy_expressionStatement he ih
  | returnStatement hk _ ih => exact readBy_returnStatement hk ih
  | branch hk _ hq ihp ihc => exact readBy_branch hk ihp hq ihc
  | branchElse hk _ hq he _ ihp ihc iha => exact readBy_branchElse hk ihp hq ihc he iha
  | noStatements => exact readBy_noStatements
  | statements hfs hos hj ihf iho => exact readBy_statements hfs ihf hos iho hj
  | program => exact fun _ _ => trivial

end Grammar
end HangulScript
