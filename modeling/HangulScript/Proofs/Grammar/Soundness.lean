import HangulScript.Proofs.Grammar.Powers
import HangulScript.Proofs.Reading.Passage

/-!
# What is read is derived

If a reading succeeds, then the tokens that it passes derive its tree in the stratified
grammar, and an expression is followed by nothing that it could have taken.

The induction is on the level.  Within a level only the operator loop needs a thought: it
holds an expression, and its invariant is that this expression is derived at *some* stratum
that is tight enough for the minimum and that admits the token in hand.  Each round leaves
such a stratum behind, the one of the operator it took.
-/

namespace HangulScript
namespace Grammar

/-- From one cursor to the other stand tokens that derive a phrase. -/
def Spans (depth : Nat) (phrase : Phrase) (c d : Cursor) : Prop :=
  ∃ ts, c.Passes ts d ∧ Derives depth phrase ts

/-- A level all of whose readings give what the tokens derive. -/
structure Level.Sound (level : Level) (depth : Nat) : Prop where
  expression : ∀ {minimum : Int} {c d : Cursor} {n : Node}, minimum < callPower →
    level.expression minimum c = .ok (n, d) →
    Spans depth (.expression (floor minimum) n) c d ∧ Stops minimum d.current.kind
  statement : ∀ {c d : Cursor} {n : Node}, level.statement c = .ok (n, d) →
    Spans depth (.statement n) c d ∧ (endsInExpression n = true → Stops 0 d.current.kind)
  block : ∀ {c d : Cursor} {n : Node}, level.block c = .ok (n, d) → Spans depth (.block n) c d

/-- A token of a kind that is no end of input is passed by advancing from it. -/
theorem passes_of_kind {c d : Cursor} {kind : TokenKind} (h : c.advance = .ok d)
    (hk : c.current.kind = kind) (he : kind ≠ .endOfInput) : c.Passes [c.current] d :=
  Cursor.passes_current h (hk ▸ he)

/-- Before a token at which an expression stops, no statement begins that it would take. -/
theorem not_mem_joiners_of_stops {kind : TokenKind} (h : Stops 0 kind) : kind ∉ joiners := by
  have hs : ∀ k ∈ TokenKind.all, Stops 0 k → k ∉ joiners := by decide
  exact hs kind (TokenKind.mem_all kind) h

section Rules

variable {depth : Nat} {down : Level} {c d : Cursor} {n : Node} {ns : List Node}

/-! ## Lists -/

theorem spans_moreItems {sort : Item} {item : Reading Node}
    (hi : ∀ {c d : Cursor} {n : Node}, item c = .ok (n, d) → Spans depth (sort.phrase n) c d)
    {bound : Nat} (h : moreItems item bound c = .ok (ns, d)) :
    Spans depth (.furtherItems sort ns) c d := by
  induction bound generalizing c ns with
  | zero => cases h
  | succ bound ih =>
    rcases moreItems_succ_eq_ok.mp h with ⟨-, he⟩ |
      ⟨hk, further, n, between, ms, last, ha, hn, hm, he⟩
    · cases he
      exact ⟨[], rfl, .lastItem⟩
    · cases he
      obtain ⟨ts, hts, hdt⟩ := hi hn
      obtain ⟨us, hus, hdu⟩ := ih hm
      exact ⟨_, ((passes_of_kind ha hk (by decide)).trans hts).trans hus, .furtherItem hk hdt hdu⟩

theorem spans_items (sort : Item) {item : Reading Node}
    (hi : ∀ {c d : Cursor} {n : Node}, item c = .ok (n, d) → Spans depth (sort.phrase n) c d)
    (h : items item c = .ok (ns, d)) : Spans depth (.items sort ns) c d := by
  rcases items_eq_ok.mp h with ⟨-, he⟩ | ⟨-, n, between, ms, last, hn, hm, he⟩
  · cases he
    exact ⟨[], rfl, .noItems⟩
  · cases he
    obtain ⟨ts, hts, hdt⟩ := hi hn
    obtain ⟨us, hus, hdu⟩ := spans_moreItems hi hm
    exact ⟨ts ++ us, hts.trans hus, .items hdt hdu⟩

theorem spans_parameter (h : parameter c = .ok (n, d)) : Spans depth (.parameter n) c d := by
  obtain ⟨hk, last, ha, he⟩ := parameter_eq_ok.mp h
  cases he
  exact ⟨_, passes_of_kind ha hk (by decide), .parameter hk⟩

variable (hd : down.Sound depth)

include hd

theorem spans_argument (h : down.expression 0 c = .ok (n, d)) :
    Spans depth (.expression .assignment n) c d :=
  (hd.expression (by decide) h).1

theorem spans_statementsUpTo {terminator : TokenKind} {bound : Nat}
    (h : statementsUpTo down terminator bound c = .ok (ns, d)) :
    Spans depth (.statements ns) c d ∧ d.current.kind = terminator := by
  induction bound generalizing c ns with
  | zero => cases h
  | succ bound ih =>
    rcases statementsUpTo_succ_eq_ok.mp h with ⟨hk, he⟩ |
      ⟨-, -, n, between, ms, last, hn, hm, he⟩
    · cases he
      exact ⟨⟨[], rfl, .noStatements⟩, hk⟩
    · cases he
      obtain ⟨⟨ts, hts, hdt⟩, hs⟩ := hd.statement hn
      obtain ⟨⟨us, hus, hdu⟩, hl⟩ := ih hm
      refine ⟨⟨ts ++ us, hts.trans hus, .statements hdt hdu ?_⟩, hl⟩
      intro hx t ht
      cases us with
      | nil => cases ht
      | cons u us =>
        cases ht
        rw [← hus.current_eq]
        exact not_mem_joiners_of_stops (hs hx)

/-! ## Blocks and statements -/

theorem spans_block (h : block down c = .ok (n, d)) : Spans (depth + 1) (.block n) c d := by
  obtain ⟨hk, inside, ms, closing, last, ha, hs, hc, hl, he⟩ := block_eq_ok.mp h
  cases he
  obtain ⟨⟨ts, hts, hdt⟩, -⟩ := spans_statementsUpTo hd hs
  exact ⟨_, ((passes_of_kind ha hk (by decide)).trans hts).trans (passes_of_kind hl hc (by decide)),
    .block hk hdt hc⟩

theorem spans_returnStatement (h : returnStatement down c = .ok (n, d)) :
    Spans (depth + 1) (.statement n) c d ∧ Stops 0 d.current.kind := by
  obtain ⟨hk, further, e, last, ha, hx, he⟩ := returnStatement_eq_ok.mp h
  cases he
  obtain ⟨⟨ts, hts, hdt⟩, hs⟩ := hd.expression (by decide) hx
  exact ⟨⟨_, (passes_of_kind ha hk (by decide)).trans hts, .returnStatement hk hdt⟩, hs⟩

theorem spans_branch (h : branch down c = .ok (n, d)) :
    Spans (depth + 1) (.statement n) c d ∧ endsInExpression n = false := by
  obtain ⟨hk, further, p, before, q, behind, ha, hp, hq, hr⟩ := branch_eq_ok.mp h
  obtain ⟨ts, hts, hdt⟩ := spans_argument hd hp
  obtain ⟨us, hus, hdu⟩ := hd.block hq
  have hb := ((passes_of_kind ha hk (by decide)).trans hts).trans hus
  rcases hr with ⟨-, he⟩ | ⟨hl, opening, r, last, ho, ha', he⟩
  · cases he
    exact ⟨⟨_, hb, .branch hk hdt hdu⟩, rfl⟩
  · cases he
    obtain ⟨vs, hvs, hdv⟩ := hd.block ha'
    have hb' := hb.trans ((passes_of_kind ho hl (by decide)).trans hvs)
    exact ⟨⟨_, hb', .branchElse hk hdt hdu hl hdv⟩, rfl⟩

theorem spans_statement (h : statement down c = .ok (n, d)) :
    Spans (depth + 1) (.statement n) c d ∧ (endsInExpression n = true → Stops 0 d.current.kind) := by
  rcases statement_eq_ok.mp h with ⟨-, hr⟩ | ⟨-, hb⟩ | ⟨-, -, e, last, hx, he⟩
  · obtain ⟨hs, hl⟩ := spans_returnStatement hd hr
    exact ⟨hs, fun _ => hl⟩
  · obtain ⟨hs, hn⟩ := spans_branch hd hb
    refine ⟨hs, fun hn' => ?_⟩
    rw [hn] at hn'
    cases hn'
  · cases he
    obtain ⟨⟨ts, hts, hdt⟩, hl⟩ := hd.expression (by decide) hx
    exact ⟨⟨ts, hts, .expressionStatement hdt⟩, fun _ => hl⟩

/-! ## Operands -/

theorem spans_function (h : function down c = .ok (n, d)) :
    Spans (depth + 1) (.expression .primary n) c d := by
  obtain ⟨hk, opening, inside, ps, closing, behind, b, last, ha, ho, hi, hp, hc, hl, hb, he⟩ :=
    function_eq_ok.mp h
  cases he
  obtain ⟨ts, hts, hdt⟩ := spans_items .parameter spans_parameter hp
  obtain ⟨us, hus, hdu⟩ := hd.block hb
  have h₁ := (passes_of_kind ha hk (by decide)).trans (passes_of_kind hi ho (by decide))
  have h₂ := (passes_of_kind hl hc (by decide)).trans hus
  exact ⟨_, (h₁.trans hts).trans h₂, .function hk ho hdt hc hdu⟩

theorem spans_grouping (h : grouping down c = .ok (n, d)) :
    Spans (depth + 1) (.expression .primary n) c d := by
  obtain ⟨hk, inside, e, closing, last, ha, hx, hc, hl, he⟩ := grouping_eq_ok.mp h
  cases he
  obtain ⟨ts, hts, hdt⟩ := spans_argument hd hx
  exact ⟨_, ((passes_of_kind ha hk (by decide)).trans hts).trans (passes_of_kind hl hc (by decide)),
    .grouping hk hdt hc⟩

theorem spans_unary (hk : isUnary c.current.kind = true) (h : unary down c = .ok (n, d)) :
    Spans (depth + 1) (.expression .unary n) c d ∧ Stops unaryPower d.current.kind := by
  obtain ⟨further, e, last, ha, hx, he⟩ := unary_eq_ok.mp h
  cases he
  obtain ⟨⟨ts, hts, hdt⟩, hs⟩ := hd.expression (by decide) hx
  have hc : c.current.kind ≠ .endOfInput := by
    intro hc
    rw [hc] at hk
    cases hk
  exact ⟨⟨_, (Cursor.passes_current ha hc).trans hts, .unary hk hdt⟩, hs⟩

omit hd in
theorem admits_of_call_le {s : Stratum} (h : .call ≤ s) (kind : TokenKind) : s.Admits kind := by
  refine ⟨fun _ => h, fun tier ht => Stratum.le_trans ?_ h⟩
  cases kind <;> cases ht <;> decide

omit hd in
theorem spans_token {c d : Cursor} {n : Node} (ha : c.advance = .ok d)
    (hk : c.current.kind ≠ .endOfInput)
    (hn : Derives (depth + 1) (.expression .primary n) [c.current]) :
    Spans (depth + 1) (.expression .primary n) c d :=
  ⟨_, Cursor.passes_current ha hk, hn⟩

/-- An operand is as tight as it can be: it may be followed by whatever comes. -/
theorem spans_operand (h : operand down c = .ok (n, d)) :
    ∃ s, .unary ≤ s ∧ Spans (depth + 1) (.expression s n) c d ∧ s.Admits d.current.kind := by
  have hprimary : Spans (depth + 1) (.expression .primary n) c d →
      ∃ s, .unary ≤ s ∧ Spans (depth + 1) (.expression s n) c d ∧ s.Admits d.current.kind :=
    fun hs => ⟨.primary, by decide, hs, admits_of_call_le (by decide) _⟩
  have hunary : isUnary c.current.kind = true → unary down c = .ok (n, d) →
      ∃ s, .unary ≤ s ∧ Spans (depth + 1) (.expression s n) c d ∧ s.Admits d.current.kind := by
    intro hk hu
    obtain ⟨hs, hl⟩ := spans_unary hd hk hu
    exact ⟨.unary, by decide, hs, (admits_iff_stops .unary _).mpr hl⟩
  simp only [operand] at h
  split at h
  case h_1 hk | h_2 hk | h_3 hk => exact hunary (by rw [hk]; rfl) h
  case h_4 hk =>
    obtain ⟨last, v, ha, hv, he⟩ := numeral_eq_ok.mp h
    cases he
    exact hprimary (spans_token ha (by rw [hk]; decide) (.number hk hv))
  case h_5 hk =>
    obtain ⟨last, ha, he⟩ := literal_eq_ok.mp h
    cases he
    exact hprimary (spans_token ha (by rw [hk]; decide) (.string hk))
  case h_6 hk =>
    obtain ⟨last, ha, he⟩ := literal_eq_ok.mp h
    cases he
    exact hprimary (spans_token ha (by rw [hk]; decide) (.trueKeyword hk))
  case h_7 hk =>
    obtain ⟨last, ha, he⟩ := literal_eq_ok.mp h
    cases he
    exact hprimary (spans_token ha (by rw [hk]; decide) (.falseKeyword hk))
  case h_8 hk =>
    obtain ⟨last, ha, he⟩ := literal_eq_ok.mp h
    cases he
    exact hprimary (spans_token ha (by rw [hk]; decide) (.name hk))
  case h_9 hk => exact hprimary (spans_function hd h)
  case h_10 hk => exact hprimary (spans_grouping hd h)
  case h_11 => cases h

/-! ## The operator loop -/

theorem spans_operatorLoop {minimum : Int} {bound : Nat} {left : Node} {a : Cursor}
    {s : Stratum} (hl : Spans (depth + 1) (.expression s left) a c)
    (hs : floor minimum ≤ s) (hc : s.Admits c.current.kind)
    (h : operatorLoop down minimum bound left c = .ok (n, d)) :
    Spans (depth + 1) (.expression (floor minimum) n) a d := by
  induction bound generalizing left c s with
  | zero => cases h
  | succ bound ih =>
    obtain ⟨ts, hts, hdt⟩ := hl
    rcases operatorLoop_succ_eq_ok.mp h with ⟨⟨hk, -⟩, whole, further, hcall, hloop⟩ |
      ⟨-, ⟨-, he⟩ | ⟨power, grouping, hb, ⟨-, he⟩ |
        ⟨hp, further, right, behind, ha, hx, hloop⟩⟩⟩
    · obtain ⟨-, inside, args, closing, last, hi, hargs, hclose, hlast, he⟩ := call_eq_ok.mp hcall
      cases he
      obtain ⟨us, hus, hdu⟩ := spans_items .argument (spans_argument hd) hargs
      have hfn : Derives (depth + 1) (.expression .call left) ts := .looser hdt (hc.1 hk)
      have hpass := ((hts.trans ((passes_of_kind hi hk (by decide)).trans hus))).trans
        (passes_of_kind hlast hclose (by decide))
      exact ih ⟨_, hpass, .call hfn hk hdu hclose⟩ (Stratum.le_trans (floor_le_unary _) (by decide))
        (admits_of_call_le (Stratum.le_refl _) _) hloop
    · cases he
      exact ⟨ts, hts, .looser hdt hs⟩
    · cases he
      exact ⟨ts, hts, .looser hdt hs⟩
    · obtain ⟨tier, ht, hf⟩ := exists_tier_of_binding hb
      obtain ⟨⟨us, hus, hdu⟩, hstop⟩ := hd.expression hf.rightMinimum_lt hx
      rw [hf.floor_eq] at hdu
      rw [hf.ceiling_eq] at hstop
      have hleft : Derives (depth + 1) (.expression tier.left left) ts := .looser hdt (hc.2 _ ht)
      have hk : c.current.kind ≠ .endOfInput := by
        intro hk
        rw [hk] at hb
        cases hb
      have hpass := hts.trans ((Cursor.passes_current ha hk).trans hus)
      exact ih ⟨_, hpass, .binary ht hleft hdu⟩ ((hf.floor_le_iff minimum).mpr hp)
        ((admits_iff_stops tier.own _).mpr hstop) hloop

theorem spans_expression {minimum : Int}
    (h : expression down minimum c = .ok (n, d)) :
    Spans (depth + 1) (.expression (floor minimum) n) c d ∧ Stops minimum d.current.kind := by
  obtain ⟨left, further, ho, hl⟩ := expression_eq_ok.mp h
  obtain ⟨s, hs, hspan, ha⟩ := spans_operand hd ho
  exact ⟨spans_operatorLoop hd hspan (Stratum.le_trans (floor_le_unary _) hs) ha hl,
    stops_of_operatorLoop hl⟩

end Rules

/-- **Every level is sound.** -/
theorem sound_levels (depth : Nat) : (levels depth).Sound depth := by
  induction depth with
  | zero =>
    refine ⟨?_, ?_, ?_⟩
    · intro minimum c d n _ h
      cases h
    · intro c d n h
      cases h
    · intro c d n h
      cases h
  | succ depth ih =>
    exact ⟨fun _ h => spans_expression ih h, fun h => spans_statement ih h,
      fun h => spans_block ih h⟩

end Grammar
end HangulScript
