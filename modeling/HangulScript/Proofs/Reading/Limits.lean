import HangulScript.Proofs.Reading.Consumption

/-!
# More levels change nothing

The nesting limit is not part of the language.  Reading with more levels gives the same
outcome, the same tree or the same failure, unless the limit was reached with fewer: a
level *approximates* every level above it.

The proof is the shape of the grammar once more.  Approximation is kept by doing one thing
after the other (`Approximates.bind`), and every rule does nothing else with the level below
it.

Enough levels there always are: a list of tokens never uses up two more than twice its
length.  Going down from a statement to its expression consumes nothing, and every other way
down consumes a token first.
-/

namespace HangulScript
namespace Grammar

/-- One outcome is that the limit was reached, or it is the other. -/
def Approximates {α : Type} (x y : Except ReadingFailure α) : Prop :=
  (∃ reached, x = .error (.limit reached)) ∨ x = y

namespace Approximates

variable {α β : Type} {x y : Except ReadingFailure α}

/-- An outcome approximates itself.  Most of what a rule does, it does at its own level, and then
the two are the same. -/
theorem refl (x : Except ReadingFailure α) : Approximates x x := Or.inr rfl

/-- Reaching the limit approximates whatever comes of going on. -/
theorem exhausted (c : Cursor) (y : Except ReadingFailure α) :
    Approximates (Grammar.exhausted c) y := Or.inl ⟨_, rfl⟩

/-- One thing after the other: where the first outcome was that the limit was reached, nothing
comes after it. -/
theorem bind {f g : α → Except ReadingFailure β} (h : Approximates x y)
    (hf : ∀ a, Approximates (f a) (g a)) : Approximates (x >>= f) (y >>= g) := by
  rcases h with ⟨reached, rfl⟩ | rfl
  · exact Or.inl ⟨reached, rfl⟩
  · cases x with
    | error e => exact refl _
    | ok a => exact hf a

/-- A rule that asks for the token in hand asks for the same one at both levels. -/
theorem ite {p : Prop} [Decidable p] {x' y' : Except ReadingFailure α} (h : Approximates x y)
    (h' : Approximates x' y') : Approximates (if p then x else x') (if p then y else y') := by
  split
  · exact h
  · exact h'

end Approximates

/-- A level whose readings all approximate those of another. -/
structure Level.Approximates (down up : Level) : Prop where
  expression : ∀ minimum c,
    Grammar.Approximates (down.expression minimum c) (up.expression minimum c)
  statement : ∀ c, Grammar.Approximates (down.statement c) (up.statement c)
  block : ∀ c, Grammar.Approximates (down.block c) (up.block c)

/-! ## Rules -/

/-- Items are read one at a time, so a list of them is approximated if each item is.  The bound of
the loop comes from the tokens and is the same at both levels. -/
theorem approximates_moreItems {item item' : Reading Node}
    (hi : ∀ c, Approximates (item c) (item' c)) (bound : Nat) (c : Cursor) :
    Approximates (moreItems item bound c) (moreItems item' bound c) := by
  induction bound generalizing c with
  | zero => exact .refl _
  | succ bound ih =>
    refine .ite ?_ (.refl _)
    refine (Approximates.refl _).bind ?_
    rintro ⟨_, c⟩
    refine (hi c).bind ?_
    rintro ⟨_, c⟩
    exact (ih c).bind fun _ => .refl _

/-- A list of items begins with an item or is empty. -/
theorem approximates_items {item item' : Reading Node}
    (hi : ∀ c, Approximates (item c) (item' c)) (c : Cursor) :
    Approximates (items item c) (items item' c) := by
  refine .ite (.refl _) ?_
  refine (hi c).bind ?_
  rintro ⟨_, c⟩
  exact (approximates_moreItems hi _ c).bind fun _ => .refl _

section Rules

variable {down up : Level} (h : down.Approximates up)

include h

/-- Statements go down a level for each statement.  The induction is on the bound of the loop. -/
theorem approximates_statements (terminator : TokenKind) (c : Cursor) :
    Approximates (statements down terminator c) (statements up terminator c) := by
  unfold statements
  generalize c.remaining + 1 = bound
  induction bound generalizing c with
  | zero => exact .refl _
  | succ bound ih =>
    refine .ite (.refl _) (.ite (.refl _) ?_)
    refine (h.statement c).bind ?_
    rintro ⟨_, c⟩
    exact (ih c).bind fun _ => .refl _

theorem approximates_block (c : Cursor) : Approximates (block down c) (block up c) := by
  refine (Approximates.refl _).bind ?_
  rintro ⟨_, c⟩
  exact (approximates_statements h _ c).bind fun _ => .refl _

/-- A branch goes down for its predicate and for each of its blocks. -/
theorem approximates_branch (c : Cursor) : Approximates (branch down c) (branch up c) := by
  refine (Approximates.refl _).bind ?_
  rintro ⟨_, c⟩
  refine (h.expression 0 c).bind ?_
  rintro ⟨_, c⟩
  refine (h.block c).bind ?_
  rintro ⟨_, c⟩
  refine .ite ?_ (.refl _)
  refine (Approximates.refl _).bind ?_
  rintro ⟨_, c⟩
  exact (h.block c).bind fun _ => .refl _

theorem approximates_statement (c : Cursor) :
    Approximates (statement down c) (statement up c) := by
  refine .ite ?_ (.ite (approximates_branch h c) ?_)
  · refine (Approximates.refl _).bind ?_
    rintro ⟨_, c⟩
    exact (h.expression 0 c).bind fun _ => .refl _
  · exact (h.expression 0 c).bind fun _ => .refl _

/-- A function literal goes down for its body only; its parameters are names. -/
theorem approximates_function (c : Cursor) : Approximates (function down c) (function up c) := by
  refine (Approximates.refl _).bind ?_
  rintro ⟨_, c⟩
  refine (Approximates.refl _).bind ?_
  rintro ⟨_, c⟩
  refine (Approximates.refl _).bind ?_
  rintro ⟨_, c⟩
  refine (Approximates.refl _).bind ?_
  rintro ⟨_, c⟩
  exact (h.block c).bind fun _ => .refl _

theorem approximates_call (callee : Node) (c : Cursor) :
    Approximates (call down callee c) (call up callee c) := by
  refine (Approximates.refl _).bind ?_
  rintro ⟨_, c⟩
  exact (approximates_items (h.expression 0) c).bind fun _ => .refl _

theorem approximates_grouping (c : Cursor) : Approximates (grouping down c) (grouping up c) := by
  refine (Approximates.refl _).bind ?_
  rintro ⟨_, c⟩
  exact (h.expression 0 c).bind fun _ => .refl _

theorem approximates_unary (c : Cursor) : Approximates (unary down c) (unary up c) := by
  refine (Approximates.refl _).bind fun c => ?_
  exact (h.expression unaryPower c).bind fun _ => .refl _

/-- An operand goes down behind a sign, in a function literal and in parentheses.  The other
operands are single tokens. -/
theorem approximates_operand (c : Cursor) : Approximates (operand down c) (operand up c) := by
  simp only [operand]
  split
  case h_1 | h_2 | h_3 => exact approximates_unary h c
  case h_9 => exact approximates_function h c
  case h_10 => exact approximates_grouping h c
  all_goals exact .refl _

/-- The operator loop goes down in calls and for right operands, and its rounds are the same at
both levels. -/
theorem approximates_operators (minimum : Int) (left : Node) (c : Cursor) :
    Approximates (operators down minimum left c) (operators up minimum left c) := by
  unfold operators
  generalize c.remaining + 1 = bound
  induction bound generalizing left c with
  | zero => exact .refl _
  | succ bound ih =>
    refine .ite ?_ ?_
    · refine (approximates_call h left c).bind ?_
      rintro ⟨whole, c⟩
      exact ih whole c
    · cases hb : binding? c.current.kind with
      | none => exact .refl _
      | some op =>
        obtain ⟨power, grouping⟩ := op
        refine .ite (.refl _) ?_
        refine (Approximates.refl _).bind fun further => ?_
        refine (h.expression _ further).bind ?_
        rintro ⟨right, d⟩
        exact ih _ d

/-- An expression is an operand and what the operator loop makes of it. -/
theorem approximates_expression (minimum : Int) (c : Cursor) :
    Approximates (expression down minimum c) (expression up minimum c) := by
  refine (approximates_operand h c).bind ?_
  rintro ⟨left, d⟩
  exact approximates_operators h minimum left d

end Rules

/-- **Fewer levels approximate more.** -/
theorem approximates_levels {limit limit' : Nat} (hl : limit ≤ limit') :
    (levels limit).Approximates (levels limit') := by
  induction limit generalizing limit' with
  | zero =>
    exact ⟨fun _ c => .exhausted c _, fun c => .exhausted c _, fun c => .exhausted c _⟩
  | succ limit ih =>
    obtain ⟨limit', rfl⟩ : ∃ k, limit' = k + 1 := ⟨limit' - 1, by omega⟩
    have h := ih (Nat.le_of_succ_le_succ hl)
    exact ⟨approximates_expression h, approximates_statement h, approximates_block h⟩

/-! ## Programs -/

/-- A program is read from the first cursor of its stream. -/
theorem program_of_start {limit : Nat} {stream : TokenStream} {c : Cursor}
    (hc : Cursor.start stream = .ok c) :
    program limit stream = (programFrom limit c).mapError reported := by
  rw [program, hc]
  rfl

/-- The program in a stream is nested too deeply for a limit. -/
def TooDeep (limit : Nat) (stream : TokenStream) : Prop :=
  ∃ reached, program limit stream = .error (.error ⟨.nestedTooDeeply, reached⟩)

/-- A program that is not nested too deeply is the same with a higher limit. -/
theorem program_eq_of_le {limit limit' : Nat} {stream : TokenStream} (h : ¬ TooDeep limit stream)
    (hl : limit ≤ limit') : program limit' stream = program limit stream := by
  cases hc : Cursor.start stream with
  | error e =>
    rw [program, program, hc]
    rfl
  | ok c =>
    rw [program_of_start hc, program_of_start hc]
    have hp : Approximates (programFrom limit c) (programFrom limit' c) := by
      refine Approximates.bind ?_ fun _ => .refl _
      exact approximates_statements (approximates_levels hl) .endOfInput c
    rcases hp with ⟨reached, hp⟩ | hp
    · refine absurd ⟨reached, ?_⟩ h
      rw [program_of_start hc, hp]
      rfl
    · rw [hp]

/-! ## Enough levels -/

/-- An outcome that a whole program would not report as being nested too deeply. -/
def Unlimited {α : Type} (x : Except ReadingFailure α) : Prop :=
  ∀ failure reached, x = .error failure → reported failure ≠ .error ⟨.nestedTooDeeply, reached⟩

/-- A result is no failure. -/
theorem unlimited_ok {α : Type} (a : α) : Unlimited (.ok a : Except ReadingFailure α) := by
  intro failure reached h
  cases h

/-- An error about the token in hand names that token and not the limit. -/
theorem unlimited_mismatchedToken {α : Type} (kind : TokenKind) (t : Token) :
    Unlimited (.error (.error (Error.mismatchedToken kind t)) : Except ReadingFailure α) := by
  intro failure reached h he
  cases h
  cases he

/-- Neither does the error about a token that nothing begins with. -/
theorem unlimited_unexpectedToken {α : Type} (t : Token) :
    Unlimited (.error (.error (Error.unexpectedToken t)) : Except ReadingFailure α) := by
  intro failure reached h he
  cases h
  cases he

/-- One thing after the other, where the second needs to be looked at for results of the first
only: what these left of the tokens is then known. -/
theorem Unlimited.bind {α β : Type} {x : Except ReadingFailure α}
    {f : α → Except ReadingFailure β} (h : Unlimited x) (hf : ∀ a, x = .ok a → Unlimited (f a)) :
    Unlimited (x >>= f) := by
  cases x with
  | error e =>
    intro failure reached he
    cases he
    exact h e reached rfl
  | ok a => exact hf a rfl

/-- The only failures of taking a token are those of the scanner. -/
theorem unlimited_take (stream : TokenStream) (dry : Position) :
    Unlimited (Cursor.take stream dry) := by
  intro failure reached h he
  unfold Cursor.take at h
  split at h <;> cases h
  cases he

/-- The first cursor of a stream has at most its tokens before it. -/
theorem remaining_start_le {stream : TokenStream} {c : Cursor} (h : Cursor.start stream = .ok c) :
    c.remaining ≤ stream.tokens.length := by
  obtain ⟨tokens, fault⟩ := stream
  unfold Cursor.start Cursor.take at h
  split at h
  next t rest _ htokens =>
    cases h
    subst htokens
    unfold Cursor.remaining
    split
    · exact Nat.zero_le _
    · exact Nat.le_refl _
  next => cases h
  next =>
    cases h
    exact Nat.zero_le _

/-- Going on to the next token never reaches the limit, at the end of the input or before it. -/
theorem unlimited_advance (c : Cursor) : Unlimited c.advance := by
  unfold Cursor.advance
  split
  · exact unlimited_ok c
  · exact unlimited_take _ _

/-- A token that must be of some kind is there, or is reported as mismatched. -/
theorem unlimited_consume (kind : TokenKind) (c : Cursor) : Unlimited (c.consume kind) := by
  unfold Cursor.consume
  split
  · exact (unlimited_advance c).bind fun _ _ => unlimited_ok _
  · exact unlimited_mismatchedToken kind c.current

/-- A level that is not used up by so many tokens. -/
structure Level.Ample (level : Level) (limit : Nat) : Prop where
  expression : ∀ {minimum : Int} {c : Cursor}, 2 * c.remaining < limit →
    Unlimited (level.expression minimum c)
  statement : ∀ {c : Cursor}, 2 * c.remaining + 1 < limit → Unlimited (level.statement c)
  block : ∀ {c : Cursor}, 2 * c.remaining < limit → Unlimited (level.block c)

/-- A further item is read behind a comma, and the comma was a token.  So each item has fewer
tokens left than the list had, and the levels that are enough for these are enough for all. -/
theorem unlimited_moreItems {item : Reading Node} {room : Nat} (hc : Consumes item)
    (hi : ∀ c : Cursor, c.remaining ≤ room → Unlimited (item c)) {bound : Nat} {c : Cursor}
    (hb : c.remaining < bound) (hr : c.remaining ≤ room) : Unlimited (moreItems item bound c) := by
  induction bound generalizing c with
  | zero => omega
  | succ bound ih =>
    simp only [moreItems]
    split
    · refine (unlimited_consume _ c).bind ?_
      rintro ⟨t, d⟩ hd
      obtain ⟨hk, -, ha⟩ := Cursor.consume_eq_ok.mp hd
      have h₁ : d.remaining < c.remaining := remaining_lt_of_kind ha hk (by decide)
      refine (hi d (by omega)).bind ?_
      rintro ⟨n, e⟩ he
      have h₂ := hc he
      exact (ih (c := e) (by omega) (by omega)).bind fun _ _ => unlimited_ok _
    · exact unlimited_ok _

/-- The first item has the tokens that the list has. -/
theorem unlimited_items {item : Reading Node} {room : Nat} (hc : Consumes item)
    (hi : ∀ c : Cursor, c.remaining ≤ room → Unlimited (item c)) {c : Cursor}
    (hr : c.remaining ≤ room) : Unlimited (items item c) := by
  simp only [items]
  split
  · exact unlimited_ok _
  · refine (hi c hr).bind ?_
    rintro ⟨n, d⟩ hd
    have h₁ := hc hd
    have hm := unlimited_moreItems hc hi (Nat.lt_succ_self d.remaining) (by omega)
    exact hm.bind fun _ _ => unlimited_ok _

section Ample

variable {down : Level} {limit : Nat} (hd : down.Consuming) (ha : down.Ample limit)

include hd ha

/-- Each statement leaves fewer tokens to those behind it, and so a level that is enough for the
first is enough for them. -/
theorem unlimited_statements (terminator : TokenKind) {c : Cursor}
    (hc : 2 * c.remaining + 1 < limit) : Unlimited (statements down terminator c) := by
  unfold statements
  have hb : c.remaining < c.remaining + 1 := by omega
  generalize c.remaining + 1 = bound at hb
  induction bound generalizing c with
  | zero => omega
  | succ bound ih =>
    simp only [statementsUpTo]
    split
    · exact unlimited_ok _
    · split
      · exact unlimited_mismatchedToken _ _
      · refine (ha.statement hc).bind ?_
        rintro ⟨n, d⟩ hn
        have h₁ := hd.statement hn
        exact (ih (c := d) (by omega) (by omega)).bind fun _ _ => unlimited_ok _

/-- A block begins with its brace, which pays for the level that its statements need. -/
theorem unlimited_block {c : Cursor} (hc : 2 * c.remaining < limit + 1) :
    Unlimited (block down c) := by
  refine (unlimited_consume _ c).bind ?_
  rintro ⟨t, d⟩ ht
  obtain ⟨hk, -, hadv⟩ := Cursor.consume_eq_ok.mp ht
  have h₁ : d.remaining < c.remaining := remaining_lt_of_kind hadv hk (by decide)
  refine (unlimited_statements (c := d) hd ha _ (by omega)).bind ?_
  rintro ⟨ns, e⟩ _
  exact (unlimited_consume _ e).bind fun _ _ => unlimited_ok _

/-- A branch begins with its keyword, which pays for its predicate and its blocks. -/
theorem unlimited_branch {c : Cursor} (hc : 2 * c.remaining + 1 < limit + 1) :
    Unlimited (branch down c) := by
  refine (unlimited_consume _ c).bind ?_
  rintro ⟨t, d⟩ ht
  obtain ⟨hk, -, hadv⟩ := Cursor.consume_eq_ok.mp ht
  have h₁ : d.remaining < c.remaining := remaining_lt_of_kind hadv hk (by decide)
  refine (ha.expression (c := d) (by omega)).bind ?_
  rintro ⟨p, e⟩ hp
  have h₂ := hd.expression _ hp
  refine (ha.block (c := e) (by omega)).bind ?_
  rintro ⟨q, f⟩ hq
  have h₃ := hd.block hq
  show Unlimited (if f.holds .elseKeyword = true then _ else _)
  split
  · refine (unlimited_consume .elseKeyword f).bind ?_
    rintro ⟨u, g⟩ hu
    obtain ⟨hk', -, hadv'⟩ := Cursor.consume_eq_ok.mp hu
    have h₄ : g.remaining < f.remaining := remaining_lt_of_kind hadv' hk' (by decide)
    exact (ha.block (c := g) (by omega)).bind fun _ _ => unlimited_ok _
  · exact unlimited_ok _

/-- This is the one way down that no token pays for: a statement may be an expression. Therefore a
statement needs one level more than the expression it may begin with, and the limit is twice the
number of tokens. -/
theorem unlimited_statement {c : Cursor} (hc : 2 * c.remaining + 1 < limit + 1) :
    Unlimited (statement down c) := by
  simp only [statement]
  split
  · refine (unlimited_consume _ c).bind ?_
    rintro ⟨t, d⟩ ht
    obtain ⟨hk, -, hadv⟩ := Cursor.consume_eq_ok.mp ht
    have h₁ : d.remaining < c.remaining := remaining_lt_of_kind hadv hk (by decide)
    exact (ha.expression (c := d) (by omega)).bind fun _ _ => unlimited_ok _
  · split
    · exact unlimited_branch hd ha hc
    · exact (ha.expression (by omega)).bind fun _ _ => unlimited_ok _

omit hd in
theorem unlimited_function {c : Cursor} (hc : 2 * c.remaining < limit + 1) :
    Unlimited (function down c) := by
  refine (unlimited_consume _ c).bind ?_
  rintro ⟨t, d⟩ ht
  obtain ⟨hk, -, hadv⟩ := Cursor.consume_eq_ok.mp ht
  have h₁ : d.remaining < c.remaining := remaining_lt_of_kind hadv hk (by decide)
  refine (unlimited_consume _ d).bind ?_
  rintro ⟨u, e⟩ hu
  obtain ⟨hk', -, hadv'⟩ := Cursor.consume_eq_ok.mp hu
  have h₂ : e.remaining < d.remaining := remaining_lt_of_kind hadv' hk' (by decide)
  have hparameter : ∀ c : Cursor, c.remaining ≤ e.remaining → Unlimited (parameter c) :=
    fun c _ => (unlimited_consume _ c).bind fun _ _ => unlimited_ok _
  refine (unlimited_items consumes_parameter hparameter (Nat.le_refl _)).bind ?_
  rintro ⟨ps, f⟩ hps
  have h₃ := remaining_items_le consumes_parameter hps
  refine (unlimited_consume _ f).bind ?_
  rintro ⟨v, g⟩ hv
  obtain ⟨hk'', -, hadv''⟩ := Cursor.consume_eq_ok.mp hv
  have h₄ : g.remaining < f.remaining := remaining_lt_of_kind hadv'' hk'' (by decide)
  exact (ha.block (c := g) (by omega)).bind fun _ _ => unlimited_ok _

/-- The arguments of a call stand behind its parenthesis. -/
theorem unlimited_call (callee : Node) {c : Cursor} (hc : 2 * c.remaining < limit + 1) :
    Unlimited (call down callee c) := by
  refine (unlimited_consume _ c).bind ?_
  rintro ⟨t, d⟩ ht
  obtain ⟨hk, -, hadv⟩ := Cursor.consume_eq_ok.mp ht
  have h₁ : d.remaining < c.remaining := remaining_lt_of_kind hadv hk (by decide)
  have hargument : ∀ c : Cursor, c.remaining ≤ d.remaining → Unlimited (down.expression 0 c) :=
    fun c hc => ha.expression (by omega)
  refine (unlimited_items (hd.expression 0) hargument (Nat.le_refl _)).bind ?_
  rintro ⟨ns, e⟩ _
  exact (unlimited_consume _ e).bind fun _ _ => unlimited_ok _

omit hd in
theorem unlimited_grouping {c : Cursor} (hc : 2 * c.remaining < limit + 1) :
    Unlimited (grouping down c) := by
  refine (unlimited_consume _ c).bind ?_
  rintro ⟨t, d⟩ ht
  obtain ⟨hk, -, hadv⟩ := Cursor.consume_eq_ok.mp ht
  have h₁ : d.remaining < c.remaining := remaining_lt_of_kind hadv hk (by decide)
  refine (ha.expression (c := d) (by omega)).bind ?_
  rintro ⟨n, e⟩ _
  exact (unlimited_consume _ e).bind fun _ _ => unlimited_ok _

omit hd in
theorem unlimited_unary {c : Cursor} (hk : c.current.kind ≠ .endOfInput)
    (hc : 2 * c.remaining < limit + 1) : Unlimited (unary down c) := by
  refine (unlimited_advance c).bind fun d hadv => ?_
  have h₁ := Cursor.remaining_advance_lt hadv hk
  exact (ha.expression (by omega)).bind fun _ _ => unlimited_ok _

omit hd in
theorem unlimited_operand {c : Cursor} (hc : 2 * c.remaining < limit + 1) :
    Unlimited (operand down c) := by
  have hliteral : ∀ n : Node, Unlimited (literal n c) :=
    fun n => (unlimited_advance c).bind fun _ _ => unlimited_ok _
  simp only [operand]
  split
  case h_1 hk | h_2 hk | h_3 hk => exact unlimited_unary ha (by rw [hk]; decide) hc
  case h_4 =>
    refine (unlimited_advance c).bind fun d _ => ?_
    split
    · exact unlimited_ok _
    · intro failure reached h he
      cases h
      cases he
  case h_9 => exact unlimited_function ha hc
  case h_10 => exact unlimited_grouping ha hc
  case h_11 => exact unlimited_unexpectedToken _
  all_goals exact hliteral _

/-- A right operand stands behind its operator, and the arguments of a call behind its parenthesis.
-/
theorem unlimited_operators (minimum : Int) (left : Node) {c : Cursor}
    (hc : 2 * c.remaining < limit + 1) : Unlimited (operators down minimum left c) := by
  unfold operators
  have hb : c.remaining < c.remaining + 1 := by omega
  generalize c.remaining + 1 = bound at hb
  induction bound generalizing left c with
  | zero => omega
  | succ bound ih =>
    simp only [operatorLoop]
    split
    · refine (unlimited_call hd ha left hc).bind ?_
      rintro ⟨whole, d⟩ hw
      have h₁ := consumes_call hd left hw
      exact ih whole (c := d) (by omega) (by omega)
    · cases hop : binding? c.current.kind with
      | none => exact unlimited_ok _
      | some op =>
        obtain ⟨power, grouping⟩ := op
        simp only
        split
        · exact unlimited_ok _
        · have hk : c.current.kind ≠ .endOfInput := by
            intro hk
            rw [hk] at hop
            cases hop
          refine (unlimited_advance c).bind fun d hadv => ?_
          have h₁ := Cursor.remaining_advance_lt hadv hk
          refine (ha.expression (by omega)).bind ?_
          rintro ⟨right, e⟩ hr
          have h₂ := hd.expression _ hr
          exact ih _ (c := e) (by omega) (by omega)

/-- The operand comes first and leaves fewer tokens to the operator loop. -/
theorem unlimited_expression (minimum : Int) {c : Cursor} (hc : 2 * c.remaining < limit + 1) :
    Unlimited (expression down minimum c) := by
  refine (unlimited_operand ha hc).bind ?_
  rintro ⟨left, d⟩ hl
  have h₁ := consumes_operand hd hl
  exact unlimited_operators (c := d) hd ha minimum left (by omega)

end Ample

/-- **Levels are used up by tokens only.** -/
theorem ample_levels (limit : Nat) : (levels limit).Ample limit := by
  induction limit with
  | zero => exact ⟨fun h => by omega, fun h => by omega, fun h => by omega⟩
  | succ limit ih =>
    have hd := consuming_levels limit
    exact ⟨fun h => unlimited_expression hd ih _ h, fun h => unlimited_statement hd ih h,
      fun h => unlimited_block hd ih h⟩

/-- **No program is nested too deeply for a limit that is high enough for its length.** -/
theorem not_tooDeep_of_length {limit : Nat} {stream : TokenStream}
    (h : 2 * stream.tokens.length + 1 < limit) : ¬ TooDeep limit stream := by
  rintro ⟨reached, hp⟩
  cases hc : Cursor.start stream with
  | error e =>
    rw [program, hc] at hp
    cases hp
    exact unlimited_take stream Position.origin _ reached hc rfl
  | ok c =>
    have hr := remaining_start_le hc
    have hs : Unlimited (programFrom limit c) := by
      refine Unlimited.bind ?_ fun _ _ => unlimited_ok _
      exact unlimited_statements (consuming_levels limit) (ample_levels limit) _ (by omega)
    rw [program_of_start hc] at hp
    cases hx : programFrom limit c with
    | error e =>
      rw [hx] at hp
      exact hs e reached hx (Except.error.inj hp)
    | ok tree =>
      rw [hx] at hp
      cases hp

end Grammar
end HangulScript
