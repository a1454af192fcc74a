import HangulScript.Proofs.Grammar.Derivation
import HangulScript.Proofs.Grammar.Sentence
import HangulScript.Proofs.Scanning.Stream

/-!
# Every reading can be regrouped

A list of tokens that is a program in *some* reading, however its operators are grouped and
wherever its statements are cut, has a derivation in the stratified grammar.

How the reading groups is not followed.  What is shown instead is that the expressions the strata
derive are closed under everything the loose grammar may do: an operator between two of
them (`expresses_infix`), an operator in front (`expresses_unary`), a call behind
(`expresses_call`).  Each of the three takes one expression apart and puts it together again
around the new tokens, and each rests on the one before.  At the bottom is `Expresses.join`: an
operator and one more unary operand can be taken in at the right edge of any expression,
at the place that the strata have for it.

Statements are closed in the same way.  Where an expression is followed by a statement that
begins with `(`, `+` or `-`, the two are one expression (`expresses_append`), so that cutting
later is always possible where cutting earlier was.  All other phrases are closed by a rule of the
stratified grammar each, so that the induction on the reading has one line for putting together and
a few for taking the tokens apart (`OfKinds`).
-/

namespace HangulScript

namespace Grammar

/-- Tokens that derive a phrase of some sort, at some depth and with some tree. -/
def Derivable {α : Type} (phrase : α → Phrase) (ts : List Token) : Prop :=
  ∃ depth tree, Derives depth (phrase tree) ts

/-- Two derivations can be brought to one depth. -/
theorem Derivable.common {α β : Type} {phrase : α → Phrase} {phrase' : β → Phrase}
    {ts us : List Token} (h : Derivable phrase ts) (h' : Derivable phrase' us) :
    ∃ depth tree tree', Derives depth (phrase tree) ts ∧ Derives depth (phrase' tree') us := by
  obtain ⟨m, a, ha⟩ := h
  obtain ⟨n, b, hb⟩ := h'
  exact ⟨max m n, a, b, ha.deeper (Nat.le_max_left m n), hb.deeper (Nat.le_max_right m n)⟩

/-- Tokens that are an expression of a stratum. -/
abbrev Expresses (s : Stratum) (ts : List Token) : Prop := Derivable (.expression s) ts

/-! ## Expressions, depth and tree aside -/

section Rules

variable {s t : Stratum} {ts us : List Token} {opening closing op : Token}

theorem Expresses.looser (h : Expresses s ts) (ht : t ≤ s) : Expresses t ts := by
  obtain ⟨depth, n, hn⟩ := h
  exact ⟨depth, n, .looser hn ht⟩

theorem Expresses.grouping (h : Expresses .assignment ts) (ho : opening.kind = .leftParenthesis)
    (hc : closing.kind = .rightParenthesis) : Expresses .primary (opening :: ts ++ [closing]) := by
  obtain ⟨depth, n, hn⟩ := h
  exact ⟨depth + 1, _, .grouping ho hn hc⟩

theorem Expresses.call (h : Expresses .call ts) (ho : opening.kind = .leftParenthesis)
    (ha : Derivable (.items .argument) us) (hc : closing.kind = .rightParenthesis) :
    Expresses .call (ts ++ opening :: us ++ [closing]) := by
  obtain ⟨depth, n, ns, hn, hns⟩ := h.common ha
  exact ⟨depth + 1, _, .call hn.succ ho hns hc⟩

theorem Expresses.unary (h : Expresses .unary ts) (hk : isUnary op.kind = true) :
    Expresses .unary (op :: ts) := by
  obtain ⟨depth, n, hn⟩ := h
  exact ⟨depth + 1, _, .unary hk hn⟩

theorem Expresses.binary {tier : Tier} (hl : Expresses tier.left ts)
    (ht : tier? op.kind = some tier) (hr : Expresses tier.right us) :
    Expresses tier.own (ts ++ op :: us) := by
  obtain ⟨depth, n, n', hn, hn'⟩ := hl.common hr
  exact ⟨depth + 1, _, .binary ht hn.succ hn'⟩

/-- Induction over the ways an expression is made.  The primary expressions that begin with
no parenthesis are one case: nothing is ever done inside them. -/
theorem Expresses.induction {motive : (s : Stratum) → (ts : List Token) → Expresses s ts → Prop}
    (solid : ∀ {ts : List Token} (h : Expresses .primary ts),
      (∀ t ∈ ts.head?, t.kind ∉ joiners) → motive .primary ts h)
    (grouping : ∀ {opening closing : Token} {ts : List Token}
      (ho : opening.kind = .leftParenthesis) (h : Expresses .assignment ts)
      (hc : closing.kind = .rightParenthesis), motive .primary _ (h.grouping ho hc))
    (call : ∀ {opening closing : Token} {ts us : List Token} (h : Expresses .call ts),
      motive .call ts h → ∀ (ho : opening.kind = .leftParenthesis)
      (ha : Derivable (.items .argument) us) (hc : closing.kind = .rightParenthesis),
      motive .call _ (h.call ho ha hc))
    (unary : ∀ {op : Token} {ts : List Token} (hk : isUnary op.kind = true)
      (h : Expresses .unary ts), motive .unary ts h → motive .unary _ (h.unary hk))
    (binary : ∀ {op : Token} {tier : Tier} {ts us : List Token} (ht : tier? op.kind = some tier)
      (hl : Expresses tier.left ts), motive tier.left ts hl →
      ∀ hr : Expresses tier.right us, motive tier.right us hr → motive tier.own _ (hl.binary ht hr))
    (looser : ∀ {s t : Stratum} {ts : List Token} (h : Expresses s ts), motive s ts h →
      ∀ hts : t ≤ s, motive t ts (h.looser hts))
    {s : Stratum} {ts : List Token} (h : Expresses s ts) : motive s ts h := by
  have token : ∀ {t : Token} {n : Node}, Derives 1 (.expression .primary n) [t] →
      t.kind ∉ joiners → ∀ h, motive .primary [t] h := by
    intro t n hn hk h
    refine solid h fun u hu => ?_
    cases hu
    exact hk
  have hd := h
  obtain ⟨depth, tree, hd⟩ := hd
  generalize hp : Phrase.expression s tree = phrase at hd
  induction hd generalizing s tree with
  | number hk hv =>
    cases hp
    exact token (.number hk hv) (by rw [hk]; decide) _
  | string hk =>
    cases hp
    exact token (.string hk) (by rw [hk]; decide) _
  | trueKeyword hk =>
    cases hp
    exact token (.trueKeyword hk) (by rw [hk]; decide) _
  | falseKeyword hk =>
    cases hp
    exact token (.falseKeyword hk) (by rw [hk]; decide) _
  | name hk =>
    cases hp
    exact token (.name hk) (by rw [hk]; decide) _
  | @function depth keyword opening closing params body ts us hk ho hps hc hb =>
    cases hp
    refine solid ⟨depth + 1, _, .function hk ho hps hc hb⟩ fun t ht => ?_
    cases ht
    rw [hk]
    decide
  | grouping ho hx hc =>
    cases hp
    exact grouping ho ⟨_, _, hx⟩ hc
  | call hf ho ha hc ih =>
    cases hp
    exact call ⟨_, _, hf⟩ (ih _ _ rfl) ho ⟨_, _, ha⟩ hc
  | unary hk hx ih =>
    cases hp
    exact unary hk ⟨_, _, hx⟩ (ih _ _ rfl)
  | binary ht hl hr ihl ihr =>
    cases hp
    exact binary ht ⟨_, _, hl⟩ (ihl _ _ rfl) ⟨_, _, hr⟩ (ihr _ _ rfl)
  | looser hd hs ih =>
    cases hp
    exact looser ⟨_, _, hd⟩ (ih _ _ rfl) hs
  | _ => cases hp

end Rules

/-! ## Other phrases, depth and tree aside -/

section Phrases

variable {ts us vs : List Token} {sort : Item} {keyword opening between closing comma : Token}

theorem Expresses.function (hk : keyword.kind = .functionKeyword)
    (ho : opening.kind = .leftParenthesis) (hp : Derivable (.items .parameter) ts)
    (hc : closing.kind = .rightParenthesis) (hb : Derivable .block us) :
    Expresses .primary (keyword :: opening :: ts ++ closing :: us) := by
  obtain ⟨depth, ps, b, hps, hb⟩ := hp.common hb
  exact ⟨depth + 1, _, .function hk ho hps hc hb⟩

theorem derivable_items (hf : Derivable sort.phrase ts) (ho : Derivable (.furtherItems sort) us) :
    Derivable (.items sort) (ts ++ us) := by
  obtain ⟨depth, n, ns, hn, hns⟩ := hf.common ho
  exact ⟨depth, n :: ns, .items hn hns⟩

theorem derivable_furtherItem (hk : comma.kind = .comma) (hf : Derivable sort.phrase ts)
    (ho : Derivable (.furtherItems sort) us) :
    Derivable (.furtherItems sort) (comma :: ts ++ us) := by
  obtain ⟨depth, n, ns, hn, hns⟩ := hf.common ho
  exact ⟨depth, n :: ns, .furtherItem hk hn hns⟩

theorem derivable_parameter {t : Token} (hk : t.kind = .identifier) :
    Derivable Item.parameter.phrase [t] :=
  ⟨0, _, .parameter hk⟩

theorem derivable_block (ho : opening.kind = .leftBrace) (h : Derivable .statements ts)
    (hc : closing.kind = .rightBrace) : Derivable .block (opening :: ts ++ [closing]) := by
  obtain ⟨depth, ns, hns⟩ := h
  exact ⟨depth + 1, _, .block ho hns hc⟩

theorem derivable_expressionStatement (h : Expresses .assignment ts) : Derivable .statement ts := by
  obtain ⟨depth, n, hn⟩ := h
  exact ⟨depth + 1, _, .expressionStatement hn⟩

theorem derivable_returnStatement (hk : keyword.kind = .returnKeyword)
    (h : Expresses .assignment ts) : Derivable .statement (keyword :: ts) := by
  obtain ⟨depth, n, hn⟩ := h
  exact ⟨depth + 1, _, .returnStatement hk hn⟩

theorem derivable_branch (hk : keyword.kind = .ifKeyword) (hp : Expresses .assignment ts)
    (hc : Derivable .block us) : Derivable .statement (keyword :: ts ++ us) := by
  obtain ⟨depth, p, c, hp, hc⟩ := hp.common hc
  exact ⟨depth + 1, _, .branch hk hp hc⟩

theorem derivable_branchElse (hk : keyword.kind = .ifKeyword) (hp : Expresses .assignment ts)
    (hc : Derivable .block us) (he : between.kind = .elseKeyword) (ha : Derivable .block vs) :
    Derivable .statement (keyword :: ts ++ us ++ between :: vs) := by
  obtain ⟨depth, p, c, hp, hc⟩ := hp.common hc
  obtain ⟨depth', a, ha⟩ := ha
  have hp' := hp.deeper (Nat.le_max_left depth depth')
  have hc' := hc.deeper (Nat.le_max_left depth depth')
  have ha' := ha.deeper (Nat.le_max_right depth depth')
  exact ⟨_, _, .branchElse hk hp' hc' he ha'⟩

theorem derivable_program {final : Token} (h : Derivable .statements ts)
    (hk : final.kind = .endOfInput) : Derivable .program (ts ++ [final]) := by
  obtain ⟨depth, ns, hns⟩ := h
  exact ⟨depth, _, .program hns hk⟩

end Phrases

/-! ## Taking in one more operand -/

/-- The looser of two strata. -/
def Stratum.min (s t : Stratum) : Stratum := if s ≤ t then s else t

theorem Stratum.min_le_left (s t : Stratum) : s.min t ≤ s := by
  unfold Stratum.min
  split
  case isTrue => exact Stratum.le_refl s
  case isFalse h => exact Nat.le_of_lt (Nat.lt_of_not_le h)

theorem Stratum.min_le_right (s t : Stratum) : s.min t ≤ t := by
  unfold Stratum.min
  split
  case isTrue h => exact h
  case isFalse => exact Stratum.le_refl t

theorem Stratum.le_min {s t u : Stratum} (h : u ≤ s) (h' : u ≤ t) : u ≤ s.min t := by
  unfold Stratum.min
  split
  case isTrue => exact h
  case isFalse => exact h'

/-- An operand of any operator may be unary. -/
theorem le_unary_of_tier {kind : TokenKind} {tier : Tier} (h : tier? kind = some tier) :
    tier.left ≤ .unary ∧ tier.right ≤ .unary := by
  cases kind <;> cases h <;> decide

/-- If an operator does not take an expression as its left operand because that is looser,
then it may stand in the right operand of the operator of that expression. -/
theorem right_le_own_of_not_left_le {kind kind' : TokenKind} {tier tier' : Tier}
    (h : tier? kind = some tier) (h' : tier? kind' = some tier') (hn : ¬ tier'.left ≤ tier.own) :
    tier.right ≤ tier'.own := by
  cases kind <;> cases h <;> cases kind' <;> cases h' <;> revert hn <;> decide

section Join

variable {s : Stratum} {ts us : List Token} {op : Token} {tier : Tier}

theorem Expresses.join_tight (h : Expresses s ts) (hs : .unary ≤ s)
    (ht : tier? op.kind = some tier) (hu : Expresses .unary us) :
    Expresses (s.min tier.own) (ts ++ op :: us) := by
  obtain ⟨hl, hr⟩ := le_unary_of_tier ht
  exact ((h.looser (Stratum.le_trans hl hs)).binary ht (hu.looser hr)).looser
    (Stratum.min_le_right _ _)

/-- **An operator and a unary operand can be taken in behind any expression.**  The result is
no looser than the looser of the two. -/
theorem Expresses.join (h : Expresses s ts) (ht : tier? op.kind = some tier)
    (hu : Expresses .unary us) : Expresses (s.min tier.own) (ts ++ op :: us) := by
  induction h using Expresses.induction with
  | solid h _ => exact h.join_tight (by decide) ht hu
  | grouping ho h hc => exact (h.grouping ho hc).join_tight (by decide) ht hu
  | call h _ ho ha hc => exact (h.call ho ha hc).join_tight (by decide) ht hu
  | unary hk h _ => exact (h.unary hk).join_tight (by decide) ht hu
  | @binary op' tier' ts vs ht' hl _ hr ihr =>
    by_cases hle : tier.left ≤ tier'.own
    · have hwhole := (hl.binary ht' hr).looser hle
      have hright := hu.looser (le_unary_of_tier ht).2
      exact (hwhole.binary ht hright).looser (Stratum.min_le_right _ _)
    · have hown := right_le_own_of_not_left_le ht' ht hle
      have hright := ihr.looser (Stratum.le_min (Stratum.le_refl _) hown)
      have := (hl.binary ht' hright).looser (Stratum.min_le_left tier'.own tier.own)
      rwa [List.append_assoc]
  | looser _ ih hts =>
    exact ih.looser (Stratum.le_min (Stratum.le_trans (Stratum.min_le_left _ _) hts)
      (Stratum.min_le_right _ _))

end Join

/-! ## The three closure properties -/

section Closure

variable {s t : Stratum} {ts us : List Token} {opening closing op : Token}

theorem exists_tier_of_infix {kind : TokenKind} (h : kind ∈ infixOperators) :
    ∃ tier, tier? kind = some tier := by
  have ht : ∀ k ∈ infixOperators, (tier? k).isSome := by decide
  exact Option.isSome_iff_exists.mp (ht kind h)

theorem mem_infixOperators_of_tier {kind : TokenKind} {tier : Tier}
    (h : tier? kind = some tier) : kind ∈ infixOperators := by
  cases kind <;> cases h <;> decide

/-- Any expression is one of the loosest stratum. -/
theorem Expresses.loosest (h : Expresses s ts) : Expresses .assignment ts :=
  h.looser (Stratum.assignment_le s)

/-- Two expressions with an operator between them are one. -/
theorem expresses_infix (h : Expresses .assignment ts) (ho : op.kind ∈ infixOperators)
    (h' : Expresses t us) : Expresses .assignment (ts ++ op :: us) := by
  obtain ⟨tier, htier⟩ := exists_tier_of_infix ho
  induction h' using Expresses.induction generalizing ts op tier with
  | solid h' _ => exact (h.join htier (h'.looser (by decide))).loosest
  | grouping hb h' hc =>
    exact (h.join htier ((h'.grouping hb hc).looser (by decide))).loosest
  | call h' _ hb ha hc => exact (h.join htier ((h'.call hb ha hc).looser (by decide))).loosest
  | unary hk h' _ => exact (h.join htier (h'.unary hk)).loosest
  | @binary op' tier' us vs ht' _ ihl _ ihr =>
    have hleft := ihl h ho tier htier
    have := ihr hleft (mem_infixOperators_of_tier ht') tier' ht'
    rwa [List.append_assoc, List.cons_append] at this
  | looser _ ih _ => exact ih h ho tier htier

/-- An operator in front of an expression makes an expression. -/
theorem expresses_unary (hk : isUnary op.kind = true) (h : Expresses s ts) :
    Expresses .assignment (op :: ts) := by
  induction h using Expresses.induction with
  | solid h _ => exact ((h.looser (by decide)).unary hk).loosest
  | grouping hb h hc => exact (((h.grouping hb hc).looser (by decide)).unary hk).loosest
  | call h _ hb ha hc => exact (((h.call hb ha hc).looser (by decide)).unary hk).loosest
  | unary hk' h _ => exact ((h.unary hk').unary hk).loosest
  | binary ht _ ihl hr _ => exact expresses_infix ihl (mem_infixOperators_of_tier ht) hr
  | looser _ ih _ => exact ih

/-- A call of an expression is an expression. -/
theorem expresses_call (h : Expresses s ts) (ho : opening.kind = .leftParenthesis)
    (ha : Derivable (.items .argument) us) (hc : closing.kind = .rightParenthesis) :
    Expresses .assignment (ts ++ opening :: us ++ [closing]) := by
  induction h using Expresses.induction with
  | solid h _ => exact ((h.looser (by decide)).call ho ha hc).loosest
  | grouping hb h hd =>
    exact (((h.grouping hb hd).looser (by decide)).call ho ha hc).loosest
  | call h _ hb ha' hd => exact ((h.call hb ha' hd).call ho ha hc).loosest
  | unary hk _ ih => exact expresses_unary hk ih
  | binary ht hl _ _ ihr =>
    have := expresses_infix hl.loosest (mem_infixOperators_of_tier ht) ihr
    simpa only [List.append_assoc, List.cons_append] using this
  | looser _ ih _ => exact ih

/-- An expression is also an argument list of its own. -/
theorem Expresses.items (h : Expresses .assignment ts) : Derivable (.items .argument) ts := by
  have hall : Derivable (.items .argument) (ts ++ []) := derivable_items h ⟨0, [], .lastItem⟩
  rwa [List.append_nil] at hall

/-- **Two expressions in a row are one**, if the second begins with a token that the first
would take. -/
theorem expresses_append (h : Expresses .assignment ts) (h' : Expresses t us)
    (hj : ∃ u ∈ us.head?, u.kind ∈ joiners) : Expresses .assignment (ts ++ us) := by
  induction h' using Expresses.induction with
  | solid _ hn =>
    obtain ⟨u, hu, hk⟩ := hj
    exact absurd hk (hn u hu)
  | grouping hb h' hc =>
    have := expresses_call h hb h'.items hc
    rwa [List.append_assoc] at this
  | @call opening closing us vs h' ih hb ha hc =>
    obtain ⟨u, hu, hk⟩ := hj
    obtain ⟨depth, n, hn⟩ := h'
    have hwhole := ih ⟨u, ?_, hk⟩
    · have := expresses_call hwhole hb ha hc
      simpa only [List.append_assoc] using this
    · obtain ⟨v, rest, rfl, -⟩ := hn.beginsWell
      exact hu
  | @unary op us hk h' _ =>
    obtain ⟨u, hu, hk'⟩ := hj
    cases hu
    have hop : ∀ k ∈ joiners, isUnary k = true → k ∈ infixOperators := by decide
    exact expresses_infix h (hop _ hk' hk) h'
  | @binary op tier us vs ht hl ihl hr _ =>
    obtain ⟨u, hu, hk⟩ := hj
    obtain ⟨depth, n, hn⟩ := hl
    have hwhole := ihl ⟨u, ?_, hk⟩
    · have := expresses_infix hwhole (mem_infixOperators_of_tier ht) hr
      rwa [List.append_assoc] at this
    · obtain ⟨v, rest, rfl, -⟩ := hn.beginsWell
      exact hu
  | looser _ ih _ => exact ih hj

end Closure

/-! ## Statements -/

section Statements

variable {ts us : List Token} {keyword : Token}

/-- In a statement that ends in an expression, that expression can be exchanged. -/
theorem exists_ending {n : Node} {depth : Nat} (h : Derives depth (.statement n) ts)
    (hn : endsInExpression n = true) :
    ∃ opening body, ts = opening ++ body ∧ Expresses .assignment body ∧
      ∀ {body' : List Token}, Expresses .assignment body' →
        Derivable .statement (opening ++ body') := by
  cases h with
  | expressionStatement h =>
    exact ⟨[], ts, rfl, ⟨_, _, h⟩, derivable_expressionStatement⟩
  | @returnStatement _ keyword _ body hk h =>
    exact ⟨[keyword], body, rfl, ⟨_, _, h⟩, derivable_returnStatement hk⟩
  | branch | branchElse => cases hn

/-- A statement that begins with a token that an expression would take is an expression. -/
theorem expresses_of_statement {n : Node} {depth : Nat} (h : Derives depth (.statement n) ts)
    (hj : ∃ t ∈ ts.head?, t.kind ∈ joiners) :
    endsInExpression n = true ∧ Expresses .assignment ts := by
  obtain ⟨t, ht, hk⟩ := hj
  cases h with
  | expressionStatement h => exact ⟨rfl, _, _, h⟩
  | returnStatement hr | branch hr | branchElse hr =>
    cases ht
    rw [hr] at hk
    exact absurd hk (by decide)

/-- **A statement can be put before any statements.**  Where it would take the first of them,
the two are one statement. -/
theorem derivable_statements_cons (h : Derivable .statement ts) (h' : Derivable .statements us) :
    Derivable .statements (ts ++ us) := by
  obtain ⟨depth, n, ns, hn, hns⟩ := h.common h'
  by_cases hj : endsInExpression n = true ∧ ∃ t ∈ us.head?, t.kind ∈ joiners
  · obtain ⟨he, t, ht, hk⟩ := hj
    cases hns with
    | noStatements => cases ht
    | @statements _ m _ vs ws hm hos hjs =>
      obtain ⟨v, rest, rfl, -⟩ := hm.beginsWell
      obtain ⟨hme, hvs⟩ := expresses_of_statement hm ⟨t, ht, hk⟩
      obtain ⟨opening, body, rfl, hbody, hother⟩ := exists_ending hn he
      have hwhole := hother (expresses_append hbody hvs ⟨t, ht, hk⟩)
      obtain ⟨depth', n', hn'⟩ := hwhole
      have hd := Derives.statements (hn'.deeper (Nat.le_max_left depth' depth))
        (hos.deeper (Nat.le_max_right depth' depth)) (fun _ => hjs hme)
      rw [List.append_assoc, List.append_assoc] at hd
      rw [List.append_assoc]
      exact ⟨_, _, hd⟩
  · refine ⟨depth, n :: ns, .statements hn hns fun he t ht hk => ?_⟩
    exact hj ⟨he, t, ht, hk⟩

end Statements

/-! ## The loose grammar and the strata -/

/-- The phrases that tokens of a category derive. -/
def Category.Derived : Category → List Token → Prop
  | expression => Expresses .assignment
  | arguments => Derivable (.items .argument)
  | furtherArguments => Derivable (.furtherItems .argument)
  | parameters => Derivable (.items .parameter)
  | furtherParameters => Derivable (.furtherItems .parameter)
  | block => Derivable .block
  | statement => Derivable .statement
  | statements => Derivable .statements
  | program => Derivable .program

/-- A literal of the loose grammar is a literal of the strata. -/
theorem expresses_literal {t : Token} (hk : t.kind ∈ literals) (hv : t.Valued) :
    Expresses .primary [t] := by
  simp only [literals, List.mem_cons, List.not_mem_nil, or_false] at hk
  rcases hk with hk | hk | hk | hk
  · obtain ⟨value, hvalue⟩ := hv hk
    exact ⟨1, _, .number hk hvalue⟩
  · exact ⟨1, _, .string hk⟩
  · exact ⟨1, _, .trueKeyword hk⟩
  · exact ⟨1, _, .falseKeyword hk⟩

/-! ### Tokens of given kinds -/

/-- Tokens that are of these kinds, one after the other, and whose numerals have values. -/
def OfKinds (kinds : List TokenKind) (ts : List Token) : Prop :=
  ts.map Token.kind = kinds ∧ ∀ t ∈ ts, t.Valued

section OfKinds

variable {k : TokenKind} {ks ks' : List TokenKind} {ts : List Token}

theorem OfKinds.nil (h : OfKinds [] ts) : ts = [] := List.map_eq_nil_iff.mp h.1

theorem OfKinds.cons (h : OfKinds (k :: ks) ts) :
    ∃ t rest, ts = t :: rest ∧ t.kind = k ∧ t.Valued ∧ OfKinds ks rest := by
  obtain ⟨t, rest, rfl, hk, hks⟩ := List.map_eq_cons_iff.mp h.1
  obtain ⟨ht, hrest⟩ := List.forall_mem_cons.mp h.2
  exact ⟨t, rest, rfl, hk, ht, hks, hrest⟩

theorem OfKinds.append (h : OfKinds (ks ++ ks') ts) :
    ∃ front back, ts = front ++ back ∧ OfKinds ks front ∧ OfKinds ks' back := by
  obtain ⟨front, back, rfl, hf, hb⟩ := List.map_eq_append_iff.mp h.1
  obtain ⟨hvf, hvb⟩ := List.forall_mem_append.mp h.2
  exact ⟨front, back, rfl, ⟨hf, hvf⟩, hb, hvb⟩

theorem OfKinds.concat (h : OfKinds (ks ++ [k]) ts) :
    ∃ front last, ts = front ++ [last] ∧ OfKinds ks front ∧ last.kind = k := by
  obtain ⟨front, back, rfl, hf, hb⟩ := h.append
  obtain ⟨last, rest, rfl, hk, -, hrest⟩ := hb.cons
  obtain rfl := hrest.nil
  exact ⟨front, last, rfl, hf, hk⟩

end OfKinds

/-- **What some reading accepts is derived.** -/
theorem derived_of_reads {category : Category} {kinds : List TokenKind}
    (h : Reads category kinds) {ts : List Token} (hts : OfKinds kinds ts) :
    category.Derived ts := by
  induction h generalizing ts with
  -- Expressions
  | binary _ ho _ ihl ihr =>
    obtain ⟨as, rest, rfl, ha, hrest⟩ := hts.append
    obtain ⟨op, bs, rfl, rfl, -, hb⟩ := hrest.cons
    exact expresses_infix (ihl ha) ho (ihr hb)
  | unary ho _ ih =>
    obtain ⟨op, as, rfl, rfl, -, ha⟩ := hts.cons
    have hu : ∀ k ∈ frontOperators, isUnary k = true := by decide
    exact expresses_unary (hu _ ho) (ih ha)
  | call _ _ ihf iha =>
    obtain ⟨front, closing, rfl, hfront, hc⟩ := hts.concat
    obtain ⟨as, rest, rfl, ha, hrest⟩ := hfront.append
    obtain ⟨opening, bs, rfl, ho, -, hb⟩ := hrest.cons
    exact expresses_call (ihf ha) ho (iha hb) hc
  | grouping _ ih =>
    obtain ⟨front, closing, rfl, hfront, hc⟩ := hts.concat
    obtain ⟨opening, as, rfl, ho, -, ha⟩ := hfront.cons
    exact (Expresses.grouping (ih ha) ho hc).loosest
  | literal hk =>
    obtain ⟨t, rest, rfl, rfl, hv, hrest⟩ := hts.cons
    obtain rfl := hrest.nil
    exact (expresses_literal hk hv).loosest
  | name =>
    obtain ⟨t, rest, rfl, hk, -, hrest⟩ := hts.cons
    obtain rfl := hrest.nil
    exact Expresses.loosest ⟨1, _, .name hk⟩
  | function _ _ ihp ihb =>
    obtain ⟨front, back, rfl, hfront, hback⟩ := hts.append
    obtain ⟨closing, bs, rfl, hc, -, hb⟩ := hback.cons
    obtain ⟨keyword, rest, rfl, hk, -, hrest⟩ := hfront.cons
    obtain ⟨opening, as, rfl, ho, -, ha⟩ := hrest.cons
    exact (Expresses.function hk ho (ihp ha) hc (ihb hb)).loosest
  -- Lists of arguments and parameters
  | noArguments | noParameters =>
    obtain rfl := hts.nil
    exact ⟨0, [], .noItems⟩
  | lastArgument | lastParameter =>
    obtain rfl := hts.nil
    exact ⟨0, [], .lastItem⟩
  | arguments _ _ ihf iho =>
    obtain ⟨as, bs, rfl, ha, hb⟩ := hts.append
    exact derivable_items (ihf ha) (iho hb)
  | furtherArgument _ _ ihf iho =>
    obtain ⟨front, bs, rfl, hfront, hb⟩ := hts.append
    obtain ⟨comma, as, rfl, hk, -, ha⟩ := hfront.cons
    exact derivable_furtherItem hk (ihf ha) (iho hb)
  | parameters _ ih =>
    obtain ⟨t, as, rfl, hk, -, ha⟩ := hts.cons
    exact derivable_items (derivable_parameter hk) (ih ha)
  | furtherParameter _ ih =>
    obtain ⟨comma, rest, rfl, hc, -, hrest⟩ := hts.cons
    obtain ⟨t, as, rfl, hk, -, ha⟩ := hrest.cons
    exact derivable_furtherItem hc (derivable_parameter hk) (ih ha)
  -- Statements
  | block _ ih =>
    obtain ⟨front, closing, rfl, hfront, hc⟩ := hts.concat
    obtain ⟨opening, as, rfl, ho, -, ha⟩ := hfront.cons
    exact derivable_block ho (ih ha) hc
  | expressionStatement _ ih => exact derivable_expressionStatement (ih hts)
  | returnStatement _ ih =>
    obtain ⟨keyword, as, rfl, hk, -, ha⟩ := hts.cons
    exact derivable_returnStatement hk (ih ha)
  | branch _ _ ihp ihc =>
    obtain ⟨front, bs, rfl, hfront, hb⟩ := hts.append
    obtain ⟨keyword, as, rfl, hk, -, ha⟩ := hfront.cons
    exact derivable_branch hk (ihp ha) (ihc hb)
  | branchElse _ _ _ ihp ihc iha =>
    obtain ⟨front, back, rfl, hfront, hback⟩ := hts.append
    obtain ⟨between, ds, rfl, he, -, hd⟩ := hback.cons
    obtain ⟨before, bs, rfl, hbefore, hb⟩ := hfront.append
    obtain ⟨keyword, as, rfl, hk, -, ha⟩ := hbefore.cons
    exact derivable_branchElse hk (ihp ha) (ihc hb) he (iha hd)
  | noStatements =>
    obtain rfl := hts.nil
    exact ⟨0, [], .noStatements⟩
  | statements _ _ ihf iho =>
    obtain ⟨as, bs, rfl, ha, hb⟩ := hts.append
    exact derivable_statements_cons (ihf ha) (iho hb)
  | program _ ih =>
    obtain ⟨as, final, rfl, ha, hk⟩ := hts.concat
    exact derivable_program (ih ha) hk

/-! ## Derivations are readings -/

/-- What a phrase is in the loose grammar, which has no category for one parameter. -/
def Phrase.Reads : Phrase → List TokenKind → Prop
  | .expression .., ks => Grammar.Reads .expression ks
  | .parameter _, ks => ks = [.identifier]
  | .items .argument _, ks => Grammar.Reads .arguments ks
  | .items .parameter _, ks => Grammar.Reads .parameters ks
  | .furtherItems .argument _, ks => Grammar.Reads .furtherArguments ks
  | .furtherItems .parameter _, ks => Grammar.Reads .furtherParameters ks
  | .block _, ks => Grammar.Reads .block ks
  | .statement _, ks => Grammar.Reads .statement ks
  | .statements _, ks => Grammar.Reads .statements ks
  | .program _, ks => Grammar.Reads .program ks

/-- What is derived is a reading of its tokens. -/
theorem Derives.reads {depth : Nat} {phrase : Phrase} {ts : List Token}
    (h : Derives depth phrase ts) : phrase.Reads (ts.map Token.kind) := by
  induction h with
  | number hk | string hk | trueKeyword hk | falseKeyword hk =>
    rw [List.map_singleton, hk]
    exact .literal (by decide)
  | name hk =>
    rw [List.map_singleton, hk]
    exact .name
  | function hk ho _ hc _ ihp ihb =>
    simp only [List.map_append, List.map_cons, hk, ho, hc]
    exact .function ihp ihb
  | grouping ho _ hc ih =>
    simp only [List.map_append, List.map_cons, List.map_nil, ho, hc]
    exact .grouping ih
  | call _ ho _ hc ihf iha =>
    simp only [List.map_append, List.map_cons, List.map_nil, ho, hc]
    exact .call ihf iha
  | @unary _ op _ _ hk _ ih =>
    have hu : ∀ k ∈ TokenKind.all, isUnary k = true → k ∈ frontOperators := by decide
    exact .unary (hu op.kind (TokenKind.mem_all _) hk) ih
  | binary ht _ _ ihl ihr =>
    simp only [List.map_append, List.map_cons]
    exact .binary ihl (mem_infixOperators_of_tier ht) ihr
  | looser _ _ ih => exact ih
  | parameter hk =>
    rw [List.map_singleton, hk]
    rfl
  | @noItems _ sort =>
    cases sort
    · exact .noArguments
    · exact .noParameters
  | @items _ sort _ _ _ _ _ _ ihf iho =>
    rw [List.map_append]
    cases sort with
    | argument => exact .arguments ihf iho
    | parameter =>
      rw [show List.map _ _ = _ from ihf]
      exact .parameters iho
  | @lastItem _ sort =>
    cases sort
    · exact .lastArgument
    · exact .lastParameter
  | @furtherItem _ sort _ _ _ _ _ hk _ _ ihf iho =>
    simp only [List.map_append, List.map_cons, hk]
    cases sort with
    | argument => exact .furtherArgument ihf iho
    | parameter =>
      rw [show List.map _ _ = _ from ihf]
      exact .furtherParameter iho
  | block ho _ hc ih =>
    simp only [List.map_append, List.map_cons, List.map_nil, ho, hc]
    exact .block ih
  | expressionStatement _ ih => exact .expressionStatement ih
  | returnStatement hk _ ih =>
    rw [List.map_cons, hk]
    exact .returnStatement ih
  | branch hk _ _ ihp ihc =>
    simp only [List.map_append, List.map_cons, hk]
    exact .branch ihp ihc
  | branchElse hk _ _ he _ ihp ihc iha =>
    simp only [List.map_append, List.map_cons, hk, he]
    exact .branchElse ihp ihc iha
  | noStatements => exact .noStatements
  | statements _ _ _ ihf iho =>
    rw [List.map_append]
    exact .statements ihf iho
  | program _ hk ih =>
    simp only [List.map_append, List.map_cons, List.map_nil, hk]
    exact .program ih

end Grammar
end HangulScript
