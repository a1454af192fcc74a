import HangulScript.Proofs.Grammar.Sources
import HangulScript.Proofs.Rendering.Renderable

/-!
# What is read can be written

Every tree that scanned tokens derive is renderable.  Most of it is read off the tokens one
by one: a number token is a numeral, a string token lacks the quote around it, an operator
has the text of its kind.

That statements are parted needs an argument, because the source may have more parentheses
than the marks.  It never has fewer where it matters: if the tokens of an expression do not
begin with a parenthesis, then down its left edge nothing needs one, and the marks begin with
a token of the same kind (`head_kind_of_derives`).
-/

namespace HangulScript

namespace Token.Scanned

variable {t : Token}

theorem text_eq_sign (h : t.Scanned) (hk : t.kind ∈ signKinds) : t.text.toList = t.kind.sign := by
  have hend : t.kind ≠ .endOfInput := by
    intro he
    rw [he] at hk
    exact absurd hk (by decide)
  obtain ⟨p, l, rfl, hs⟩ := h.ofLexeme hend
  have hstring : l.kind ≠ .string := by
    intro he
    have hk' : l.kind ∈ signKinds := hk
    rw [he] at hk'
    exact absurd hk' (by decide)
  rw [TokenStream.toList_text_tokenAt hstring]
  exact eq_sign_of_spells hs hk

theorem isName (h : t.Scanned) (hk : t.kind = .identifier) : IsName t.text.toList := by
  obtain ⟨p, l, rfl, hs⟩ := h.ofLexeme (by rw [hk]; decide)
  have hkind : l.kind = .identifier := hk
  rw [TokenStream.toList_text_tokenAt (by rw [hkind]; decide)]
  rw [hkind] at hs
  exact isName_of_spells hs

/-- A string token lacks newlines and the quote that was around it. -/
theorem quotable (h : t.Scanned) (hk : t.kind = .string) :
    '\n' ∉ t.text.toList ∧ ('\x27' ∉ t.text.toList ∨ '"' ∉ t.text.toList) := by
  obtain ⟨p, l, rfl, hs⟩ := h.ofLexeme (by rw [hk]; decide)
  have hkind : l.kind = .string := hk
  rw [hkind] at hs
  obtain ⟨quote, content, htext, hq, hquote, hnewline⟩ := content_of_spells hs
  have hcontent : (TokenStream.tokenAt p l).text.toList = content := by
    obtain ⟨-, hmore⟩ := List.cons.inj htext
    show (String.ofList l.text).toList = content
    rw [String.toList_ofList, Lexeme.text, if_pos hkind, hmore, List.dropLast_concat]
  rw [hcontent]
  refine ⟨hnewline, ?_⟩
  rcases hq with rfl | rfl
  · exact Or.inl hquote
  · exact Or.inr hquote

end Token.Scanned

namespace Grammar

open Node

/-! ## The first mark -/

theorem front_of_isUnary {kind : TokenKind} (h : isUnary kind = true) : kind ∈ frontOperators := by
  cases kind <;> first | decide | cases h

theorem infixOperators_signKinds : ∀ kind ∈ infixOperators, kind ∈ signKinds := by decide

theorem frontOperators_signKinds : ∀ kind ∈ frontOperators, kind ∈ signKinds := by decide

/-- What is joined has the stratum of its operator. -/
theorem stratum_joined {op : Token} {tier : Tier} (h : tier? op.kind = some tier)
    (ho : op.Scanned) (left right : Node) : (joined op left right).stratum = tier.own := by
  have hk := mem_infixOperators_of_tier h
  unfold joined
  split
  next he =>
    rw [he] at h
    cases h
    rfl
  next =>
    show (Node.tier op.text).own = tier.own
    rw [tier_of_sign h hk (ho.text_eq_sign (infixOperators_signKinds _ hk))]

/-- What is joined has the marks of its operands around that of its operator. -/
theorem marks_joined {op : Token} {tier : Tier} (h : tier? op.kind = some tier)
    (ho : op.Scanned) (left right : Node) :
    (joined op left right).marks =
      placed tier.left left left.marks ++ .sign op.kind :: placed tier.right right right.marks := by
  have hk := mem_infixOperators_of_tier h
  have hsign := ho.text_eq_sign (infixOperators_signKinds _ hk)
  unfold joined
  split
  next he =>
    rw [he] at h ⊢
    cases h
    rw [marks]
  next =>
    rw [marks, tier_of_sign h hk hsign, infixKind_of_sign hk hsign]

/-- An expression whose tokens begin with no parenthesis is no looser than it is derived, and
its marks begin with a mark of the same kind. -/
theorem head_kind_of_derives {depth : Nat} {s : Stratum} {n : Node} {t : Token}
    {ts : List Token} (h : Derives depth (.expression s n) (t :: ts))
    (hl : ∀ u ∈ t :: ts, u.Scanned) (ht : t.kind ≠ .leftParenthesis) :
    s ≤ n.stratum ∧ ∃ m ∈ n.marks.head?, m.kind = t.kind := by
  generalize hp : Phrase.expression s n = phrase at h
  generalize hts : t :: ts = tokens at h hl
  induction h generalizing s n ts with
  | number hk | string hk | name hk =>
    cases hp
    cases hts
    exact ⟨Stratum.le_refl _, _, rfl, hk.symm⟩
  | trueKeyword hk | falseKeyword hk =>
    cases hp
    cases hts
    exact ⟨Stratum.le_refl _, _, rfl, hk.symm⟩
  | function hk =>
    cases hp
    cases hts
    rw [marks]
    exact ⟨Stratum.le_refl _, _, rfl, hk.symm⟩
  | grouping ho =>
    cases hts
    exact absurd ho ht
  | @call depth callee opening closing args us vs hf _ _ _ ihf =>
    cases hp
    obtain ⟨u, us, rfl, -⟩ := hf.beginsWell
    cases hts
    obtain ⟨hs, m, hm, hk⟩ := ihf rfl rfl fun w hw =>
      hl w (List.mem_append_left _ (List.mem_append_left _ hw))
    refine ⟨Stratum.le_refl _, m, ?_, hk⟩
    rw [marks, placed, if_pos hs, List.head?_append, Option.mem_def.mp hm]
    rfl
  | @unary depth op operand us hk =>
    cases hp
    cases hts
    have hfront := front_of_isUnary hk
    have hsign := (hl t (List.mem_cons_self ..)).text_eq_sign (frontOperators_signKinds _ hfront)
    refine ⟨Stratum.le_refl _, .sign t.kind, ?_, rfl⟩
    rw [marks, frontKind_of_sign hfront hsign]
    rfl
  | @binary depth op tier left right us vs htier hleft _ ihl =>
    cases hp
    obtain ⟨u, us, rfl, -⟩ := hleft.beginsWell
    cases hts
    have hop := hl op (by simp)
    obtain ⟨hs, m, hm, hk⟩ := ihl rfl rfl fun w hw => hl w (List.mem_append_left _ hw)
    refine ⟨?_, m, ?_, hk⟩
    · rw [stratum_joined htier hop]
      exact Stratum.le_refl _
    · rw [marks_joined htier hop, placed, if_pos hs, List.head?_append, Option.mem_def.mp hm]
      rfl
  | looser _ hs ih =>
    cases hp
    obtain ⟨hs', m, hm, hk⟩ := ih rfl hts hl
    exact ⟨Stratum.le_trans hs hs', m, hm, hk⟩
  | _ => cases hp

/-! ## The image -/

/-- An item of a list that can be written. -/
def Item.Fits : Item → Node → Prop
  | .argument => IsExpression
  | .parameter => IsParameter

/-- The tree of the phrase can be written. -/
def Phrase.CanBeWritten : Phrase → Prop
  | .expression _ n => n.IsExpression
  | .parameter n => IsParameter n
  | .items sort ns | .furtherItems sort ns => ∀ n ∈ ns, sort.Fits n
  | .block n => n.IsBlock
  | .statement n => n.IsStatement
  | .statements ns => AreStatements ns
  | .program n => n.Renderable

theorem areExpressions_iff (ns : List Node) : AreExpressions ns ↔ ∀ n ∈ ns, n.IsExpression := by
  induction ns with
  | nil => exact ⟨fun _ _ h => absurd h List.not_mem_nil, fun _ => trivial⟩
  | cons n ns ih => rw [AreExpressions, ih, List.forall_mem_cons]

theorem isExpression_withRange {n : Node} (h : n.IsExpression) (r : Range) :
    (n.withRange r).IsExpression := by
  cases n <;> exact h

theorem fits_of_canBeWritten {sort : Item} {n : Node} (h : (sort.phrase n).CanBeWritten) :
    sort.Fits n := by
  cases sort <;> exact h

theorem isExpression_joined {op : Token} {tier : Tier} {left right : Node}
    (h : tier? op.kind = some tier) (ho : op.Scanned) (hl : left.IsExpression)
    (hr : right.IsExpression) : (joined op left right).IsExpression := by
  have hk := mem_infixOperators_of_tier h
  unfold joined
  split
  next => exact ⟨hl, hr⟩
  next hne =>
    exact ⟨⟨op.kind, hk, hne, ho.text_eq_sign (infixOperators_signKinds _ hk)⟩, hl, hr⟩

/-- An expression statement behind one that its first token would join begins, as written,
with no such token. -/
theorem parted_of_derives {depth : Nat} {first : Node} {others : List Node} {ts : List Token}
    (ho : Derives depth (.statements others) ts) (hl : ∀ t ∈ ts, t.Scanned)
    (hj : endsInExpression first = true → ∀ t ∈ ts.head?, t.kind ∉ joiners) :
    Parted first others := by
  intro hends range e hfirst m hm
  generalize hp : Phrase.statements others = phrase at ho
  cases ho with
  | noStatements =>
    cases hp
    cases hfirst
  | statements hstatement _ _ =>
    cases hp
    obtain rfl := Option.some.inj hfirst
    cases hstatement with
    | expressionStatement he =>
      obtain ⟨t, us, rfl, -⟩ := he.beginsWell
      have hkind := hj hends t rfl
      have hne : t.kind ≠ .leftParenthesis := by
        intro heq
        rw [heq] at hkind
        exact hkind (by decide)
      obtain ⟨-, m', hm', hk⟩ :=
        head_kind_of_derives he (fun u hu => hl u (List.mem_append_left _ hu)) hne
      obtain rfl := Option.mem_unique hm hm'
      rw [hk]
      exact hkind
  | _ => cases hp

/-- **What scanned tokens derive can be written.** -/
theorem canBeWritten_of_derives {depth : Nat} {phrase : Phrase} {ts : List Token}
    (h : Derives depth phrase ts) (hl : ∀ t ∈ ts, t.Scanned) : phrase.CanBeWritten := by
  induction h with
  | number hk hv => exact ⟨_, (hl _ (List.mem_cons_self ..)).plain hk, hv⟩
  | string hk => exact (hl _ (List.mem_cons_self ..)).quotable hk
  | trueKeyword | falseKeyword => trivial
  | name hk => exact (hl _ (List.mem_cons_self ..)).isName hk
  | function _ _ _ _ _ ihp ihb =>
    exact ⟨ihp fun t ht => hl t (by simp [ht]), ihb fun t ht => hl t (by simp [ht])⟩
  | grouping _ _ _ ih => exact isExpression_withRange (ih fun t ht => hl t (by simp [ht])) _
  | call _ _ _ _ ihf iha =>
    exact ⟨ihf fun t ht => hl t (by simp [ht]),
      (areExpressions_iff _).mpr (iha fun t ht => hl t (by simp [ht]))⟩
  | @unary _ op _ _ hk _ ih =>
    have hfront := front_of_isUnary hk
    have hop := (hl op (List.mem_cons_self ..)).text_eq_sign (frontOperators_signKinds _ hfront)
    exact ⟨⟨op.kind, hfront, hop⟩, ih fun t ht => hl t (List.mem_cons_of_mem _ ht)⟩
  | binary ht _ _ ihl ihr =>
    exact isExpression_joined ht (hl _ (by simp)) (ihl fun t ht => hl t (by simp [ht]))
      (ihr fun t ht => hl t (by simp [ht]))
  | looser _ _ ih => exact ih hl
  | parameter hk => exact ⟨_, _, rfl, (hl _ (List.mem_cons_self ..)).isName hk⟩
  | noItems | lastItem => exact fun n hn => absurd hn List.not_mem_nil
  | items _ _ ihf iho =>
    exact List.forall_mem_cons.mpr
      ⟨fits_of_canBeWritten (ihf fun t ht => hl t (by simp [ht])),
        iho fun t ht => hl t (by simp [ht])⟩
  | furtherItem _ _ _ ihf iho =>
    exact List.forall_mem_cons.mpr
      ⟨fits_of_canBeWritten (ihf fun t ht => hl t (by simp [ht])),
        iho fun t ht => hl t (by simp [ht])⟩
  | block _ _ _ ih => exact ih fun t ht => hl t (by simp [ht])
  | expressionStatement _ ih => exact ih hl
  | returnStatement _ _ ih => exact ih fun t ht => hl t (by simp [ht])
  | branch _ _ _ ihp ihc =>
    exact ⟨ihp fun t ht => hl t (by simp [ht]), ihc fun t ht => hl t (by simp [ht]), Or.inl rfl⟩
  | branchElse _ _ _ _ _ ihp ihc iha =>
    exact ⟨ihp fun t ht => hl t (by simp [ht]), ihc fun t ht => hl t (by simp [ht]),
      Or.inr (iha fun t ht => hl t (by simp [ht]))⟩
  | noStatements => trivial
  | statements _ ho hj ihf iho =>
    have hothers := fun t ht => hl t (List.mem_append_right _ ht)
    exact ⟨ihf fun t ht => hl t (List.mem_append_left _ ht), parted_of_derives ho hothers hj,
      iho hothers⟩
  | program _ _ ih => exact ih fun t ht => hl t (List.mem_append_left _ ht)

end Grammar
end HangulScript
