import HangulScript.Proofs.Grammar.Soundness

/-!
# What a minimum decides

The minimum with which an expression is read is compared with powers in the operator loop
and nowhere else.  The right operands are read with minimums of their own, which come from the
operators; so two readings from one place with different minimums go the same way until the
higher one stops, and then the lower one goes on with what the higher one has in hand.

That is the equation `operators_eq_bind`: the loop with the lower minimum is the loop with the
higher one, and then the loop with the lower one again.  It holds for outcomes of any kind.
What the higher loop fails with is thereby what the lower one fails with, and nothing is
assumed of the minimums, which may be negative or above the power of a call.

## Where the left operand stays

A round of the loop puts what was read so far to the left of an operator or makes it what is
called.  It is never taken apart again, so it stays on the left spine of whatever the loop
gives.
-/

namespace HangulScript

/-- A node lies on the left spine of a tree: the tree is that node, or an operator or a call
whose left operand has the node on its left spine. -/
inductive Node.OnLeftSpine (n : Node) : Node → Prop where
  | here : n.OnLeftSpine n
  | binary {range : Range} {op : String} {left right : Node} (h : n.OnLeftSpine left) :
      n.OnLeftSpine (.binary range op left right)
  | assignment {range : Range} {left right : Node} (h : n.OnLeftSpine left) :
      n.OnLeftSpine (.assignment range left right)
  | call {range : Range} {callee : Node} {args : List Node} (h : n.OnLeftSpine callee) :
      n.OnLeftSpine (.call range callee args)

theorem Node.OnLeftSpine.trans {n m k : Node} (h : n.OnLeftSpine m) (h' : m.OnLeftSpine k) :
    n.OnLeftSpine k := by
  induction h' with
  | here => exact h
  | binary _ ih => exact .binary ih
  | assignment _ ih => exact .assignment ih
  | call _ ih => exact .call ih

namespace Grammar

/-- The left operand is on the left spine of what an operator makes of it. -/
theorem onLeftSpine_joined (op : Token) (left right : Node) :
    left.OnLeftSpine (joined op left right) := by
  unfold joined
  split
  · exact .assignment .here
  · exact .binary .here

section Loop

variable {down : Level} {minimum : Int} {left : Node} {c : Cursor}

/-! ## The three ways of a round -/

/-- A minimum and the token in hand decide what a round of the loop does. -/
theorem stops_or (minimum : Int) (kind : TokenKind) :
    Stops minimum kind ∨ (kind = .leftParenthesis ∧ minimum < callPower) ∨
      ∃ power grouping, binding? kind = some (power, grouping) ∧ minimum < power := by
  by_cases hc : kind = .leftParenthesis ∧ minimum < callPower
  · exact Or.inr (Or.inl hc)
  · have hcall : kind = .leftParenthesis → callPower ≤ minimum :=
      fun hk => Int.not_lt.mp fun hm => hc ⟨hk, hm⟩
    cases hb : binding? kind with
    | none =>
      refine Or.inl ⟨hcall, fun b h => ?_⟩
      rw [hb] at h
      cases h
    | some op =>
      by_cases hp : op.1 ≤ minimum
      · refine Or.inl ⟨hcall, fun b h => ?_⟩
        rw [hb] at h
        cases h
        exact hp
      · exact Or.inr (Or.inr ⟨op.1, op.2, rfl, Int.not_le.mp hp⟩)

/-- A round that takes a call. -/
theorem operators_of_call (hd : down.Consuming) (hk : c.current.kind = .leftParenthesis)
    (hm : minimum < callPower) :
    operators down minimum left c =
      call down left c >>= fun r => operators down minimum r.1 r.2 := by
  rw [operators_eq hd, if_pos ⟨by simp [Cursor.holds, hk], hm⟩]

/-- A round that takes an operator. -/
theorem operators_of_binding (hd : down.Consuming) {power : Int} {grouping : Grouping}
    (hb : binding? c.current.kind = some (power, grouping)) (hm : minimum < power) :
    operators down minimum left c =
      c.advance >>= fun further => down.expression (rightMinimum power grouping) further >>=
        fun r => operators down minimum (joined c.current left r.1) r.2 := by
  have hk : ¬ (c.holds .leftParenthesis ∧ minimum < callPower) := by
    rintro ⟨hk, -⟩
    simp only [Cursor.holds, beq_iff_eq] at hk
    rw [hk] at hb
    cases hb
  rw [operators_eq hd, if_neg hk, hb]
  exact if_neg (Int.not_le.mpr hm)

/-! ## Two minimums -/

/-- **The loop splits at a higher minimum.**  With the lower minimum it does what it does with
the higher one, and goes on from there. -/
theorem operators_eq_bind (hd : down.Consuming) {lower higher : Int} (h : lower ≤ higher)
    (left : Node) (c : Cursor) :
    operators down lower left c =
      operators down higher left c >>= fun r => operators down lower r.1 r.2 := by
  -- Every round consumes, so the induction is on what is left of the tokens.
  induction hn : c.remaining using Nat.strongRecOn generalizing left c with
  | ind n ih =>
    subst hn
    rcases stops_or higher c.current.kind with hs | ⟨hk, hm⟩ | ⟨power, grouping, hb, hm⟩
    · rw [operators_of_stops hs]
      rfl
    · rw [operators_of_call hd hk (Int.lt_of_le_of_lt h hm), operators_of_call hd hk hm, bind_assoc]
      exact except_bind_congr fun r hr => ih _ (consumes_call hd left hr) _ _ rfl
    · rw [operators_of_binding hd hb (Int.lt_of_le_of_lt h hm), operators_of_binding hd hb hm,
        bind_assoc]
      refine except_bind_congr fun further ha => ?_
      rw [bind_assoc]
      refine except_bind_congr fun r hr => ih _ ?_ _ _ rfl
      have h₁ := Cursor.remaining_advance_le ha
      have h₂ := hd.expression _ hr
      exact Nat.lt_of_lt_of_le h₂ h₁

/-- Reading with a lower minimum is reading with a higher one, and then going round the loop
with the lower one. -/
theorem expression_eq_bind (hd : down.Consuming) {lower higher : Int} (h : lower ≤ higher)
    (c : Cursor) :
    expression down lower c =
      expression down higher c >>= fun r => operators down lower r.1 r.2 := by
  unfold expression
  rw [bind_assoc]
  exact except_bind_congr fun r _ => operators_eq_bind hd h r.1 r.2

/-! ## What the loop adds -/

/-- The loop goes forward, and what it began with is on the left spine of what it gives. -/
theorem passes_of_operatorLoop {depth bound : Nat} (hd : down.Sound depth) {n : Node} {d : Cursor}
    (h : operatorLoop down minimum bound left c = .ok (n, d)) :
    (∃ ts, c.Passes ts d) ∧ left.OnLeftSpine n := by
  induction bound generalizing left c with
  | zero => cases h
  | succ bound ih =>
    rcases operatorLoop_succ_eq_ok.mp h with ⟨⟨hk, -⟩, whole, further, hcall, hloop⟩ |
      ⟨-, ⟨-, he⟩ | ⟨power, grouping, hb, ⟨-, he⟩ | ⟨hp, further, right, behind, ha, hx, hloop⟩⟩⟩
    · obtain ⟨-, inside, args, closing, last, hi, hargs, hclose, hlast, he⟩ := call_eq_ok.mp hcall
      cases he
      obtain ⟨us, hus, -⟩ := spans_items .argument (spans_argument hd) hargs
      obtain ⟨⟨vs, hvs⟩, hs⟩ := ih hloop
      have hpass := ((passes_of_kind hi hk (by decide)).trans hus).trans
        (passes_of_kind hlast hclose (by decide))
      exact ⟨⟨_, hpass.trans hvs⟩, .trans (.call .here) hs⟩
    · cases he
      exact ⟨⟨[], rfl⟩, .here⟩
    · cases he
      exact ⟨⟨[], rfl⟩, .here⟩
    · obtain ⟨tier, -, hf⟩ := exists_tier_of_binding hb
      obtain ⟨⟨us, hus, -⟩, -⟩ := hd.expression hf.rightMinimum_lt hx
      obtain ⟨⟨vs, hvs⟩, hs⟩ := ih hloop
      have hk : c.current.kind ≠ .endOfInput := by
        intro hk
        rw [hk] at hb
        cases hb
      exact ⟨⟨_, ((Cursor.passes_current ha hk).trans hus).trans hvs⟩,
        (onLeftSpine_joined ..).trans hs⟩

end Loop

/-- **A minimum only decides where an expression ends.**  Whatever fails with a higher minimum
fails in the same way with a lower one.  If the higher one gives a tree, then the lower one is
the operator loop resumed with that tree as the left operand.  And if the lower one gives a
tree, then so does the higher one, whose tree is on the left spine of it and whose tokens are
the first of its own. -/
theorem minimum_only_decides_end (limit : Nat) {lower higher : Int} (h : lower ≤ higher)
    (c : Cursor) :
    (∀ failure, (levels (limit + 1)).expression higher c = .error failure →
      (levels (limit + 1)).expression lower c = .error failure) ∧
    (∀ tree d, (levels (limit + 1)).expression higher c = .ok (tree, d) →
      (levels (limit + 1)).expression lower c = operators (levels limit) lower tree d) ∧
    (∀ whole e, (levels (limit + 1)).expression lower c = .ok (whole, e) →
      ∃ tree d ts us, (levels (limit + 1)).expression higher c = .ok (tree, d) ∧
        c.Passes ts d ∧ c.Passes (ts ++ us) e ∧ tree.OnLeftSpine whole) := by
  have hsplit : (levels (limit + 1)).expression lower c =
      (levels (limit + 1)).expression higher c >>= fun r =>
        operators (levels limit) lower r.1 r.2 :=
    expression_eq_bind (consuming_levels limit) h c
  have hsound := sound_levels limit
  refine ⟨fun failure hf => ?_, fun tree d ht => ?_, fun whole e hw => ?_⟩
  · rw [hsplit, hf]
    rfl
  · rw [hsplit, ht]
    rfl
  · rw [hsplit] at hw
    obtain ⟨⟨tree, d⟩, ht, hloop⟩ := except_bind_eq_ok.mp hw
    obtain ⟨⟨ts, hts, -⟩, -⟩ := spans_expression hsound ht
    obtain ⟨⟨us, hus⟩, hspine⟩ := passes_of_operatorLoop hsound hloop
    exact ⟨tree, d, ts, us, ht, hts, hts.trans hus, hspine⟩

/-- A product that is assigned to.  Read with the power of a sum as the minimum it ends before the
sign of assignment; read with a lower one, it goes on from there, and the product is on the left
spine of the whole. -/
theorem minimum_only_decides_end_product :
    ∃ c, Cursor.start (TokenStream.scan "ㄱ*ㄴ=ㄷ") = .ok c ∧ (-5 : Int) ≤ 30 ∧
      ∃ whole e, (levels (39 + 1)).expression (-5) c = .ok (whole, e) ∧
        ∃ tree d ts us, (levels (39 + 1)).expression 30 c = .ok (tree, d) ∧
          c.Passes ts d ∧ c.Passes (ts ++ us) e ∧ tree.OnLeftSpine whole ∧
          (levels (39 + 1)).expression (-5) c = operators (levels 39) (-5) tree d := by
  have hok : (Cursor.start (TokenStream.scan "ㄱ*ㄴ=ㄷ") >>=
      (levels (39 + 1)).expression (-5)).isOk = true := by decide +kernel
  cases hread : Cursor.start (TokenStream.scan "ㄱ*ㄴ=ㄷ") >>= (levels (39 + 1)).expression (-5) with
  | error failure =>
    rw [hread] at hok
    cases hok
  | ok r =>
    obtain ⟨whole, e⟩ := r
    obtain ⟨c, hc, hw⟩ := except_bind_eq_ok.mp hread
    have hle : (-5 : Int) ≤ 30 := by decide
    have hall := minimum_only_decides_end 39 hle c
    obtain ⟨tree, d, ts, us, ht, hts, hus, hspine⟩ := hall.2.2 whole e hw
    exact ⟨c, hc, hle, whole, e, hw, tree, d, ts, us, ht, hts, hus, hspine, hall.2.1 tree d ht⟩

end Grammar
end HangulScript
