import HangulScript.Proofs.Grammar.Derivation
import HangulScript.Proofs.Reading.Consumption

/-!
# Binding powers and strata

The parser knows numbers, the stratified grammar knows strata.  They are tied together by
two functions: `floor` is the stratum that reading with a minimum gives, and `ceiling` is
the minimum under which whatever may stand behind an expression of a stratum is left alone.

The tables are small, and all that the proofs about the grammar need from them is collected
here: `admits_iff_stops` says that a token may take an expression of a stratum as its left
operand exactly when the loop with that stratum's ceiling stops before it, and
`tier_of_binding` and `binding_of_tier` say that an operator's power, grouping and tier
belong together.
-/

namespace HangulScript
namespace Grammar

/-- The stratum of the expressions that are read with a minimum, as long as that is below
the power of a call. -/
def floor (minimum : Int) : Stratum :=
  if minimum < 10 then .assignment
  else if minimum < 20 then .equality
  else if minimum < 30 then .sum
  else if minimum < 40 then .product
  else .unary

/-- The minimum with which the operand on the right edge of an expression is read. -/
def Stratum.ceiling : Stratum → Int
  | assignment => 9
  | equality => 19
  | order => 20
  | sum => 30
  | product => 40
  | unary => 50
  | call => 60
  | primary => 60

/-- The operator loop with a minimum stops before a token of this kind. -/
def Stops (minimum : Int) (kind : TokenKind) : Prop :=
  (kind = .leftParenthesis → callPower ≤ minimum) ∧ ∀ b ∈ binding? kind, b.1 ≤ minimum

instance (minimum : Int) (kind : TokenKind) : Decidable (Stops minimum kind) :=
  inferInstanceAs (Decidable (_ ∧ _))

/-- A token of this kind may stand right behind an expression of a stratum: if it takes a
left operand, then it may be that one. -/
def Stratum.Admits (s : Stratum) (kind : TokenKind) : Prop :=
  (kind = .leftParenthesis → call ≤ s) ∧ ∀ tier ∈ tier? kind, tier.left ≤ s

instance (s : Stratum) (kind : TokenKind) : Decidable (s.Admits kind) :=
  inferInstanceAs (Decidable (_ ∧ _))

/-- What may follow an expression is what its right edge leaves alone. -/
theorem admits_iff_stops (s : Stratum) (kind : TokenKind) :
    s.Admits kind ↔ Stops s.ceiling kind := by
  have h : ∀ k ∈ TokenKind.all, s.Admits k ↔ Stops s.ceiling k := by
    cases s <;> decide
  exact h kind (TokenKind.mem_all kind)

/-- A looser expression is followed by less. -/
theorem Stratum.Admits.of_le {s t : Stratum} {kind : TokenKind} (h : s.Admits kind)
    (hs : s ≤ t) : t.Admits kind :=
  ⟨fun hk => Stratum.le_trans (h.1 hk) hs, fun tier ht => Stratum.le_trans (h.2 tier ht) hs⟩

/-- Nothing that continues an expression may follow one of the loosest stratum. -/
theorem stops_zero_iff (kind : TokenKind) : Stops 0 kind ↔ Stratum.assignment.Admits kind := by
  have h : ∀ k ∈ TokenKind.all, Stops 0 k ↔ Stratum.assignment.Admits k := by decide
  exact h kind (TokenKind.mem_all kind)

/-- The least minimum that leaves an operator of a stratum alone; what is no operator has
none. -/
def Stratum.power : Stratum → Int
  | assignment => 10
  | equality => 20
  | order => 20
  | sum => 30
  | product => 40
  | _ => 50

/-- A minimum reads an operator's stratum when it is below the power. -/
theorem floor_le_iff (minimum : Int) {s : Stratum} (hs : s ≤ .product) :
    floor minimum ≤ s ↔ minimum < s.power := by
  unfold floor
  cases s <;> simp only [Stratum.power] <;> repeat' split
  all_goals first
    | exact iff_of_true (by decide) (by omega)
    | exact iff_of_false (by decide) (by omega)
    | exact absurd hs (by decide)

/-- A power and a grouping say the same as a tier: the loop takes the operator when its
stratum is no looser than what is read, and its right operand is read with the ceiling of
that stratum. -/
structure Tier.Fits (tier : Tier) (power : Int) (grouping : Grouping) : Prop where
  power_eq : power = tier.own.power
  ceiling_eq : rightMinimum power grouping = tier.own.ceiling
  floor_eq : floor (rightMinimum power grouping) = tier.right
  own_le_left : tier.own ≤ tier.left
  own_le_right : tier.own ≤ tier.right
  own_le_product : tier.own ≤ .product
  rightMinimum_lt : rightMinimum power grouping < callPower

theorem exists_tier_of_binding {kind : TokenKind} {power : Int} {grouping : Grouping}
    (h : binding? kind = some (power, grouping)) :
    ∃ tier, tier? kind = some tier ∧ tier.Fits power grouping := by
  cases kind <;> cases h <;>
    exact ⟨_, rfl, rfl, rfl, rfl, by decide, by decide, by decide, by decide⟩

theorem exists_binding_of_tier {kind : TokenKind} {tier : Tier} (h : tier? kind = some tier) :
    ∃ power grouping, binding? kind = some (power, grouping) ∧ tier.Fits power grouping := by
  cases kind <;> cases h <;>
    exact ⟨_, _, rfl, rfl, rfl, rfl, by decide, by decide, by decide, by decide⟩

theorem Tier.Fits.floor_le_iff {tier : Tier} {power : Int} {grouping : Grouping}
    (h : tier.Fits power grouping) (minimum : Int) :
    floor minimum ≤ tier.own ↔ minimum < power := by
  rw [Grammar.floor_le_iff minimum h.own_le_product, h.power_eq]

@[simp] theorem floor_zero : floor 0 = .assignment := rfl

@[simp] theorem floor_unaryPower : floor unaryPower = .unary := rfl

/-- What is read with a minimum below that of a call is unary at the tightest. -/
theorem floor_le_unary (minimum : Int) : floor minimum ≤ .unary := by
  unfold floor
  repeat' split
  all_goals decide

/-- Before a token at which it stops, the operator loop gives back what it has. -/
theorem operators_of_stops {down : Level} {minimum : Int} {left : Node} {c : Cursor}
    (h : Stops minimum c.current.kind) : operators down minimum left c = .ok (left, c) := by
  have hc : ¬ (c.current.kind = .leftParenthesis ∧ minimum < callPower) := by
    rintro ⟨hk, hm⟩
    have := h.1 hk
    omega
  refine operatorLoop_succ_eq_ok.mpr (Or.inr ⟨hc, ?_⟩)
  cases hb : binding? c.current.kind with
  | none => exact Or.inl ⟨rfl, rfl⟩
  | some op =>
    obtain ⟨power, grouping⟩ := op
    exact Or.inr ⟨power, grouping, rfl, Or.inl ⟨h.2 _ hb, rfl⟩⟩

/-- Where the operator loop ends, it stops. -/
theorem stops_of_operatorLoop {down : Level} {minimum : Int} {bound : Nat} {left n : Node}
    {c d : Cursor} (h : operatorLoop down minimum bound left c = .ok (n, d)) :
    Stops minimum d.current.kind := by
  induction bound generalizing left c with
  | zero => cases h
  | succ bound ih =>
    rcases operatorLoop_succ_eq_ok.mp h with ⟨-, whole, further, -, hl⟩ |
      ⟨hc, ⟨hb, he⟩ | ⟨power, grouping, hb, ⟨hp, he⟩ | ⟨-, further, right, behind, -, -, hl⟩⟩⟩
    · exact ih hl
    · cases he
      refine ⟨fun hk => Int.not_lt.mp fun hm => hc ⟨hk, hm⟩, fun b hb' => ?_⟩
      rw [hb] at hb'
      cases hb'
    · cases he
      refine ⟨fun hk => Int.not_lt.mp fun hm => hc ⟨hk, hm⟩, fun b hb' => ?_⟩
      rw [hb] at hb'
      cases hb'
      exact hp
    · exact ih hl

end Grammar
end HangulScript
