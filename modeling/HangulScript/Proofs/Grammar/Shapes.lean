import HangulScript.Proofs.Grammar.Parts
import HangulScript.Proofs.Tree.Shapes

/-!
# What is read has the shape of a program

Whatever tokens there are, with any texts and ranges, a tree that is read from them has
statements, expressions, blocks and parameters only where these belong.  The rules of the grammar
say so one by one; only parentheses change a tree that is there already, and no more of it than
its range.
-/

namespace HangulScript
namespace Grammar

open Node

theorem fits_withRange (role : Role) (r : Range) (n : Node) :
    fits role (n.withRange r) = fits role n := by
  cases role <;> cases n <;> rfl

theorem fits_joined (op : Token) (left right : Node) :
    fits .expression (joined op left right) =
      (fits .expression left && fits .expression right) := by
  unfold joined
  split <;> rfl

/-- The trees of a phrase fit their places in it. -/
def Phrase.Fits : Phrase → Prop
  | .expression _ n => fits .expression n = true
  | .parameter n => fits .parameter n = true
  | .items .argument ns | .furtherItems .argument ns => fitAll .expression ns = true
  | .items .parameter ns | .furtherItems .parameter ns => fitAll .parameter ns = true
  | .block n => fits .block n = true
  | .statement n => fits .statement n = true
  | .statements ns => fitAll .statement ns = true
  | .program n => fits .program n = true

/-- A list of items fits if the first does and the others do. -/
theorem Phrase.Fits.cons {sort : Item} {first : Node} {others : List Node}
    (h : (sort.phrase first).Fits) (h' : (Phrase.furtherItems sort others).Fits) :
    (Phrase.items sort (first :: others)).Fits := by
  cases sort <;> exact Bool.and_eq_true_iff.mpr ⟨h, h'⟩

/-- **What is derived has its shape.** -/
theorem fits_of_derives {depth : Nat} {phrase : Phrase} {ts : List Token}
    (h : Derives depth phrase ts) : phrase.Fits := by
  induction h with
  | number | string | trueKeyword | falseKeyword | name | parameter | noStatements => rfl
  | function _ _ _ _ _ ihp ihb => exact Bool.and_eq_true_iff.mpr ⟨ihp, ihb⟩
  | grouping _ _ _ ih => exact (fits_withRange ..).trans ih
  | call _ _ _ _ ihf iha => exact Bool.and_eq_true_iff.mpr ⟨ihf, iha⟩
  | binary _ _ _ ihl ihr => exact (fits_joined ..).trans (Bool.and_eq_true_iff.mpr ⟨ihl, ihr⟩)
  | unary _ _ ih | looser _ _ ih => exact ih
  | @noItems _ sort | @lastItem _ sort => cases sort <;> rfl
  | items _ _ ihf iho => exact ihf.cons iho
  | @furtherItem _ sort _ _ _ _ _ _ _ _ ihf iho => cases sort <;> exact ihf.cons iho
  | block _ _ _ ih | expressionStatement _ ih | returnStatement _ _ ih | program _ _ ih => exact ih
  | branch _ _ _ ihp ihc =>
    exact Bool.and_eq_true_iff.mpr ⟨Bool.and_eq_true_iff.mpr ⟨ihp, ihc⟩, rfl⟩
  | branchElse _ _ _ _ _ ihp ihc iha =>
    exact Bool.and_eq_true_iff.mpr
      ⟨Bool.and_eq_true_iff.mpr ⟨ihp, ihc⟩, Bool.or_eq_true_iff.mpr (Or.inr iha)⟩
  | statements _ _ _ ihf iho => exact Bool.and_eq_true_iff.mpr ⟨ihf, iho⟩

/-- **What is read has the shape of a program**, whatever it is read from. -/
theorem fits_of_program {limit : Nat} {stream : TokenStream} {tree : Node}
    (h : program limit stream = .ok tree) : fits .program tree = true := by
  obtain ⟨c, -, hc⟩ := program_eq_ok.mp h
  obtain ⟨d, ts, inner, -, -, hinner, rfl⟩ := programFrom_eq_ok.mp hc
  exact fits_of_derives hinner

end Grammar
end HangulScript
