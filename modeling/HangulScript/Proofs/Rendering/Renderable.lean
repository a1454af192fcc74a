import HangulScript.Proofs.Grammar.Derivation
import HangulScript.Proofs.Grammar.Sentence
import HangulScript.Proofs.Rendering.Marks
import HangulScript.Proofs.Tree.Ranges

/-!
# Trees as marks

The marks of a tree are the tokens it is written with.  An operand stands in parentheses
exactly when its own operator is too loose for its position; there are no other parentheses
than these and those of calls and parameter lists.

Not every tree can be written.  `Renderable` says which: its nodes are where the grammar puts
them, its operators are those of the language, its numbers, strings and names can be spelled,
and nowhere is a statement that ends in an expression followed by one that the expression
would take.
-/

namespace HangulScript
namespace Node

open Grammar

/-! ## Marks -/

/-- The kind of the operator between two operands that has a text. -/
def infixKind (op : String) : TokenKind :=
  (infixOperators.find? fun kind => kind.sign == op.toList).getD .endOfInput

/-- The kind of the operator in front of an operand that has a text. -/
def frontKind (op : String) : TokenKind :=
  (frontOperators.find? fun kind => kind.sign == op.toList).getD .endOfInput

/-- The tier of the operator that has a text.  What is no operator is given one that fits
nowhere. -/
def tier (op : String) : Tier := (tier? (infixKind op)).getD ⟨.primary, .primary, .primary⟩

/-- The stratum of an expression's own operator. -/
def stratum : Node → Stratum
  | .assignment .. => .assignment
  | .binary _ op _ _ => (tier op).own
  | .unary .. => .unary
  | .call .. => .call
  | _ => .primary

/-- The marks of an operand in a position: in parentheses if its operator is too loose. -/
def placed (position : Stratum) (n : Node) (marks : List Mark) : List Mark :=
  if position ≤ n.stratum then marks
  else .sign .leftParenthesis :: marks ++ [.sign .rightParenthesis]

mutual

/-- The marks that a tree is written with. -/
def marks : Node → List Mark
  | .absent => []
  | .program _ inner => marksOfAll inner
  | .block _ inner => .sign .leftBrace :: marksOfAll inner ++ [.sign .rightBrace]
  | .expressionStatement _ e => marks e
  | .returnStatement _ e => .sign .returnKeyword :: marks e
  | .branch _ p c a =>
    .sign .ifKeyword :: marks p ++
      (marks c ++ if a.isAbsent then [] else .sign .elseKeyword :: marks a)
  | .number _ value => [.number value]
  | .boolean _ value => [.sign (if value then .trueKeyword else .falseKeyword)]
  | .string _ value => [.string value]
  | .identifier _ name => [.name name]
  | .unary _ op e => .sign (frontKind op) :: placed .unary e (marks e)
  | .binary _ op a b =>
    placed (tier op).left a (marks a) ++
      .sign (infixKind op) :: placed (tier op).right b (marks b)
  | .assignment _ a b =>
    placed .equality a (marks a) ++ .sign .assign :: placed .assignment b (marks b)
  | .function _ ps b =>
    .sign .functionKeyword :: .sign .leftParenthesis :: marksOfItems ps ++
      .sign .rightParenthesis :: marks b
  | .call _ f as =>
    placed .call f (marks f) ++
      (.sign .leftParenthesis :: marksOfItems as ++ [.sign .rightParenthesis])

/-- The marks of statements, one after the other. -/
def marksOfAll : List Node → List Mark
  | [] => []
  | n :: ns => marks n ++ marksOfAll ns

/-- The marks of items with commas between them. -/
def marksOfItems : List Node → List Mark
  | [] => []
  | n :: ns => marks n ++ marksOfFurther ns

/-- The marks of further items, each behind a comma. -/
def marksOfFurther : List Node → List Mark
  | [] => []
  | n :: ns => .sign .comma :: marks n ++ marksOfFurther ns

end

/-! ## Renderable trees -/

/-- A statement that ends in an expression is followed by no expression that begins with a
mark that the first would take. -/
def Parted (first : Node) (others : List Node) : Prop :=
  endsInExpression first = true → ∀ range e, others.head? = some (.expressionStatement range e) →
    ∀ m ∈ (marks e).head?, m.kind ∉ joiners

/-- A parameter of a function. -/
def IsParameter (n : Node) : Prop := ∃ range name, n = .identifier range name ∧ IsName name.toList

mutual

/-- An expression that can be written. -/
def IsExpression : Node → Prop
  | .number _ value => ∃ text, Numeral.Plain text ∧ Numeral.value? text = some value
  | .boolean .. => True
  | .string _ value => '\n' ∉ value.toList ∧ ('\x27' ∉ value.toList ∨ '"' ∉ value.toList)
  | .identifier _ name => IsName name.toList
  | .unary _ op e => (∃ kind ∈ frontOperators, op.toList = kind.sign) ∧ IsExpression e
  | .binary _ op a b =>
    (∃ kind ∈ infixOperators, kind ≠ .assign ∧ op.toList = kind.sign) ∧ IsExpression a ∧
      IsExpression b
  | .assignment _ a b => IsExpression a ∧ IsExpression b
  | .function _ ps b => (∀ p ∈ ps, IsParameter p) ∧ IsBlock b
  | .call _ f as => IsExpression f ∧ AreExpressions as
  | _ => False

/-- Expressions that can be written. -/
def AreExpressions : List Node → Prop
  | [] => True
  | n :: ns => IsExpression n ∧ AreExpressions ns

/-- A block that can be written. -/
def IsBlock : Node → Prop
  | .block _ inner => AreStatements inner
  | _ => False

/-- A statement that can be written. -/
def IsStatement : Node → Prop
  | .expressionStatement _ e => IsExpression e
  | .returnStatement _ e => IsExpression e
  | .branch _ p c a => IsExpression p ∧ IsBlock c ∧ (a.isAbsent = true ∨ IsBlock a)
  | _ => False

/-- Statements that can be written one after the other. -/
def AreStatements : List Node → Prop
  | [] => True
  | n :: ns => IsStatement n ∧ Parted n ns ∧ AreStatements ns

end

/-- A program that can be written. -/
def Renderable : Node → Prop
  | .program _ inner => AreStatements inner
  | _ => False

/-! ## Operators and their texts -/

theorem infixKind_of_sign {kind : TokenKind} {op : String} (hk : kind ∈ infixOperators)
    (ho : op.toList = kind.sign) : infixKind op = kind := by
  have hall : ∀ kind ∈ infixOperators,
      infixOperators.find? (fun k => k.sign == kind.sign) = some kind := by decide
  rw [infixKind, ho, hall kind hk]
  rfl

theorem frontKind_of_sign {kind : TokenKind} {op : String} (hk : kind ∈ frontOperators)
    (ho : op.toList = kind.sign) : frontKind op = kind := by
  have hall : ∀ kind ∈ frontOperators,
      frontOperators.find? (fun k => k.sign == kind.sign) = some kind := by decide
  rw [frontKind, ho, hall kind hk]
  rfl

theorem tier_of_sign {kind : TokenKind} {op : String} {t : Tier} (ht : tier? kind = some t)
    (hk : kind ∈ infixOperators) (ho : op.toList = kind.sign) : tier op = t := by
  rw [tier, infixKind_of_sign hk ho, ht]
  rfl

end Node
end HangulScript
