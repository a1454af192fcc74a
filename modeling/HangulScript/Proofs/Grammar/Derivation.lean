import HangulScript.Tree.Grammar

/-!
# Derivations in the stratified grammar

The grammar that settles how a sentence is read.  Expressions come in strata, from the
loosest to the tightest:

    assignment   E₀ = E₁ | E₁ '=' E₀
    equality     E₁ = E₂ | E₂ ('==' '!=') E₁
    order        E₂ = E₃ | E₂ ('<' '>' '<=' '>=') E₃
    sum          E₃ = E₄ | E₃ ('+' '-') E₄
    product      E₄ = E₅ | E₄ ('*' '/') E₅
    unary        E₅ = E₆ | ('+' '-' '!') E₅
    call         E₆ = E₇ | E₆ '(' arguments ')'
    primary      E₇ = '(' E₀ ')' | number | string | truth value | name | function

Assignment and equality group to the right, the strata from order to product to the left.
A statement that ends in an expression is never followed, in the same list, by one that
begins with `(`, `+` or `-`: the expression would have taken that token.

`Derives depth phrase tokens` says that the tokens, all of them and in this order, are the
phrase.  A phrase holds the tree it is, with the ranges that its tokens give it.  The
strata know nothing of binding powers and of loops; that the parser reads exactly what is
derived here is shown in `Soundness` and `Completeness`.

## Depth

A derivation is nested at most `depth` deep.  Going into an operand on the right of an
operator, an argument, a pair of parentheses, a body, a block or a statement costs one;
the operand on the left of an operator and the callee of a call cost nothing.
-/

namespace HangulScript
namespace Grammar

/-- The strata of expressions. -/
inductive Stratum where
  | assignment
  | equality
  | order
  | sum
  | product
  | unary
  | call
  | primary
  deriving DecidableEq

namespace Stratum

/-- The place of a stratum, the loosest first. -/
def rank : Stratum → Nat
  | assignment => 0
  | equality => 1
  | order => 2
  | sum => 3
  | product => 4
  | unary => 5
  | call => 6
  | primary => 7

instance : LE Stratum := ⟨fun s t => s.rank ≤ t.rank⟩

instance (s t : Stratum) : Decidable (s ≤ t) := inferInstanceAs (Decidable (s.rank ≤ t.rank))

theorem le_refl (s : Stratum) : s ≤ s := Nat.le_refl s.rank

theorem le_trans {s t u : Stratum} (h : s ≤ t) (h' : t ≤ u) : s ≤ u :=
  Nat.le_trans (m := t.rank) h h'

/-- Every expression is one of the loosest stratum. -/
theorem assignment_le (s : Stratum) : assignment ≤ s := Nat.zero_le s.rank

end Stratum

/-- The stratum of an operator between two operands, and those of its operands. -/
structure Tier where
  own : Stratum
  left : Stratum
  right : Stratum

/-- The tier of an operator between two operands. -/
def tier? : TokenKind → Option Tier
  | .assign => some ⟨.assignment, .equality, .assignment⟩
  | .equal | .notEqual => some ⟨.equality, .order, .equality⟩
  | .less | .greater | .lessOrEqual | .greaterOrEqual => some ⟨.order, .order, .sum⟩
  | .plus | .minus => some ⟨.sum, .sum, .product⟩
  | .star | .slash => some ⟨.product, .product, .unary⟩
  | _ => none

/-- The things that stand in lists with commas. -/
inductive Item where
  | argument
  | parameter
  deriving DecidableEq

/-- What a stretch of tokens is, and the tree that it is. -/
inductive Phrase where
  | expression (stratum : Stratum) (tree : Node)
  | parameter (tree : Node)
  | items (sort : Item) (trees : List Node)
  | furtherItems (sort : Item) (trees : List Node)
  | block (tree : Node)
  | statement (tree : Node)
  | statements (trees : List Node)
  | program (tree : Node)

/-- One item of a list, as a phrase. -/
def Item.phrase : Item → Node → Phrase
  | argument => .expression .assignment
  | parameter => .parameter

/-- Whether a statement ends in an expression. -/
def endsInExpression : Node → Bool
  | .expressionStatement .. | .returnStatement .. => true
  | _ => false

/-- The tokens that an expression takes and that could begin a statement. -/
def joiners : List TokenKind := [.leftParenthesis, .plus, .minus]

/-- The tokens are the phrase, in a derivation nested at most so deep. -/
inductive Derives : (depth : Nat) → Phrase → List Token → Prop
  | number {depth : Nat} {t : Token} {value : Double} : t.kind = .number →
      Numeral.value? t.text.toList = some value →
      Derives (depth + 1) (.expression .primary (.number t.range value)) [t]
  | string {depth : Nat} {t : Token} : t.kind = .string →
      Derives (depth + 1) (.expression .primary (.string t.range t.text)) [t]
  | trueKeyword {depth : Nat} {t : Token} : t.kind = .trueKeyword →
      Derives (depth + 1) (.expression .primary (.boolean t.range true)) [t]
  | falseKeyword {depth : Nat} {t : Token} : t.kind = .falseKeyword →
      Derives (depth + 1) (.expression .primary (.boolean t.range false)) [t]
  | name {depth : Nat} {t : Token} : t.kind = .identifier →
      Derives (depth + 1) (.expression .primary (.identifier t.range t.text)) [t]
  | function {depth : Nat} {keyword opening closing : Token} {params : List Node} {body : Node}
      {ts us : List Token} : keyword.kind = .functionKeyword → opening.kind = .leftParenthesis →
      Derives depth (.items .parameter params) ts → closing.kind = .rightParenthesis →
      Derives depth (.block body) us →
      Derives (depth + 1)
        (.expression .primary (.function (keyword.range.span body.range) params body))
        (keyword :: opening :: ts ++ closing :: us)
  | grouping {depth : Nat} {opening closing : Token} {inner : Node} {ts : List Token} :
      opening.kind = .leftParenthesis → Derives depth (.expression .assignment inner) ts →
      closing.kind = .rightParenthesis →
      Derives (depth + 1)
        (.expression .primary (inner.withRange (opening.range.span closing.range)))
        (opening :: ts ++ [closing])
  | call {depth : Nat} {callee : Node} {opening closing : Token} {args : List Node}
      {ts us : List Token} : Derives (depth + 1) (.expression .call callee) ts →
      opening.kind = .leftParenthesis → Derives depth (.items .argument args) us →
      closing.kind = .rightParenthesis →
      Derives (depth + 1) (.expression .call (.call (callee.range.span closing.range) callee args))
        (ts ++ opening :: us ++ [closing])
  | unary {depth : Nat} {op : Token} {operand : Node} {ts : List Token} :
      isUnary op.kind = true → Derives depth (.expression .unary operand) ts →
      Derives (depth + 1)
        (.expression .unary (.unary (op.range.span operand.range) op.text operand)) (op :: ts)
  | binary {depth : Nat} {op : Token} {tier : Tier} {left right : Node} {ts us : List Token} :
      tier? op.kind = some tier → Derives (depth + 1) (.expression tier.left left) ts →
      Derives depth (.expression tier.right right) us →
      Derives (depth + 1) (.expression tier.own (joined op left right)) (ts ++ op :: us)
  /-- An expression of a tighter stratum is one of a looser. -/
  | looser {depth : Nat} {s t : Stratum} {tree : Node} {ts : List Token} :
      Derives depth (.expression s tree) ts → t ≤ s → Derives depth (.expression t tree) ts
  | parameter {depth : Nat} {t : Token} : t.kind = .identifier →
      Derives depth (.parameter (.identifier t.range t.text)) [t]
  | noItems {depth : Nat} {sort : Item} : Derives depth (.items sort []) []
  | items {depth : Nat} {sort : Item} {first : Node} {others : List Node} {ts us : List Token} :
      Derives depth (sort.phrase first) ts → Derives depth (.furtherItems sort others) us →
      Derives depth (.items sort (first :: others)) (ts ++ us)
  | lastItem {depth : Nat} {sort : Item} : Derives depth (.furtherItems sort []) []
  | furtherItem {depth : Nat} {sort : Item} {comma : Token} {first : Node} {others : List Node}
      {ts us : List Token} : comma.kind = .comma → Derives depth (sort.phrase first) ts →
      Derives depth (.furtherItems sort others) us →
      Derives depth (.furtherItems sort (first :: others)) (comma :: ts ++ us)
  | block {depth : Nat} {opening closing : Token} {inner : List Node} {ts : List Token} :
      opening.kind = .leftBrace → Derives depth (.statements inner) ts →
      closing.kind = .rightBrace →
      Derives (depth + 1) (.block (.block (opening.range.span closing.range) inner))
        (opening :: ts ++ [closing])
  | expressionStatement {depth : Nat} {e : Node} {ts : List Token} :
      Derives depth (.expression .assignment e) ts →
      Derives (depth + 1) (.statement (.expressionStatement e.range e)) ts
  | returnStatement {depth : Nat} {keyword : Token} {e : Node} {ts : List Token} :
      keyword.kind = .returnKeyword → Derives depth (.expression .assignment e) ts →
      Derives (depth + 1) (.statement (.returnStatement (keyword.range.span e.range) e))
        (keyword :: ts)
  | branch {depth : Nat} {keyword : Token} {predicate consequence : Node} {ts us : List Token} :
      keyword.kind = .ifKeyword → Derives depth (.expression .assignment predicate) ts →
      Derives depth (.block consequence) us →
      Derives (depth + 1)
        (.statement
          (.branch (keyword.range.span consequence.range) predicate consequence .absent))
        (keyword :: ts ++ us)
  | branchElse {depth : Nat} {keyword between : Token} {predicate consequence alternative : Node}
      {ts us vs : List Token} : keyword.kind = .ifKeyword →
      Derives depth (.expression .assignment predicate) ts → Derives depth (.block consequence) us →
      between.kind = .elseKeyword → Derives depth (.block alternative) vs →
      Derives (depth + 1)
        (.statement
          (.branch (keyword.range.span alternative.range) predicate consequence alternative))
        (keyword :: ts ++ us ++ between :: vs)
  | noStatements {depth : Nat} : Derives depth (.statements []) []
  | statements {depth : Nat} {first : Node} {others : List Node} {ts us : List Token} :
      Derives depth (.statement first) ts → Derives depth (.statements others) us →
      (endsInExpression first = true → ∀ t ∈ us.head?, t.kind ∉ joiners) →
      Derives depth (.statements (first :: others)) (ts ++ us)
  | program {depth : Nat} {final : Token} {inner : List Node} {ts : List Token} :
      Derives depth (.statements inner) ts → final.kind = .endOfInput →
      Derives depth (.program (.program (programRange final inner) inner)) (ts ++ [final])

/-- A tree that the stratified grammar gives to a list of tokens. -/
def Stratified (tokens : List Token) (tree : Node) : Prop :=
  ∃ depth, Derives depth (.program tree) tokens

namespace Derives

/-- A bound on the depth can be raised by one. -/
theorem succ {depth : Nat} {phrase : Phrase} {ts : List Token} (h : Derives depth phrase ts) :
    Derives (depth + 1) phrase ts := by
  induction h with
  | number hk hv => exact .number hk hv
  | string hk => exact .string hk
  | trueKeyword hk => exact .trueKeyword hk
  | falseKeyword hk => exact .falseKeyword hk
  | name hk => exact .name hk
  | function hk ho _ hc _ ihp ihb => exact .function hk ho ihp hc ihb
  | grouping ho _ hc ih => exact .grouping ho ih hc
  | call _ ho _ hc ihf iha => exact .call ihf ho iha hc
  | unary hk _ ih => exact .unary hk ih
  | binary ht _ _ ihl ihr => exact .binary ht ihl ihr
  | looser _ hs ih => exact .looser ih hs
  | parameter hk => exact .parameter hk
  | noItems => exact .noItems
  | items _ _ ihf iho => exact .items ihf iho
  | lastItem => exact .lastItem
  | furtherItem hk _ _ ihf iho => exact .furtherItem hk ihf iho
  | block ho _ hc ih => exact .block ho ih hc
  | expressionStatement _ ih => exact .expressionStatement ih
  | returnStatement hk _ ih => exact .returnStatement hk ih
  | branch hk _ _ ihp ihc => exact .branch hk ihp ihc
  | branchElse hk _ _ he _ ihp ihc iha => exact .branchElse hk ihp ihc he iha
  | noStatements => exact .noStatements
  | statements _ _ hj ihf iho => exact .statements ihf iho hj
  | program _ hk ih => exact .program ih hk

/-- A bound on the depth can be raised. -/
theorem deeper {depth depth' : Nat} {phrase : Phrase} {ts : List Token}
    (h : Derives depth phrase ts) (hd : depth ≤ depth') : Derives depth' phrase ts := by
  obtain ⟨k, rfl⟩ := Nat.exists_eq_add_of_le hd
  clear hd
  induction k with
  | zero => exact h
  | succ k ih => exact ih.succ

end Derives

/-! ## First tokens -/

/-- The tokens that begin an expression. -/
def expressionStarters : List TokenKind :=
  [.number, .string, .trueKeyword, .falseKeyword, .identifier, .functionKeyword,
    .leftParenthesis, .plus, .minus, .bang]

/-- The tokens that begin a statement. -/
def statementStarters : List TokenKind := .returnKeyword :: .ifKeyword :: expressionStarters

/-- The token that a phrase begins with, where it cannot be empty. -/
def BeginsWell : Phrase → List Token → Prop
  | .expression .., ts => ∃ t rest, ts = t :: rest ∧ t.kind ∈ expressionStarters
  | .statement _, ts => ∃ t rest, ts = t :: rest ∧ t.kind ∈ statementStarters
  | _, _ => True

theorem Derives.beginsWell {depth : Nat} {phrase : Phrase} {ts : List Token}
    (h : Derives depth phrase ts) : BeginsWell phrase ts := by
  induction h with
  | number hk | string hk | trueKeyword hk | falseKeyword hk | name hk =>
    exact ⟨_, _, rfl, by rw [hk]; decide⟩
  | function hk _ _ _ _ _ _ => exact ⟨_, _, rfl, by rw [hk]; decide⟩
  | grouping ho _ _ _ => exact ⟨_, _, rfl, by rw [ho]; decide⟩
  | call _ _ _ _ ihf _ =>
    obtain ⟨t, rest, rfl, ht⟩ := ihf
    exact ⟨t, _, rfl, ht⟩
  | @unary _ op _ _ hk _ _ =>
    refine ⟨op, _, rfl, ?_⟩
    have h : ∀ k ∈ TokenKind.all, isUnary k = true → k ∈ expressionStarters := by decide
    exact h op.kind (TokenKind.mem_all op.kind) hk
  | binary _ _ _ ihl _ =>
    obtain ⟨t, rest, rfl, ht⟩ := ihl
    exact ⟨t, _, rfl, ht⟩
  | looser _ _ ih => exact ih
  | expressionStatement _ ih =>
    obtain ⟨t, rest, rfl, ht⟩ := ih
    exact ⟨t, rest, rfl, List.mem_cons_of_mem _ (List.mem_cons_of_mem _ ht)⟩
  | returnStatement hk _ _ | branch hk _ _ _ _ | branchElse hk _ _ _ _ _ _ _ =>
    exact ⟨_, _, rfl, by rw [hk]; decide⟩
  | _ => trivial

end Grammar
end HangulScript
