import HangulScript.Token.Basic

/-!
# The sentences of the language

The grammar as one would write it down first: an expression is two expressions with an
operator between them, an operator in front of an expression, a call, something in
parentheses, a function or a single token.  It says nothing about precedence, about how
operators group, or about where a statement ends and the next begins, and so most
sentences can be read in several ways.

It is the yardstick for what is accepted.  Which of the readings the parser takes is the
business of `HangulScript.Proofs.Grammar.Derivation`.

The grammar looks at the kinds of tokens only.
-/

namespace HangulScript
namespace Grammar

/-- The operators between two operands. -/
def infixOperators : List TokenKind :=
  [.assign, .equal, .notEqual, .less, .greater, .lessOrEqual, .greaterOrEqual, .plus, .minus,
    .star, .slash]

/-- The operators in front of an operand. -/
def frontOperators : List TokenKind := [.plus, .minus, .bang]

/-- The expressions of one token, names apart. -/
def literals : List TokenKind := [.number, .string, .trueKeyword, .falseKeyword]

/-- What a stretch of tokens can be. -/
inductive Category where
  | expression
  | arguments
  | furtherArguments
  | parameters
  | furtherParameters
  | block
  | statement
  | statements
  | program
  deriving DecidableEq

/-- A stretch of tokens is, in at least one reading, something of a category. -/
inductive Reads : Category → List TokenKind → Prop
  | binary {k : TokenKind} {a b : List TokenKind} : Reads .expression a → k ∈ infixOperators →
      Reads .expression b → Reads .expression (a ++ k :: b)
  | unary {k : TokenKind} {a : List TokenKind} : k ∈ frontOperators → Reads .expression a →
      Reads .expression (k :: a)
  | call {a b : List TokenKind} : Reads .expression a → Reads .arguments b →
      Reads .expression (a ++ .leftParenthesis :: b ++ [.rightParenthesis])
  | grouping {a : List TokenKind} : Reads .expression a →
      Reads .expression (.leftParenthesis :: a ++ [.rightParenthesis])
  | literal {k : TokenKind} : k ∈ literals → Reads .expression [k]
  | name : Reads .expression [.identifier]
  | function {a b : List TokenKind} : Reads .parameters a → Reads .block b →
      Reads .expression (.functionKeyword :: .leftParenthesis :: a ++ .rightParenthesis :: b)
  | noArguments : Reads .arguments []
  | arguments {a b : List TokenKind} : Reads .expression a → Reads .furtherArguments b →
      Reads .arguments (a ++ b)
  | lastArgument : Reads .furtherArguments []
  | furtherArgument {a b : List TokenKind} : Reads .expression a → Reads .furtherArguments b →
      Reads .furtherArguments (.comma :: a ++ b)
  | noParameters : Reads .parameters []
  | parameters {a : List TokenKind} : Reads .furtherParameters a →
      Reads .parameters (.identifier :: a)
  | lastParameter : Reads .furtherParameters []
  | furtherParameter {a : List TokenKind} : Reads .furtherParameters a →
      Reads .furtherParameters (.comma :: .identifier :: a)
  | block {a : List TokenKind} : Reads .statements a →
      Reads .block (.leftBrace :: a ++ [.rightBrace])
  | expressionStatement {a : List TokenKind} : Reads .expression a → Reads .statement a
  | returnStatement {a : List TokenKind} : Reads .expression a →
      Reads .statement (.returnKeyword :: a)
  | branch {a b : List TokenKind} : Reads .expression a → Reads .block b →
      Reads .statement (.ifKeyword :: a ++ b)
  | branchElse {a b d : List TokenKind} : Reads .expression a → Reads .block b → Reads .block d →
      Reads .statement (.ifKeyword :: a ++ b ++ .elseKeyword :: d)
  | noStatements : Reads .statements []
  | statements {a b : List TokenKind} : Reads .statement a → Reads .statements b →
      Reads .statements (a ++ b)
  | program {a : List TokenKind} : Reads .statements a → Reads .program (a ++ [.endOfInput])

/-- A list of kinds that is a program in at least one reading. -/
def Sentence (kinds : List TokenKind) : Prop := Reads .program kinds

end Grammar
end HangulScript
