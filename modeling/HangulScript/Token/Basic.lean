import HangulScript.Source.Range
import HangulScript.Text.Quoted

/-!
# Tokens

A token is a kind, the text it was read from, and the range it covers.  The grammar
looks at kinds only; the text matters for numerals, strings and names, for the
operator that a tree node records, and in messages.

The text of a string token is what stands between its quotes, while its range covers
the quotes too.  A token need not come from a scanner: any kind may carry any text
and any range, and a list of tokens may go on after an end of input or lack one.
-/

namespace HangulScript

/-- The kinds of tokens. -/
inductive TokenKind where
  | number
  | string
  | identifier
  | trueKeyword
  | falseKeyword
  | functionKeyword
  | ifKeyword
  | elseKeyword
  | returnKeyword
  | plus
  | minus
  | star
  | slash
  | bang
  | assign
  | equal
  | notEqual
  | greater
  | less
  | greaterOrEqual
  | lessOrEqual
  | leftParenthesis
  | rightParenthesis
  | leftBrace
  | rightBrace
  | comma
  | endOfInput
  deriving DecidableEq

namespace TokenKind

/-- The name of a kind, as messages give it. -/
def label : TokenKind → String
  | number => "NUMBER"
  | string => "STRING"
  | identifier => "IDENT"
  | trueKeyword => "TRUE"
  | falseKeyword => "FALSE"
  | functionKeyword => "FUNCTION"
  | ifKeyword => "IF"
  | elseKeyword => "ELSE"
  | returnKeyword => "RETURN"
  | plus => "PLUS"
  | minus => "MINUS"
  | star => "STAR"
  | slash => "SLASH"
  | bang => "BANG"
  | assign => "ASSIGN"
  | equal => "EQ"
  | notEqual => "NEQ"
  | greater => "GT"
  | less => "LT"
  | greaterOrEqual => "GTE"
  | lessOrEqual => "LTE"
  | leftParenthesis => "LPAR"
  | rightParenthesis => "RPAR"
  | leftBrace => "LBRACE"
  | rightBrace => "RBRACE"
  | comma => "COMMA"
  | endOfInput => "EOF"

/-- All kinds. -/
def all : List TokenKind :=
  [number, string, identifier, trueKeyword, falseKeyword, functionKeyword, ifKeyword,
   elseKeyword, returnKeyword, plus, minus, star, slash, bang, assign, equal, notEqual,
   greater, less, greaterOrEqual, lessOrEqual, leftParenthesis, rightParenthesis, leftBrace,
   rightBrace, comma, endOfInput]

theorem mem_all (kind : TokenKind) : kind ∈ all := by cases kind <;> decide

/-- The kind of a given name. -/
def ofLabel? (name : String) : Option TokenKind := all.find? (·.label == name)

end TokenKind

/-- A kind, a text and a range. -/
structure Token where
  kind : TokenKind
  text : String
  range : Range
  deriving DecidableEq

namespace Token

/-- The token that ends an input at a position. -/
def endAt (p : Position) : Token := ⟨.endOfInput, "", Range.point p⟩

/-- How a token is shown: its kind, its text in quotes, and its range. -/
def shown (t : Token) : String :=
  "Token(" ++ t.kind.label ++ ", " ++ Text.quoted t.text ++ ", " ++ t.range.shown ++ ")"

end Token
end HangulScript
