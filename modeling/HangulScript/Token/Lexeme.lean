import HangulScript.Text.Blank
import HangulScript.Text.Word
import HangulScript.Token.Basic

/-!
# Lexemes

A lexeme is the stretch of source text that one token is read from.  There are four
sorts, told apart by their first character, so that no two compete for a text; each
takes as many characters as it can.

* A numeral: decimal digits and, if a point and another digit follow, the point and
  the digits after it.
* A name: word characters, the first of them no digit.  A name that is spelled like
  a keyword is that keyword; a longer name that begins like one is not.
* A string: a quote, anything but that quote and newlines, and the quote again.
  There are no escapes.
* An operator or a bracket, the two-character ones before the others.

A lexeme is never empty, and that is part of the type: it has a first character and
the characters after it.
-/

namespace HangulScript

/-- The names that are keywords. -/
def keywords : List (List Char × TokenKind) :=
  [(['참'], .trueKeyword), (['거', '짓'], .falseKeyword), (['함', '수'], .functionKeyword),
   (['만', '약'], .ifKeyword), (['아', '니', '면'], .elseKeyword), (['결', '과'], .returnKeyword)]

/-- The kind of a name. -/
def nameKind (name : List Char) : TokenKind := (keywords.lookup name).getD .identifier

/-- The operators and brackets of two characters. -/
def doubleOperators : List ((Char × Char) × TokenKind) :=
  [(('=', '='), .equal), (('!', '='), .notEqual), (('>', '='), .greaterOrEqual),
   (('<', '='), .lessOrEqual)]

/-- The operators and brackets of one character. -/
def singleOperators : List (Char × TokenKind) :=
  [('+', .plus), ('-', .minus), ('*', .star), ('/', .slash), ('!', .bang), ('=', .assign),
   ('>', .greater), ('<', .less), ('(', .leftParenthesis), (')', .rightParenthesis),
   ('\x7b', .leftBrace), ('\x7d', .rightBrace), (',', .comma)]

/-- A kind and the characters of the source, of which there is at least one. -/
structure Lexeme where
  kind : TokenKind
  first : Char
  more : List Char
  deriving DecidableEq

namespace Lexeme

/-- All characters of a lexeme. -/
def spelling (l : Lexeme) : List Char := l.first :: l.more

/-- The text of the token: of a string what stands between the quotes, of the others
everything. -/
def text (l : Lexeme) : List Char :=
  if l.kind = .string then l.more.dropLast else l.spelling

/-- The rest of a numeral after its first digit. -/
def numeralTail (rest : List Char) : List Char :=
  let whole := rest.takeWhile Text.isDecimalDigit
  match rest.dropWhile Text.isDecimalDigit with
  | '.' :: c :: after =>
    if Text.isDecimalDigit c then
      whole ++ '.' :: c :: after.takeWhile Text.isDecimalDigit
    else whole
  | _ => whole

/-- The rest of a string after its opening quote, if the quote comes again before a
newline does. -/
def stringTail? (quote : Char) (rest : List Char) : Option (List Char) :=
  let content := rest.takeWhile fun c => c != quote && c != '\n'
  if rest[content.length]? = some quote then some (content ++ [quote]) else none

/-- The operator or bracket that begins with a character. -/
def operator? (c : Char) (rest : List Char) : Option Lexeme :=
  match rest.head?.bind fun d => doubleOperators.lookup (c, d) with
  | some kind => some ⟨kind, c, rest.take 1⟩
  | none => (singleOperators.lookup c).map fun kind => ⟨kind, c, []⟩

/-- The lexeme at the beginning of a text that has a first character and a rest; none
if no sort of lexeme begins like this. -/
def read? (c : Char) (rest : List Char) : Option Lexeme :=
  if Text.isDecimalDigit c then some ⟨.number, c, numeralTail rest⟩
  else if Text.isNameStart c then
    let more := rest.takeWhile Text.isWord
    some ⟨nameKind (c :: more), c, more⟩
  else if c = '\x27' ∨ c = '"' then (stringTail? c rest).map fun more => ⟨.string, c, more⟩
  else operator? c rest

end Lexeme
end HangulScript
