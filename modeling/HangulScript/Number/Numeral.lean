import HangulScript.Number.Decimal
import HangulScript.Text.Blank
import HangulScript.Text.DecimalDigit

/-!
# Numerals

A numeral is the text of a number.  The numerals in a program are plain ones:
digits, and after a point more digits.  A text that is *said* to be a number, in a
tree file or in a token made elsewhere, may use all of the following form.

* Around it, blanks.
* A sign, or none.
* Digits with at most one point among or beside them, at least one digit in all;
  then, optionally, `e`, a sign or none, and the digits of a power of ten.
* Instead of digits, one of the words `inf`, `infinity` and `nan`, in letters of
  any case.
* Between two digits, an underscore, which means nothing.

Digits of every script are digits.  The value is the number nearest to the decimal
that the numeral denotes.
-/

namespace HangulScript
namespace Numeral

/-- A character of a numeral: a digit with its value, or another character. -/
inductive Glyph where
  | digit (value : Nat)
  | other (c : Char)
  deriving DecidableEq

namespace Glyph

/-- What a character is in a numeral. -/
def ofChar (c : Char) : Glyph :=
  match Text.digitValue? c with
  | some value => digit value
  | none => other c

/-- Whether a glyph is a digit. -/
def isDigit : Glyph → Bool
  | digit _ => true
  | other _ => false

/-- The value of a digit. -/
def value? : Glyph → Option Nat
  | digit value => some value
  | other _ => none

end Glyph

open Glyph

/-- Drops the underscores, each of which has to stand between two digits.  The flag
tells whether a digit stands right before the list. -/
def withoutUnderscores : (afterDigit : Bool) → List Glyph → Option (List Glyph)
  | _, [] => some []
  | afterDigit, other '_' :: rest =>
    match rest with
    | digit _ :: _ => if afterDigit then withoutUnderscores false rest else none
    | _ => none
  | _, s :: rest => (withoutUnderscores s.isDigit rest).map (s :: ·)

/-- Splits off the digits at the beginning. -/
def leadingDigits (glyphs : List Glyph) : List Nat × List Glyph :=
  ((glyphs.takeWhile isDigit).filterMap value?, glyphs.dropWhile isDigit)

/-- Splits off a sign; true for a minus. -/
def leadingSign : List Glyph → Bool × List Glyph
  | other '+' :: rest => (false, rest)
  | other '-' :: rest => (true, rest)
  | glyphs => (false, glyphs)

/-- The power of ten that ends a numeral: none, or `e` with a sign and digits. -/
def power? : List Glyph → Option Int
  | [] => some 0
  | other c :: rest =>
    if c = 'e' ∨ c = 'E' then
      let (negative, rest) := leadingSign rest
      match leadingDigits rest with
      | ([], _) => none
      | (digits, []) => some (if negative then -(ofDigits digits : Int) else ofDigits digits)
      | (_, _ :: _) => none
    else none
  | digit _ :: _ => none

/-- The digits around a point, or around none, and what follows them. -/
def mantissa (glyphs : List Glyph) : List Nat × List Nat × List Glyph :=
  match leadingDigits glyphs with
  | (whole, other '.' :: rest) =>
    let (fraction, rest) := leadingDigits rest
    (whole, fraction, rest)
  | (whole, rest) => (whole, [], rest)

/-- A numeral of digits. -/
def decimal? (negative : Bool) (glyphs : List Glyph) : Option Double :=
  let (whole, fraction, rest) := mantissa glyphs
  let digits := whole ++ fraction
  if digits.isEmpty then none
  else (power? rest).map fun power => Double.ofDecimal negative digits (power - fraction.length)

/-- A word in letters of any case, as a word in small letters. -/
def word? (glyphs : List Glyph) : Option (List Char) :=
  glyphs.mapM fun
    | other c => some c.toLower
    | digit _ => none

/-- A numeral that is a word. -/
def named? (negative : Bool) (glyphs : List Glyph) : Option Double :=
  match word? glyphs with
  | some ['i', 'n', 'f'] => some (.infinite negative)
  | some ['i', 'n', 'f', 'i', 'n', 'i', 't', 'y'] => some (.infinite negative)
  | some ['n', 'a', 'n'] => some .nan
  | _ => none

/-- The number a numeral stands for, if it is one. -/
def value? (text : List Char) : Option Double := do
  let glyphs ← withoutUnderscores false ((Text.trimmed Text.isMargin text).map ofChar)
  let (negative, glyphs) := leadingSign glyphs
  (named? negative glyphs).or (decimal? negative glyphs)

end Numeral
end HangulScript
