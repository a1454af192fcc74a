import HangulScript.Text.Interval

/-!
# Blanks

Two sets of characters count as blank, for two readers.

A *gap* separates tokens of a program: space, tab, form feed, carriage return and
newline, and nothing else.  The blanks of other scripts are not gaps, so a program
that holds one is rejected rather than silently read.

A *margin* may surround a numeral that is given as a text of its own: the ASCII
blanks, vertical tab included, and the blanks beyond ASCII that version 14 of the
Unicode standard lists as white space.
-/

namespace HangulScript
namespace Text

/-- Whether a character separates tokens. -/
def isGap (c : Char) : Bool :=
  c == ' ' || c == '\t' || c == '\x0c' || c == '\r' || c == '\n'

/-- The code points that may surround a numeral. -/
def margins : List Interval :=
  [(0x9, 0xd), (0x20, 0x20), (0x85, 0x85), (0xa0, 0xa0), (0x1680, 0x1680), (0x2000, 0x200a),
   (0x2028, 0x2029), (0x202f, 0x202f), (0x205f, 0x205f), (0x3000, 0x3000)]

theorem ascending_margins : ascending margins = true := by decide +kernel

/-- Whether a character may surround a numeral. -/
def isMargin (c : Char) : Bool := covers margins c.toNat

/-- A text without the characters of a class at its two ends. -/
def trimmed (blank : Char → Bool) (text : List Char) : List Char :=
  ((text.dropWhile blank).reverse.dropWhile blank).reverse

end Text
end HangulScript
