/-!
# Positions and ranges

A position is a row and a column of the source text, both counted from zero; a
range is the positions of the *first* and the *last* character it covers, both
included.  Tokens, tree nodes, values and errors carry a range, so that whoever
reports about them can point at the text they come from.

## Why integers

The scanner makes natural numbers only.  A tree can also be read from a file,
though, and there the rows and columns are whatever the file says; they are kept
as they are, negative ones and large ones included, because nothing is ever
computed from them except the place of a caret.

## The range of nothing

An end of input covers no character.  It is ranged at the place just past the last
character, first and last alike, and so looks like a range of one character; what
tells it apart is the token that carries it.
-/

namespace HangulScript

/-- A place in a source text: row and column, counted from zero. -/
structure Position where
  row : Int
  column : Int
  deriving DecidableEq

namespace Position

/-- The first character of a text. -/
def origin : Position := ⟨0, 0⟩

/-- Positions in reading order: by row, and by column in a row. -/
def before (p q : Position) : Bool :=
  p.row < q.row || (p.row == q.row && p.column < q.column)

/-- Reading order, either the same place or before it. -/
def notAfter (p q : Position) : Bool := !q.before p

/-- The place of the next character, given the one that stands here.  A newline
alone begins a row; every other character takes one column. -/
def next (p : Position) (c : Char) : Position :=
  if c = '\n' then ⟨p.row + 1, 0⟩ else ⟨p.row, p.column + 1⟩

/-- The place reached after the given characters. -/
def after (p : Position) (text : List Char) : Position := text.foldl next p

/-- The place a number of columns further right. -/
def right (p : Position) (columns : Nat) : Position := ⟨p.row, p.column + columns⟩

/-- How a position is shown: `(row, column)`. -/
def shown (p : Position) : String := s!"({p.row}, {p.column})"

@[simp] theorem after_nil (p : Position) : p.after [] = p := rfl

@[simp] theorem after_cons (p : Position) (c : Char) (text : List Char) :
    p.after (c :: text) = (p.next c).after text := rfl

@[simp] theorem after_append (p : Position) (s t : List Char) :
    p.after (s ++ t) = (p.after s).after t := by simp [after]

/-- A text without newlines moves along its row. -/
theorem after_of_newline_not_mem {text : List Char} (h : '\n' ∉ text) (p : Position) :
    p.after text = p.right text.length := by
  induction text generalizing p with
  | nil => simp [right]
  | cons c text ih =>
    have hc : c ≠ '\n' := fun e => h (by simp [e])
    have ht : '\n' ∉ text := fun m => h (by simp [m])
    rw [after_cons, ih ht]
    simp only [next, hc, if_false, right, List.length_cons]
    congr 1
    omega

end Position

/-- The stretch of a source text from a first to a last character, both
included. -/
structure Range where
  first : Position
  last : Position
  deriving DecidableEq

namespace Range

/-- The range of the one character at a position. -/
def point (p : Position) : Range := ⟨p, p⟩

/-- From the beginning of one range to the end of another. -/
def span (r s : Range) : Range := ⟨r.first, s.last⟩

/-- How a range is shown: its two positions, labelled and in braces. -/
def shown (r : Range) : String :=
  "\x7bbegin: " ++ r.first.shown ++ ", end: " ++ r.last.shown ++ "\x7d"

@[simp] theorem first_span (r s : Range) : (r.span s).first = r.first := rfl

@[simp] theorem last_span (r s : Range) : (r.span s).last = s.last := rfl

@[simp] theorem span_self (r : Range) : r.span r = r := rfl

end Range
end HangulScript
