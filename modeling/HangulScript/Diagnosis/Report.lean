import HangulScript.Diagnosis.Basic
import HangulScript.Source.Lines

/-!
# Reports

A report says what is wrong and where in one line.  Where the source text is at hand,
two more lines show the source line in which the error begins and mark the place
under it with carets: the columns of the error's range when it lies on one row, and
otherwise everything from its first column to the end of the line.  There is always
at least one caret, so that an end of input can be pointed at.

A row is looked up from the end of the text when it is negative, and a row that the
text does not have shows nothing.
-/

namespace HangulScript
namespace Error

/-- The first line of a report. -/
def headline (e : Error) : String := e.cause.label ++ " " ++ e.place ++ ": " ++ e.message

/-- A text repeated; not at all when the count is negative. -/
def repeated (count : Int) (c : Char) : List Char := List.replicate count.toNat c

/-- The number of carets under a source line. -/
def caretCount (e : Error) (line : List Char) : Int :=
  if e.range.last.row = e.range.first.row then
    max (e.range.last.column - e.range.first.column + 1) 1
  else max (line.length - e.range.first.column) 1

/-- The line that marks the place of an error in a source line. -/
def caretLine (e : Error) (line : List Char) : List Char :=
  [' ', ' '] ++ repeated e.range.first.column ' ' ++ repeated (e.caretCount line) '^'

/-- The line of a source in which an error begins. -/
def sourceLine? (e : Error) (source : List Char) : Option (List Char) :=
  let lines := Source.lines source
  let row := e.range.first.row
  if 0 ≤ row then lines[row.toNat]?
  else if 0 ≤ lines.length + row then lines[(lines.length + row).toNat]?
  else none

/-- The lines of a report. -/
def reportLines (e : Error) (source : Option (List Char)) : List (List Char) :=
  e.headline.toList ::
    match source.bind e.sourceLine? with
    | some line => [' ' :: ' ' :: line, e.caretLine line]
    | none => []

/-- The report of an error. -/
def report (e : Error) (source : Option String) : String :=
  String.ofList (['\n'].intercalate (e.reportLines (source.map String.toList)))

end Error
end HangulScript
