import HangulScript.Json.Basic
import HangulScript.Number.Display
import HangulScript.Text.Quoted

/-!
# Writing JSON

Tree files are laid out for reading: every element and every member stands on a line
of its own, two columns further in than the brackets around it; an array or object
that holds nothing is a pair of brackets.  A colon has a blank after it, and the text
ends without a newline.

In strings only the quote, the backslash and the characters below the space are
escaped; all others, of any script, stand as they are.
-/

namespace HangulScript
namespace Json

/-- One character inside a string. -/
def escapedChar (c : Char) : List Char :=
  if c = '"' then ['\\', '"']
  else if c = '\\' then ['\\', '\\']
  else if c = '\n' then ['\\', 'n']
  else if c = '\r' then ['\\', 'r']
  else if c = '\t' then ['\\', 't']
  else if c = '\x08' then ['\\', 'b']
  else if c = '\x0c' then ['\\', 'f']
  else if c.toNat < 0x20 then '\\' :: 'u' :: Text.hexDigits 4 c.toNat
  else [c]

/-- A string in quotes. -/
def writtenString (s : String) : List Char := '"' :: s.toList.flatMap escapedChar ++ ['"']

/-- The beginning of a line at some depth. -/
def newLine (depth : Nat) : List Char := '\n' :: List.replicate (2 * depth) ' '

mutual

/-- A value whose lines are at some depth. -/
def writtenAt (depth : Nat) : Json → List Char
  | null => ['n', 'u', 'l', 'l']
  | boolean true => ['t', 'r', 'u', 'e']
  | boolean false => ['f', 'a', 'l', 's', 'e']
  | integer value => (toString value).toList
  | number value => value.written.toList
  | string value => writtenString value
  | array [] => ['[', ']']
  | array (e :: rest) =>
    '[' :: newLine (depth + 1) ++ writtenAt (depth + 1) e ++ moreElements (depth + 1) rest ++
      newLine depth ++ [']']
  | object [] => ['\x7b', '\x7d']
  | object ((name, value) :: rest) =>
    '\x7b' :: newLine (depth + 1) ++ writtenString name ++ [':', ' '] ++
      writtenAt (depth + 1) value ++ moreMembers (depth + 1) rest ++ newLine depth ++ ['\x7d']

/-- Further elements, each on a line of its own. -/
def moreElements (depth : Nat) : List Json → List Char
  | [] => []
  | e :: rest => ',' :: newLine depth ++ writtenAt depth e ++ moreElements depth rest

/-- Further members, each on a line of its own. -/
def moreMembers (depth : Nat) : List (String × Json) → List Char
  | [] => []
  | (name, value) :: rest =>
    ',' :: newLine depth ++ writtenString name ++ [':', ' '] ++ writtenAt depth value ++
      moreMembers depth rest

end

/-- The text of a value. -/
def toText (value : Json) : List Char := writtenAt 0 value

end Json
end HangulScript
