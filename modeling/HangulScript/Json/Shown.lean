import HangulScript.Json.Basic
import HangulScript.Number.Display
import HangulScript.Text.Quoted

/-!
# JSON values in messages

A message that names a JSON value shows the text of a string as it stands.  Any other
value is shown in the notation of messages, in which the three constants are words
with a capital and every string inside a value is quoted.
-/

namespace HangulScript
namespace Json

mutual

/-- A value in the notation of messages. -/
def spelled : Json → String
  | null => "None"
  | boolean value => if value then "True" else "False"
  | integer value => toString value
  | number .nan => "nan"
  | number (.infinite negative) => if negative then "-inf" else "inf"
  | number value => value.written
  | string value => Text.quoted value
  | array elements => "[" ++ ", ".intercalate (spelledAll elements) ++ "]"
  | object members => "\x7b" ++ ", ".intercalate (spelledMembers members) ++ "\x7d"

/-- The values of a list in the notation of messages. -/
def spelledAll : List Json → List String
  | [] => []
  | e :: rest => spelled e :: spelledAll rest

/-- Members with their names. -/
def spelledMembers : List (String × Json) → List String
  | [] => []
  | (name, value) :: rest =>
    (Text.quoted name ++ ": " ++ spelled value) :: spelledMembers rest

end

/-- A value as a message shows it. -/
def shown : Json → String
  | string value => value
  | value => spelled value

end Json
end HangulScript
