import HangulScript.Number.Double

/-!
# JSON values

Tree files are JSON texts.  A number in one is either an integer, of any size, or a
number of the language; which of the two is a matter of how it was written, and it is
kept because rows and columns are integers and literals are not.  An object is a list
of members in the order of their first mention, each name once.
-/

namespace HangulScript

/-- A JSON value. -/
inductive Json where
  | null
  | boolean (value : Bool)
  | integer (value : Int)
  | number (value : Double)
  | string (value : String)
  | array (elements : List Json)
  | object (members : List (String × Json))
  deriving Inhabited

namespace Json

/-- The value of a member of an object. -/
def get? (name : String) : Json → Option Json
  | object members => members.lookup name
  | _ => none

/-- The values one meets when going through a value: the elements of an array, the
characters of a string, the names of an object's members.  Other values have
none to go through. -/
def items? : Json → Option (List Json)
  | array elements => some elements
  | string value => some (value.toList.map fun c => string (String.singleton c))
  | object members => some (members.map fun m => string m.1)
  | _ => none

/-- What a value counts as where a truth value is needed: false are `false`, `null`,
the zeros, and whatever is empty. -/
def truth : Json → Bool
  | null => false
  | boolean value => value
  | integer value => value != 0
  | number (.finite _ magnitude) => magnitude != Magnitude.zero
  | number _ => true
  | string value => value != ""
  | array elements => !elements.isEmpty
  | object members => !members.isEmpty

/-- A member put into an object: a name that is there already keeps its place and
changes its value. -/
def insert (name : String) (value : Json) : List (String × Json) → List (String × Json)
  | [] => [(name, value)]
  | m :: rest => if m.1 = name then (name, value) :: rest else m :: insert name value rest

end Json
end HangulScript
