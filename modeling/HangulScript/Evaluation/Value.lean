import HangulScript.Number.Arithmetic
import HangulScript.Number.Display
import HangulScript.Tree.Basic

/-!
# Values

Evaluating gives numbers, booleans, strings, functions, and the empty value that a
statement without a result has.  Each carries the range of the node that first made
it, and keeps it when it is bound, passed on or returned.

A function is a closure: parameters and body as they stand in the tree, and the scope
in which it was made, by its number in the store.  Scopes live as long as the store,
so a closure can outlive the call that made it.

## The return marker

A return statement ends the statements around it up to the nearest call.  What carries
its result there is a value too, the *marker* `returned`: statements and blocks hand
it upwards, a call unwraps it, and a program refuses it.
-/

namespace HangulScript

/-- The number of a scope in its store. -/
abbrev ScopeId := Nat

/-- A value, or the marker of a return. -/
inductive Value where
  | number (range : Range) (value : Double)
  | boolean (range : Range) (value : Bool)
  | string (range : Range) (value : String)
  | empty (range : Range)
  | function (range : Range) (params : List Node) (body : Node) (scope : ScopeId)
  | returned (value : Value)
  deriving DecidableEq

namespace Value

/-- The name of a value's type, as messages give it. -/
def typeName : Value → String
  | number .. => "Number"
  | boolean .. => "Boolean"
  | string .. => "String"
  | empty _ => "Empty"
  | function .. => "Function"
  | returned _ => "Return"

/-- The word for a truth value. -/
def truthText (value : Bool) : String := if value then "참" else "거짓"

/-- The text the language prints for a value.  A marker has none. -/
def text? : Value → Option String
  | number _ value => some value.display
  | boolean _ value => some (truthText value)
  | string _ value => some value
  | empty _ => some "(없음)"
  | function .. => some "(함수)"
  | returned _ => none

/-- Whether a value is a marker. -/
def isReturned : Value → Bool
  | returned _ => true
  | _ => false

/-- The names of parameters, if all of them are names. -/
def paramNames? (params : List Node) : Option (List String) := params.mapM Node.name?

/-- How a function with parameters of these names is shown. -/
def signature (names : List String) : String := "<function (" ++ ", ".intercalate names ++ ")>"

/-- Whether two values are equal: of one type, over one range and with one content.
The two zeros are equal.  Functions are equal when they are one function, which their
scope tells as long as every function is made in a scope of its own. -/
def equal : Value → Value → Bool
  | number r x, number s y => r == s && x.compare? y == some .eq
  | returned x, returned y => equal x y
  | x, y => x == y

end Value
end HangulScript
