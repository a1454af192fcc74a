import HangulScript.Source.Range

/-!
# Events

A run can be watched.  What there is to see are events of four classes, and each class
has the verbosity from which on it is recorded: top-level statements and calls from
one, bindings from two, decided branches from three.

An event holds what its line of text shows and nothing else, so the lines are a
function of the events.
-/

namespace HangulScript

/-- Something worth watching in a run. -/
inductive Event where
  /-- A top-level statement was evaluated, with the text of its value. -/
  | statement (range : Range) (value : String)
  /-- A function, shown by its signature, was called at a range. -/
  | call (signature : String) (arguments : Nat) (range : Range)
  /-- A name was bound to a value of the given text. -/
  | binding (name value : String)
  /-- A branch was decided by a truth value of the given text. -/
  | branch (range : Range) (value : String)
  deriving DecidableEq

namespace Event

/-- The verbosity from which on an event is recorded. -/
def level : Event → Nat
  | statement .. | call .. => 1
  | binding .. => 2
  | branch .. => 3

/-- The line of text that tells an event. -/
def line : Event → String
  | statement range value => "statement " ++ range.shown ++ " -> " ++ value
  | call signature arguments range =>
    "call " ++ signature ++ " with " ++ toString arguments ++ " arguments at " ++ range.shown
  | binding name value => "bind " ++ name ++ " = " ++ value
  | branch range value => "branch " ++ range.shown ++ " predicate -> " ++ value

end Event
end HangulScript
