import HangulScript.Number.Arithmetic

/-!
# Operators

A tree names its operators by their text.  There are four arithmetic operators and six
comparisons; any other text is refused by the function that is asked to apply it.

A comparison is decided by an order: of two numbers by value, of two texts by code
points from the left, of two truth values with false before true.  Two numbers of
which one is not a number have no order, and then only `!=` holds.
-/

namespace HangulScript

/-- The two jobs an operator between values can have. -/
inductive OperatorJob where
  | arithmetic
  | comparison
  deriving DecidableEq

namespace OperatorJob

/-- The name of a job, as messages give it. -/
def label : OperatorJob → String
  | arithmetic => "arithmetic"
  | comparison => "compare"

end OperatorJob

/-- A text that is asked to do a job and is no operator that does it. -/
structure UnknownOperator where
  job : OperatorJob
  op : String
  deriving DecidableEq

namespace Operator

/-- The arithmetic operators. -/
def arithmeticOperators : List String := ["+", "-", "*", "/"]

/-- The comparisons. -/
def comparisons : List String := ["==", "!=", ">", "<", ">=", "<="]

/-- The result of an arithmetic operator. -/
def arithmetic (op : String) (x y : Double) : Except UnknownOperator Double :=
  if op = "+" then .ok (x.add y)
  else if op = "-" then .ok (x.sub y)
  else if op = "*" then .ok (x.mul y)
  else if op = "/" then .ok (x.div y)
  else .error ⟨.arithmetic, op⟩

/-- Whether a comparison holds of two things in the given order. -/
def holds (op : String) (order : Option Ordering) : Except UnknownOperator Bool :=
  if op = "==" then .ok (order == some .eq)
  else if op = "!=" then .ok (order != some .eq)
  else if op = ">" then .ok (order == some .gt)
  else if op = "<" then .ok (order == some .lt)
  else if op = ">=" then .ok (order == some .gt || order == some .eq)
  else if op = "<=" then .ok (order == some .lt || order == some .eq)
  else .error ⟨.comparison, op⟩

/-- The order of two truth values. -/
def truthOrder (a b : Bool) : Ordering := compare a.toNat b.toNat

/-- Every arithmetic operator has a result. -/
theorem arithmetic_ok {op : String} (h : op ∈ arithmeticOperators) (x y : Double) :
    ∃ z, arithmetic op x y = .ok z := by
  simp only [arithmeticOperators, List.mem_cons, List.not_mem_nil, or_false] at h
  rcases h with rfl | rfl | rfl | rfl <;> exact ⟨_, rfl⟩

/-- Every comparison has a result. -/
theorem holds_ok {op : String} (h : op ∈ comparisons) (order : Option Ordering) :
    ∃ b, holds op order = .ok b := by
  simp only [comparisons, List.mem_cons, List.not_mem_nil, or_false] at h
  rcases h with rfl | rfl | rfl | rfl | rfl | rfl <;> exact ⟨_, rfl⟩

end Operator
end HangulScript
