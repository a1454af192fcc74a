import HangulScript.Number.Double

/-!
# Arithmetic and comparison

Every operation on finite numbers is the exact one, rounded once.  What is left to
say is what happens at the edges, and there the rules are those of the standard for
binary floating point: an operation on something that is not a number, or one
without a sensible result, is not a number; dividing by a zero gives an infinity;
the sign of a product or quotient is the sign that the operands' signs give, also
for zeros; and a sum that cancels is the positive zero.

Comparison is by value, so the two zeros are equal, and nothing compares with what
is not a number, itself included.
-/

namespace HangulScript
namespace Double

/-- The number with the opposite sign. -/
def neg : Double → Double
  | nan => nan
  | infinite negative => infinite !negative
  | finite negative m => finite (!negative) m

/-- The sum. -/
def add : Double → Double → Double
  | nan, _ => nan
  | _, nan => nan
  | infinite a, infinite b => if a = b then infinite a else nan
  | infinite a, finite _ _ => infinite a
  | finite _ _, infinite b => infinite b
  | finite a m, finite b n =>
    let sum := (finite a m).scaled + (finite b n).scaled
    if sum = 0 then finite (a && b) Magnitude.zero else round (sum < 0) sum.natAbs 1

/-- The difference. -/
def sub (x y : Double) : Double := x.add y.neg

/-- The product. -/
def mul : Double → Double → Double
  | nan, _ => nan
  | _, nan => nan
  | infinite a, infinite b => infinite (a ^^ b)
  | infinite a, finite b n => if n.units = 0 then nan else infinite (a ^^ b)
  | finite a m, infinite b => if m.units = 0 then nan else infinite (a ^^ b)
  | finite a m, finite b n => round (a ^^ b) (m.units * n.units) Magnitude.unitsOfOne

/-- The quotient. -/
def div : Double → Double → Double
  | nan, _ => nan
  | _, nan => nan
  | infinite _, infinite _ => nan
  | infinite a, finite b _ => infinite (a ^^ b)
  | finite a _, infinite b => finite (a ^^ b) Magnitude.zero
  | finite a m, finite b n =>
    if n.units = 0 then (if m.units = 0 then nan else infinite (a ^^ b))
    else round (a ^^ b) (m.units * Magnitude.unitsOfOne) n.units

/-- Which of the two infinities a number is, if any: `-1`, `1`, and `0` for the
finite ones. -/
def rank : Double → Int
  | infinite negative => if negative then -1 else 1
  | _ => 0

/-- The order of two numbers, unless one of them is not a number. -/
def compare? (x y : Double) : Option Ordering :=
  if x = nan ∨ y = nan then none
  else some ((compare x.rank y.rank).then (compare x.scaled y.scaled))

theorem compare?_nan_left (y : Double) : nan.compare? y = none := by simp [compare?]

theorem compare?_nan_right (x : Double) : x.compare? nan = none := by simp [compare?]

/-- The two zeros are one value. -/
theorem compare?_zeros :
    (finite true Magnitude.zero).compare? (finite false Magnitude.zero) = some .eq := by
  decide

end Double
end HangulScript
