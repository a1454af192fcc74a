import HangulScript.Number.Decimal

/-!
# The shortest decimal of a number

Infinitely many decimals round to one number.  The one shown has the fewest digits,
and of those with the fewest the one nearest to the number; where two are equally
near, the even one.

The search goes by the number of digits.  For a given number of digits the decimals
lie on a grid, and if any point of the grid rounds to the number then one of the
two neighbours of the number does, because what rounds to it is an interval around
it.  So only two candidates are tried per length, the nearer one first, and a
candidate is accepted by the very function that reads numerals.

Seventeen digits always suffice.  The definition does not lean on that: after
seventeen lengths it falls back on all the digits of the number, and those round to
it because they denote it exactly.
-/

namespace HangulScript
namespace Magnitude

/-- The power of ten of the leading digit.  The number of digits is counted on the
number times `10 ^ 330`, which is at least one for every positive magnitude. -/
def leadingPower (m : Magnitude) : Int :=
  ((Nat.toDigits 10 (m.units * Nat.pow 10 330 / unitsOfOne)).length : Int) - 331

/-- The magnitude over a power of ten, as a quotient. -/
def ratioTo (m : Magnitude) (power : Int) : Nat × Nat :=
  if 0 ≤ power then (m.units, unitsOfOne * Nat.pow 10 power.toNat)
  else (m.units * Nat.pow 10 (-power).toNat, unitsOfOne)

/-- The two multiples of a power of ten that enclose the magnitude, the nearer one
first. -/
def neighbours (m : Magnitude) (power : Int) : List Decimal :=
  let (numerator, denominator) := m.ratioTo power
  let below := numerator / denominator
  if roundDiv numerator denominator = below then [⟨below, power⟩, ⟨below + 1, power⟩]
  else [⟨below + 1, power⟩, ⟨below, power⟩]

/-- The magnitude as a decimal with all its digits. -/
def exactDecimal (m : Magnitude) : Decimal := ⟨m.units * Nat.pow 5 1074, -1074⟩

/-- The shortest decimal that rounds to the magnitude. -/
def shortest (m : Magnitude) : Decimal :=
  let leading := m.leadingPower
  ((List.range 17).findSome? fun (further : Nat) =>
    (m.neighbours (leading - further)).find? fun d => d.magnitude? = some m).getD m.exactDecimal

end Magnitude
end HangulScript
