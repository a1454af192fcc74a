import HangulScript.Number.Double

/-!
# Decimals and the numbers nearest to them

A decimal is a natural number times a power of ten.  It is what a numeral says and
what a display shows, and the two meet in one function, `Decimal.magnitude?`, which
rounds a decimal to the nearest magnitude: a display is right when the decimal it
shows rounds back to the number shown.

## Decimals far out of range

A numeral may name a power of ten with an exponent of any size, and computing that
power would not end in reasonable time.  `Double.ofDecimal` therefore looks at the
place of the leading digit first.  A decimal of at least `10 ^ 309` is beyond every
finite number and one below `10 ^ (-324)` is nearer to zero than to the smallest
one, so the answers given there are the rounded ones.
-/

namespace HangulScript

/-- A coefficient times a power of ten. -/
structure Decimal where
  coefficient : Nat
  exponent : Int
  deriving DecidableEq

namespace Decimal

/-- The decimal as a quotient of two natural numbers of units. -/
def ratio (d : Decimal) : Nat × Nat :=
  if 0 ≤ d.exponent then (d.coefficient * Nat.pow 10 d.exponent.toNat * Magnitude.unitsOfOne, 1)
  else (d.coefficient * Magnitude.unitsOfOne, Nat.pow 10 (-d.exponent).toNat)

/-- The magnitude nearest to a decimal, unless it is too large. -/
def magnitude? (d : Decimal) : Option Magnitude := Magnitude.round? d.ratio.1 d.ratio.2

end Decimal

/-- The natural number that decimal digits denote, the most significant one
first. -/
def ofDigits (digits : List Nat) : Nat := digits.foldl (fun n d => 10 * n + d) 0

namespace Double

/-- The number nearest to a decimal given by its digits and the power of ten of its
last digit. -/
def ofDecimal (negative : Bool) (digits : List Nat) (exponent : Int) : Double :=
  let significant := digits.dropWhile (· == 0)
  let leading : Int := significant.length + exponent
  if significant.isEmpty ∨ leading < -330 then finite negative Magnitude.zero
  else if 310 < leading then infinite negative
  else
    match Decimal.magnitude? ⟨ofDigits significant, exponent⟩ with
    | some m => finite negative m
    | none => infinite negative

/-- The number nearest to an integer; nothing when it is too large. -/
def ofInt? (n : Int) : Option Double :=
  (Magnitude.round? (n.natAbs * Magnitude.unitsOfOne) 1).map (finite (n < 0))

end Double
end HangulScript
