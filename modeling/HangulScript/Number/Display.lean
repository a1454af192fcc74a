import HangulScript.Number.Shortest

/-!
# How numbers are shown

There are two notations.  `Double.written` is the one of tree files: the shortest
decimal that reads back, always recognisable as a number with a fraction.
`Double.display` is the one the language prints: a whole number below `10 ^ 21` is
shown by all of its digits and nothing else, so that counting looks like counting,
and both zeros are `0`.

The shortest decimal is written out positionally when its leading digit stands
between `10 ^ (-4)` and `10 ^ 15`, and with a power of ten otherwise.  The power
has a sign and at least two digits.
-/

namespace HangulScript

/-- Significant digits and the place of the decimal point, counted from before the
first digit. -/
structure Digits where
  significant : List Char
  point : Int
  deriving DecidableEq

namespace Decimal

/-- The digits of a decimal without the zeros at its end. -/
def digits (d : Decimal) : Digits :=
  let all := Nat.toDigits 10 d.coefficient
  ⟨(all.reverse.dropWhile (· == '0')).reverse, all.length + d.exponent⟩

end Decimal

namespace Digits

/-- The digits around a decimal point, with a zero where no digit would stand. -/
def positional (d : Digits) : List Char :=
  if d.point ≤ 0 then
    '0' :: '.' :: List.replicate (-d.point).toNat '0' ++ d.significant
  else
    let whole := d.point.toNat
    if d.significant.length ≤ whole then
      d.significant ++ List.replicate (whole - d.significant.length) '0' ++ ['.', '0']
    else d.significant.take whole ++ '.' :: d.significant.drop whole

/-- One digit, the others after a point, and the power of ten of the first. -/
def scientific (d : Digits) : List Char :=
  let power := d.point - 1
  let exponent := Nat.toDigits 10 power.natAbs
  let fraction := match d.significant.drop 1 with
    | [] => []
    | rest => '.' :: rest
  d.significant.take 1 ++ fraction ++ 'e' :: (if power < 0 then '-' else '+') ::
    (if exponent.length < 2 then '0' :: exponent else exponent)

/-- Positional from `10 ^ (-4)` on and below `10 ^ 16`. -/
def laidOut (d : Digits) : List Char :=
  if -4 < d.point ∧ d.point ≤ 16 then d.positional else d.scientific

end Digits

/-- A sign, where there is one, before a text. -/
def signed (negative : Bool) (text : List Char) : List Char :=
  if negative then '-' :: text else text

namespace Magnitude

/-- The shortest decimal, laid out. -/
def written (m : Magnitude) : List Char :=
  if m = zero then ['0', '.', '0'] else m.shortest.digits.laidOut

/-- The digits of the whole number that an integral magnitude is. -/
def wholeDigits (m : Magnitude) : List Char := Nat.toDigits 10 (m.units / unitsOfOne)

end Magnitude

namespace Double

/-- The text of a number in a tree file. -/
def written : Double → String
  | nan => "NaN"
  | infinite negative => if negative then "-Infinity" else "Infinity"
  | finite negative m => String.ofList (signed negative m.written)

/-- The text the language prints for a number. -/
def display : Double → String
  | nan => "NaN"
  | infinite negative => if negative then "-Infinity" else "Infinity"
  | finite negative m =>
    if m.isIntegral && m.units < Nat.pow 10 21 * Magnitude.unitsOfOne then
      String.ofList (signed (negative && m != Magnitude.zero) m.wholeDigits)
    else String.ofList (signed negative m.written)

end Double
end HangulScript
