/-!
# Numbers of the language

A number is a binary floating-point value of 64 bits: a finite one, one of two
infinities, or the value that is not a number.  It is kept here as what it *is*,
not as a word of bits.  A finite magnitude is a mantissa of at most 53 bits and an
exponent, in the one form where the mantissa is either full or the exponent least;
so two magnitudes are equal exactly when they are the same structure, there is a
single not-a-number, and every statement about a number is a statement about
natural numbers.

## One unit for all

The smallest positive magnitude is `2 ^ (-1074)`, and every finite magnitude is a
whole number of it: mantissa times `2 ^ exponent`.  This count, `units`, is what
comparison and exact arithmetic work with.  A sum is a sum of counts, and only then
is it rounded.

## Rounding once

All results go through `Magnitude.round?`, which rounds a quotient of two natural
numbers of units to the nearest magnitude, a tie to the even mantissa.  It answers
nothing when the result is too large to be finite.
-/

namespace HangulScript

/-- What makes a mantissa and an exponent the form of a magnitude: at most 53 bits,
all of them used unless the exponent is least, and an exponent that is not too
large. -/
def IsMagnitude (mantissa exponent : Nat) : Prop :=
  mantissa < Nat.pow 2 53 ∧ (exponent = 0 ∨ Nat.pow 2 52 ≤ mantissa) ∧ exponent ≤ 2045

instance (mantissa exponent : Nat) : Decidable (IsMagnitude mantissa exponent) := by
  unfold IsMagnitude; infer_instance

/-- The absolute value of a finite number: `mantissa * 2 ^ exponent` units of
`2 ^ (-1074)`. -/
structure Magnitude where
  mantissa : Nat
  exponent : Nat
  isMagnitude : IsMagnitude mantissa exponent
  deriving DecidableEq

/-- The nearest natural number to a quotient; of two equally near, the even one. -/
def roundDiv (numerator denominator : Nat) : Nat :=
  let quotient := numerator / denominator
  let twice := 2 * (numerator % denominator)
  if twice < denominator then quotient
  else if denominator < twice then quotient + 1
  else quotient + quotient % 2

namespace Magnitude

/-- The magnitude of the two zeros. -/
def zero : Magnitude := ⟨0, 0, by decide⟩

/-- How many of the smallest positive magnitude a magnitude is. -/
def units (m : Magnitude) : Nat := m.mantissa * Nat.pow 2 m.exponent

/-- The number of units in one. -/
def unitsOfOne : Nat := Nat.pow 2 1074

/-- A quotient of units, rounded to the nearest magnitude; nothing when that would
not be finite.  The exponent is the one that leaves 53 bits of the quotient, or the
least; rounding up may need one bit more, which moves into the exponent. -/
def round? (numerator denominator : Nat) : Option Magnitude :=
  let exponent := Nat.log2 (numerator / denominator) - 52
  let mantissa := roundDiv numerator (denominator * Nat.pow 2 exponent)
  if mantissa = Nat.pow 2 53 then
    if h : IsMagnitude (Nat.pow 2 52) (exponent + 1) then
      some ⟨Nat.pow 2 52, exponent + 1, h⟩
    else none
  else if h : IsMagnitude mantissa exponent then some ⟨mantissa, exponent, h⟩
  else none

/-- Whether a magnitude is a whole number. -/
def isIntegral (m : Magnitude) : Bool := m.units % unitsOfOne == 0

end Magnitude

/-- A number of the language. -/
inductive Double where
  | nan
  | infinite (negative : Bool)
  | finite (negative : Bool) (magnitude : Magnitude)
  deriving DecidableEq

namespace Double

/-- A signed quotient of units, rounded; an infinity when it is too large. -/
def round (negative : Bool) (numerator denominator : Nat) : Double :=
  match Magnitude.round? numerator denominator with
  | some magnitude => finite negative magnitude
  | none => infinite negative

/-- The positive zero. -/
def zero : Double := finite false Magnitude.zero

/-- One. -/
def one : Double := round false Magnitude.unitsOfOne 1

/-- The signed number of units of a finite number, and zero for the others. -/
def scaled : Double → Int
  | finite negative m => if negative then -(m.units : Int) else m.units
  | _ => 0

/-! ## The interchange format

A number travels as a word of 64 bits: sign, eleven bits of exponent, 52 bits of
mantissa.  The leading bit of a full mantissa is not stored; adding the mantissa to
the shifted exponent carries it into the exponent field by itself. -/

/-- The number a word of bits stands for.  All words that are not a number are
one. -/
def ofBits (bits : Nat) : Double :=
  let negative := bits / Nat.pow 2 63 % 2 == 1
  let field := bits / Nat.pow 2 52 % Nat.pow 2 11
  let fraction := bits % Nat.pow 2 52
  if field = 2047 then (if fraction = 0 then infinite negative else nan)
  else
    let mantissa := if field = 0 then fraction else Nat.pow 2 52 + fraction
    if h : IsMagnitude mantissa (field - 1) then finite negative ⟨mantissa, field - 1, h⟩ else nan

/-- The word of bits that stands for a number. -/
def toBits : Double → Nat
  | nan => 2047 * Nat.pow 2 52 + Nat.pow 2 51
  | infinite negative => negative.toNat * Nat.pow 2 63 + 2047 * Nat.pow 2 52
  | finite negative m => negative.toNat * Nat.pow 2 63 + (m.exponent * Nat.pow 2 52 + m.mantissa)

/-- **A word of bits loses nothing.** -/
theorem ofBits_toBits (x : Double) : ofBits x.toBits = x := by
  cases x with
  | nan => decide
  | infinite negative => cases negative <;> decide
  | finite negative m =>
    obtain ⟨mantissa, exponent, h⟩ := m
    have hm := h
    unfold IsMagnitude at hm
    rw [Nat.pow_eq, Nat.pow_eq] at hm
    have hbits : toBits (finite negative ⟨mantissa, exponent, h⟩) =
        negative.toNat * 2 ^ 63 + (exponent * 2 ^ 52 + mantissa) := rfl
    have hsign : toBits (finite negative ⟨mantissa, exponent, h⟩) / Nat.pow 2 63 % 2
        = negative.toNat := by
      rw [hbits, Nat.pow_eq]
      cases negative <;> simp only [Bool.toNat_true, Bool.toNat_false] <;> omega
    have hfraction : toBits (finite negative ⟨mantissa, exponent, h⟩) % Nat.pow 2 52
        = if mantissa < Nat.pow 2 52 then mantissa else mantissa - Nat.pow 2 52 := by
      rw [hbits, Nat.pow_eq]
      cases negative <;> simp only [Bool.toNat_true, Bool.toNat_false] <;> split <;> omega
    have hfield : toBits (finite negative ⟨mantissa, exponent, h⟩) / Nat.pow 2 52 % Nat.pow 2 11
        = if mantissa < Nat.pow 2 52 then 0 else exponent + 1 := by
      rw [hbits, Nat.pow_eq, Nat.pow_eq]
      cases negative <;> simp only [Bool.toNat_true, Bool.toNat_false] <;> split <;> omega
    have hnegative : (negative.toNat == 1) = negative := by cases negative <;> rfl
    by_cases hs : mantissa < Nat.pow 2 52
    · have hs' := hs
      rw [Nat.pow_eq] at hs'
      have he : exponent = 0 := by omega
      subst he
      rw [if_pos hs] at hfraction hfield
      unfold ofBits
      simp only [hsign, hfraction, hfield, hnegative]
      rw [if_neg (by decide)]
      exact dif_pos h
    · have hsum : Nat.pow 2 52 + (mantissa - Nat.pow 2 52) = mantissa := by
        rw [Nat.pow_eq] at hs ⊢
        omega
      rw [if_neg hs] at hfraction hfield
      unfold ofBits
      simp only [hsign, hfraction, hfield, hnegative]
      rw [if_neg (by omega : exponent + 1 ≠ 2047)]
      simp only [if_neg (Nat.succ_ne_zero exponent), hsum, Nat.add_sub_cancel]
      exact dif_pos h

end Double
end HangulScript
