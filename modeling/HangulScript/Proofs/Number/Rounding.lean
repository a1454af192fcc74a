import HangulScript.Number.Decimal
import Mathlib.Data.List.Induction
import Mathlib.Tactic.Ring

/-!
# What rounding does to a quotient

All results go through `Magnitude.round?`, which is given a quotient as two numbers.  Three facts
about it are enough for everything that is read and shown.

* Only the quotient counts, not the two numbers (`round?_mul_left`).
* A whole number of units that a magnitude has is rounded to that magnitude (`round?_units`).
* Less than half a unit is rounded to zero, and `2 ^ 2098` units or more to nothing.

The last one is why a numeral with an enormous power of ten can be answered without computing the
power: `Double.ofDecimal` answers early, and with what rounding would have given
(`Double.ofDecimal_eq`).  So the number that a numeral stands for depends on nothing but the
decimal that its digits and its power denote.
-/

namespace HangulScript

/-! ## Quotients -/

theorem roundDiv_mul_left {k : Nat} (hk : 0 < k) (numerator denominator : Nat) :
    roundDiv (k * numerator) (k * denominator) = roundDiv numerator denominator := by
  unfold roundDiv
  have hless : ∀ a b : Nat, 2 * (k * a) < k * b ↔ 2 * a < b := fun a b => by
    rw [Nat.mul_left_comm]
    exact Nat.mul_lt_mul_left hk
  have hmore : ∀ a b : Nat, k * b < 2 * (k * a) ↔ b < 2 * a := fun a b => by
    rw [Nat.mul_left_comm]
    exact Nat.mul_lt_mul_left hk
  simp only [Nat.mul_div_mul_left _ _ hk, Nat.mul_mod_mul_left, hless, hmore]

/-- A whole number is its own rounding. -/
theorem roundDiv_mul_self (quotient : Nat) {denominator : Nat} (hd : 0 < denominator) :
    roundDiv (quotient * denominator) denominator = quotient := by
  unfold roundDiv
  simp only [Nat.mul_div_cancel _ hd, Nat.mul_mod_left, Nat.mul_zero, if_pos hd]

theorem roundDiv_of_half {numerator denominator : Nat} (h : 2 * numerator < denominator) :
    roundDiv numerator denominator = 0 := by
  have hlt : numerator < denominator := by omega
  unfold roundDiv
  simp only [Nat.div_eq_of_lt hlt, Nat.mod_eq_of_lt hlt, if_pos h]

/-! ## Magnitudes -/

namespace Magnitude

/-- **Only the quotient counts.** -/
theorem round?_mul_left {k : Nat} (hk : 0 < k) (numerator denominator : Nat) :
    round? (k * numerator) (k * denominator) = round? numerator denominator := by
  unfold round?
  simp only [Nat.mul_div_mul_left _ _ hk, Nat.mul_assoc, roundDiv_mul_left hk]

/-- A number that has a form is rounded to it. -/
theorem round?_eq_some {numerator denominator : Nat} {m : Magnitude}
    (he : Nat.log2 (numerator / denominator) - 52 = m.exponent)
    (hm : roundDiv numerator (denominator * Nat.pow 2 m.exponent) = m.mantissa) :
    round? numerator denominator = some m := by
  have hne : m.mantissa ≠ Nat.pow 2 53 := Nat.ne_of_lt m.isMagnitude.1
  unfold round?
  simp only [he, hm, if_neg hne, dif_pos m.isMagnitude]

/-- **A magnitude is its own rounding.** -/
theorem round?_units (m : Magnitude) : round? m.units 1 = some m := by
  obtain ⟨hlt, hfull, -⟩ := m.isMagnitude
  rw [Nat.pow_eq] at hlt hfull
  have hpos : 0 < Nat.pow 2 m.exponent := Nat.pow_pos (by decide)
  refine round?_eq_some ?_ ?_
  · rw [Nat.div_one, units]
    rcases hfull with hleast | hfull
    · -- the least exponent: the mantissa is any number of at most 53 bits
      rw [hleast, Nat.pow_eq, Nat.pow_zero, Nat.mul_one]
      by_cases hzero : m.mantissa = 0
      · rw [hzero]
        decide
      · have := (Nat.log2_lt hzero).mpr hlt
        omega
    · have hlog : Nat.log2 (m.mantissa * Nat.pow 2 m.exponent) = 52 + m.exponent := by
        rw [Nat.pow_eq] at hpos ⊢
        refine (Nat.log2_eq_iff (Nat.mul_ne_zero (by omega) (by omega))).mpr ⟨?_, ?_⟩
        · rw [Nat.pow_add]
          exact Nat.mul_le_mul_right _ hfull
        · rw [show 52 + m.exponent + 1 = 53 + m.exponent by omega, Nat.pow_add]
          exact Nat.mul_lt_mul_of_pos_right hlt hpos
      omega
  · rw [Nat.one_mul, units]
    exact roundDiv_mul_self _ hpos

/-- Less than half of the smallest magnitude is nothing. -/
theorem round?_of_half {numerator denominator : Nat} (h : 2 * numerator < denominator) :
    round? numerator denominator = some zero := by
  refine round?_eq_some ?_ ?_
  · rw [Nat.div_eq_of_lt (by omega)]
    decide
  · show roundDiv numerator (denominator * 1) = 0
    rw [Nat.mul_one]
    exact roundDiv_of_half h

/-- What has more than `2098` bits is too large. -/
theorem round?_of_large {numerator denominator : Nat} (hd : 0 < denominator)
    (h : 2 ^ 2098 * denominator ≤ numerator) : round? numerator denominator = none := by
  have hquotient : 2 ^ 2098 ≤ numerator / denominator := (Nat.le_div_iff_mul_le hd).mpr h
  have hne : numerator / denominator ≠ 0 := by
    have := Nat.pow_pos (n := 2098) (show 0 < 2 by decide)
    omega
  have hlog := (Nat.le_log2 hne).mpr hquotient
  have hexponent : 2045 < Nat.log2 (numerator / denominator) - 52 := by omega
  have hnot : ∀ {mantissa exponent : Nat}, 2045 < exponent → ¬ IsMagnitude mantissa exponent :=
    fun he hm => absurd hm.2.2 (Nat.not_le_of_lt he)
  unfold round?
  simp only [dif_neg (hnot hexponent), dif_neg (hnot (Nat.lt_succ_of_lt hexponent)), ite_self]

end Magnitude

/-! ## Digits -/

theorem ofDigits_append_digit (digits : List Nat) (d : Nat) :
    ofDigits (digits ++ [d]) = 10 * ofDigits digits + d := by
  rw [ofDigits, List.foldl_append]
  rfl

theorem ofDigits_append (front back : List Nat) :
    ofDigits (front ++ back) = ofDigits front * 10 ^ back.length + ofDigits back := by
  induction back using List.reverseRecOn with
  | nil =>
    rw [List.append_nil, List.length_nil, pow_zero, Nat.mul_one]
    rfl
  | append_singleton back d ih =>
    rw [← List.append_assoc, ofDigits_append_digit, ofDigits_append_digit, ih, List.length_append,
      List.length_singleton]
    ring

/-- Zeros in front denote nothing. -/
theorem ofDigits_zero_cons (digits : List Nat) : ofDigits (0 :: digits) = ofDigits digits := rfl

theorem ofDigits_replicate_zero (n : Nat) : ofDigits (List.replicate n 0) = 0 := by
  induction n with
  | zero => rfl
  | succ n ih => rw [List.replicate_succ, ofDigits_zero_cons, ih]

theorem ofDigits_dropWhile_zero (digits : List Nat) :
    ofDigits (digits.dropWhile (· == 0)) = ofDigits digits := by
  induction digits with
  | nil => rfl
  | cons d rest ih =>
    rw [List.dropWhile_cons]
    split
    · next hd => rw [ih, eq_of_beq hd, ofDigits_zero_cons]
    · rfl

theorem ofDigits_lt {digits : List Nat} (h : ∀ d ∈ digits, d < 10) :
    ofDigits digits < 10 ^ digits.length := by
  induction digits using List.reverseRecOn with
  | nil => exact Nat.one_pos
  | append_singleton digits d ih =>
    have hd := h d (by simp)
    have hrest := ih fun e he => h e (List.mem_append_left _ he)
    rw [ofDigits_append_digit, List.length_append, List.length_singleton, pow_succ]
    omega

theorem le_ofDigits_cons {d : Nat} (hd : d ≠ 0) (rest : List Nat) :
    10 ^ rest.length ≤ ofDigits (d :: rest) := by
  have hfirst : ofDigits [d] = d := Nat.zero_add d
  calc 10 ^ rest.length
    _ ≤ d * 10 ^ rest.length := Nat.le_mul_of_pos_left _ (Nat.pos_of_ne_zero hd)
    _ ≤ ofDigits [d] * 10 ^ rest.length + ofDigits rest := by rw [hfirst]; exact Nat.le_add_right ..
    _ = ofDigits (d :: rest) := (ofDigits_append [d] rest).symm

/-! ## Decimals -/

namespace Decimal

/-- A decimal as one quotient, however its power of ten is given as a difference. -/
theorem magnitude?_sub (c a b : Nat) :
    magnitude? ⟨c, (a : Int) - b⟩ =
      Magnitude.round? (c * 10 ^ a * Magnitude.unitsOfOne) (10 ^ b) := by
  have hpos : ∀ n : Nat, 0 < 10 ^ n := fun n => Nat.pow_pos (by decide)
  rcases Nat.le_total b a with h | h
  · obtain ⟨k, rfl⟩ := Nat.exists_eq_add_of_le h
    have hk : ((b + k : Nat) : Int) - b = k := by omega
    have hshift : c * 10 ^ (b + k) * Magnitude.unitsOfOne =
        10 ^ b * (c * 10 ^ k * Magnitude.unitsOfOne) := by ring
    have hround := Magnitude.round?_mul_left (hpos b) (c * 10 ^ k * Magnitude.unitsOfOne) 1
    rw [Nat.mul_one, ← hshift] at hround
    rw [hround, hk]
    rfl
  · obtain ⟨k, rfl⟩ := Nat.exists_eq_add_of_le h
    have hk : (a : Int) - (a + k : Nat) = -k := by omega
    have hshift : c * 10 ^ a * Magnitude.unitsOfOne = 10 ^ a * (c * Magnitude.unitsOfOne) := by ring
    rw [hshift, pow_add, Magnitude.round?_mul_left (hpos a), hk]
    cases k with
    | zero =>
      have hratio : ratio ⟨c, -((0 : Nat) : Int)⟩ = (c * 1 * Magnitude.unitsOfOne, 1) :=
        if_pos (by decide : (0 : Int) ≤ -((0 : Nat) : Int))
      rw [magnitude?, hratio, Nat.mul_one, pow_zero]
    | succ k =>
      have hratio : ratio ⟨c, -((k + 1 : Nat) : Int)⟩ = (c * Magnitude.unitsOfOne, 10 ^ (k + 1)) :=
        if_neg (by omega : ¬ (0 : Int) ≤ -((k + 1 : Nat) : Int))
      rw [magnitude?, hratio]

/-- Every power is a difference. -/
theorem exists_eq_sub (e : Int) : ∃ a b : Nat, e = (a : Int) - b :=
  ⟨e.toNat, (-e).toNat, by omega⟩

/-- Zeros at the end of the coefficient count for the power of ten. -/
theorem magnitude?_mul_pow (c z : Nat) (e : Int) :
    magnitude? ⟨c * 10 ^ z, e⟩ = magnitude? ⟨c, e + z⟩ := by
  obtain ⟨a, b, rfl⟩ := exists_eq_sub e
  have hz : (a : Int) - b + z = ((z + a : Nat) : Int) - b := by omega
  rw [hz, magnitude?_sub, magnitude?_sub, Nat.mul_assoc c, ← pow_add]

theorem magnitude?_zero (e : Int) : magnitude? ⟨0, e⟩ = some Magnitude.zero := by
  obtain ⟨a, b, rfl⟩ := exists_eq_sub e
  rw [magnitude?_sub]
  refine Magnitude.round?_of_half ?_
  rw [Nat.zero_mul, Nat.zero_mul]
  exact Nat.pow_pos (by decide)

theorem magnitude?_of_small {c n : Nat} {e : Int} (hc : c < 10 ^ n) (h : n + e < -330) :
    magnitude? ⟨c, e⟩ = some Magnitude.zero := by
  obtain ⟨b, rfl⟩ : ∃ b : Nat, e = (0 : Nat) - (b : Int) := ⟨(-e).toNat, by omega⟩
  have hunits : 2 * Magnitude.unitsOfOne < 10 ^ 331 := by decide +kernel
  rw [magnitude?_sub]
  refine Magnitude.round?_of_half ?_
  calc 2 * (c * 10 ^ 0 * Magnitude.unitsOfOne)
    _ = c * (2 * Magnitude.unitsOfOne) := by ring
    _ < 10 ^ n * 10 ^ 331 := Nat.mul_lt_mul'' hc hunits
    _ = 10 ^ (n + 331) := (pow_add ..).symm
    _ ≤ 10 ^ b := Nat.pow_le_pow_right (by decide) (by omega)

theorem magnitude?_of_large {c n : Nat} {e : Int} (hc : 10 ^ n ≤ c) (h : 310 ≤ n + e) :
    magnitude? ⟨c, e⟩ = none := by
  obtain ⟨a, b, rfl⟩ := exists_eq_sub e
  have hpower : 310 + b ≤ n + a := by omega
  have hunits : 2 ^ 2098 ≤ 10 ^ 310 * Magnitude.unitsOfOne := by decide +kernel
  rw [magnitude?_sub]
  refine Magnitude.round?_of_large (Nat.pow_pos (by decide)) ?_
  calc 2 ^ 2098 * 10 ^ b
    _ ≤ 10 ^ 310 * Magnitude.unitsOfOne * 10 ^ b := Nat.mul_le_mul_right _ hunits
    _ = 10 ^ (310 + b) * Magnitude.unitsOfOne := by rw [pow_add, Nat.mul_right_comm]
    _ ≤ 10 ^ (n + a) * Magnitude.unitsOfOne :=
      Nat.mul_le_mul_right _ (Nat.pow_le_pow_right (by decide) hpower)
    _ = 10 ^ n * 10 ^ a * Magnitude.unitsOfOne := by rw [pow_add]
    _ ≤ c * 10 ^ a * Magnitude.unitsOfOne :=
      Nat.mul_le_mul_right _ (Nat.mul_le_mul_right _ hc)

end Decimal

/-! ## Numerals -/

namespace Double

/-- The number nearest to a decimal, an infinity if the decimal is too large. -/
def nearest (negative : Bool) (d : Decimal) : Double :=
  match d.magnitude? with
  | some m => finite negative m
  | none => infinite negative

theorem nearest_of_some (negative : Bool) {d : Decimal} {m : Magnitude}
    (h : d.magnitude? = some m) : nearest negative d = finite negative m := by
  unfold nearest
  rw [h]

theorem nearest_congr (negative : Bool) {d e : Decimal} (h : d.magnitude? = e.magnitude?) :
    nearest negative d = nearest negative e := by
  unfold nearest
  rw [h]

theorem nearest_of_none (negative : Bool) {d : Decimal} (h : d.magnitude? = none) :
    nearest negative d = infinite negative := by
  unfold nearest
  rw [h]

/-- **A numeral is rounded**, also where the answer is given early. -/
theorem ofDecimal_eq (negative : Bool) {digits : List Nat} (h : ∀ d ∈ digits, d < 10) (e : Int) :
    ofDecimal negative digits e = nearest negative ⟨ofDigits digits, e⟩ := by
  have hdigits : ∀ d ∈ digits.dropWhile (· == 0), d < 10 := fun d hd =>
    h d ((List.dropWhile_sublist _).subset hd)
  have hfirst := List.head?_dropWhile_not (· == 0) digits
  rw [← ofDigits_dropWhile_zero digits]
  unfold ofDecimal
  generalize digits.dropWhile (· == 0) = significant at hdigits hfirst
  cases significant with
  | nil =>
    have hzero : ofDigits [] = 0 := rfl
    rw [hzero, nearest_of_some _ (Decimal.magnitude?_zero e)]
    simp only [List.isEmpty_nil, true_or, if_true]
  | cons d rest =>
    simp only [List.isEmpty_cons, Bool.false_eq_true, false_or]
    split
    next hsmall =>
      rw [nearest_of_some _ (Decimal.magnitude?_of_small (ofDigits_lt hdigits) hsmall)]
    next =>
      split
      next hlarge =>
        have hd : d ≠ 0 := by simpa using hfirst
        rw [List.length_cons] at hlarge
        rw [nearest_of_none _ (Decimal.magnitude?_of_large (le_ofDigits_cons hd rest) (by omega))]
      next =>
        unfold nearest
        generalize Decimal.magnitude? ⟨ofDigits (d :: rest), e⟩ = rounded
        cases rounded <;> rfl

end Double
end HangulScript
