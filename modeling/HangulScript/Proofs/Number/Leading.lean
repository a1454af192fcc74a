import HangulScript.Proofs.Number.Notation
import Mathlib.Algebra.Order.Field.Power
import Mathlib.Algebra.Order.Field.Rat
import Mathlib.Tactic.FieldSimp
import Mathlib.Tactic.Linarith
import Mathlib.Tactic.NormNum

/-!
# Where the leading digit stands

Whether a number is laid out around a point or before a power of ten is decided by the place of
the leading digit of its shortest decimal, and that need not be the place of the leading digit of
the number: rounded to fewer digits, `99.6` would be `100`.  What can be said is that the shortest
decimal never crosses a round number.  It is one of the two neighbours of the number on a grid of
multiples of a power of ten, so any multiple of a higher power of ten, being on the grid as well,
has both on the same side (`Magnitude.le_value_shortest`, `Magnitude.value_shortest_le`).

Values are compared as rational numbers here.  Nothing that is computed is: the search for the
shortest decimal works with quotients of natural numbers, and `ratioTo_div` says which rational
numbers those are.
-/

namespace HangulScript

theorem ten_zpow_pos (e : Int) : (0 : ℚ) < 10 ^ e := zpow_pos (by norm_num) e

/-- The rational number that a decimal denotes. -/
def Decimal.value (d : Decimal) : ℚ := d.coefficient * 10 ^ d.exponent

namespace Magnitude

/-- The rational number that a magnitude is. -/
def value (m : Magnitude) : ℚ := m.units / unitsOfOne

/-- The number of units in one, with a name for the exponent, so that no step computes it. -/
theorem exists_unitsOfOne : ∃ n, n = 1074 ∧ unitsOfOne = 2 ^ n := ⟨1074, rfl, by decide +kernel⟩

theorem unitsOfOne_pos : 0 < unitsOfOne := by
  obtain ⟨n, -, hone⟩ := exists_unitsOfOne
  rw [hone]
  exact Nat.pow_pos (by decide)

/-- Magnitudes of as many units are equal. -/
theorem eq_of_units_eq {m n : Magnitude} (h : m.units = n.units) : m = n := by
  have hm := round?_units m
  rw [h, round?_units] at hm
  exact (Option.some.inj hm).symm

theorem units_zero : zero.units = 0 := Nat.zero_mul _

theorem units_pos {m : Magnitude} (h : m ≠ zero) : 0 < m.units :=
  Nat.pos_of_ne_zero fun hzero => h (eq_of_units_eq (hzero.trans units_zero.symm))

theorem isIntegral_zero : zero.isIntegral = true := by
  rw [isIntegral, units_zero, Nat.zero_mod]
  rfl

variable {m : Magnitude} {power e : Int} {k : Nat} {d : Decimal}

/-! ## Neighbours on a grid -/

theorem ratioTo_pos (m : Magnitude) (power : Int) : 0 < (m.ratioTo power).2 := by
  have hone := unitsOfOne_pos
  unfold ratioTo
  generalize unitsOfOne = one at hone
  split
  · exact Nat.mul_pos hone (Nat.pow_pos (by decide))
  · exact hone

/-- The quotient of natural numbers that a magnitude is over a power of ten. -/
theorem ratioTo_div (m : Magnitude) (power : Int) :
    ((m.ratioTo power).1 : ℚ) / (m.ratioTo power).2 = m.value / 10 ^ power := by
  unfold ratioTo value
  generalize unitsOfOne = one
  split
  next h =>
    obtain ⟨n, rfl⟩ := Int.eq_ofNat_of_zero_le h
    simp only [Int.toNat_natCast, Nat.pow_eq, Nat.cast_mul, Nat.cast_pow,
      Nat.cast_ofNat, zpow_natCast, div_div]
  next h =>
    obtain ⟨n, hn⟩ := Int.eq_ofNat_of_zero_le (show 0 ≤ -power by omega)
    have hpower : power = -(n : Int) := by omega
    simp only [hpower, neg_neg, Int.toNat_natCast, Nat.pow_eq, Nat.cast_mul, Nat.cast_pow,
      Nat.cast_ofNat, zpow_neg, zpow_natCast, div_inv_eq_mul, mul_div_right_comm]

/-- A neighbour of a magnitude is the multiple of the power below it or the next one. -/
theorem eq_of_mem_neighbours (h : d ∈ m.neighbours power) :
    d.exponent = power ∧ (d.coefficient = (m.ratioTo power).1 / (m.ratioTo power).2 ∨
      d.coefficient = (m.ratioTo power).1 / (m.ratioTo power).2 + 1) := by
  unfold neighbours at h
  generalize m.ratioTo power = ratio at h ⊢
  simp only at h
  split at h <;> simp only [List.mem_cons, List.not_mem_nil, or_false] at h <;>
    rcases h with rfl | rfl <;> simp

/-- A multiple of a higher power of ten is a multiple of a lower one. -/
theorem exists_on_grid (k : Nat) (h : power ≤ e) :
    ∃ n : Nat, (k : ℚ) * 10 ^ e = n * 10 ^ power := by
  obtain ⟨z, hz⟩ := Int.le.dest h
  refine ⟨k * 10 ^ z, ?_⟩
  rw [← hz, zpow_add₀ (by norm_num), zpow_natCast]
  push_cast
  ring

/-- What is on the grid and not above the magnitude is not above its neighbours. -/
theorem le_value_of_mem_neighbours (h : d ∈ m.neighbours power) (he : power ≤ e)
    (hk : k * 10 ^ e ≤ m.value) : k * 10 ^ e ≤ d.value := by
  obtain ⟨hexponent, hcoefficient⟩ := eq_of_mem_neighbours h
  obtain ⟨n, hn⟩ := exists_on_grid k he
  have hden : (0 : ℚ) < (m.ratioTo power).2 := by exact_mod_cast m.ratioTo_pos power
  have hbelow : n ≤ (m.ratioTo power).1 / (m.ratioTo power).2 := by
    rw [Nat.le_div_iff_mul_le (m.ratioTo_pos power)]
    rw [hn, ← le_div_iff₀ (ten_zpow_pos power), ← ratioTo_div, le_div_iff₀ hden] at hk
    exact_mod_cast hk
  have hle : n ≤ d.coefficient := by omega
  rw [hn, Decimal.value, hexponent]
  exact mul_le_mul_of_nonneg_right (by exact_mod_cast hle) (ten_zpow_pos power).le

/-- What is on the grid and above the magnitude is not below its neighbours. -/
theorem value_le_of_mem_neighbours (h : d ∈ m.neighbours power) (he : power ≤ e)
    (hk : m.value < k * 10 ^ e) : d.value ≤ k * 10 ^ e := by
  obtain ⟨hexponent, hcoefficient⟩ := eq_of_mem_neighbours h
  obtain ⟨n, hn⟩ := exists_on_grid k he
  have hden : (0 : ℚ) < (m.ratioTo power).2 := by exact_mod_cast m.ratioTo_pos power
  have hbelow : (m.ratioTo power).1 / (m.ratioTo power).2 < n := by
    rw [Nat.div_lt_iff_lt_mul (m.ratioTo_pos power)]
    rw [hn, ← div_lt_iff₀ (ten_zpow_pos power), ← ratioTo_div, div_lt_iff₀ hden] at hk
    exact_mod_cast hk
  have hle : d.coefficient ≤ n := by omega
  rw [hn, Decimal.value, hexponent]
  exact mul_le_mul_of_nonneg_right (by exact_mod_cast hle) (ten_zpow_pos power).le

/-! ## The shortest decimal -/

/-- All the digits of a magnitude denote what it is. -/
theorem value_exactDecimal (m : Magnitude) : m.exactDecimal.value = m.value := by
  obtain ⟨n, hn, hone⟩ := exists_unitsOfOne
  have hexponent : (-1074 : Int) = -(n : Int) := by omega
  have hexact : m.exactDecimal = ⟨m.units * Nat.pow 5 n, -(n : Int)⟩ := by
    rw [exactDecimal, hexponent, ← hn]
  rw [hexact, Decimal.value, value, hone]
  have hten : (10 : ℚ) ^ n = 2 ^ n * 5 ^ n := by rw [← mul_pow]; norm_num
  have hfive : (5 : ℚ) ^ n ≠ 0 := pow_ne_zero n (by norm_num)
  have htwo : (2 : ℚ) ^ n ≠ 0 := pow_ne_zero n (by norm_num)
  simp only [Nat.pow_eq, Nat.cast_mul, Nat.cast_pow, Nat.cast_ofNat, zpow_neg, zpow_natCast, hten]
  field_simp

/-- The shortest decimal is a neighbour of the magnitude on a grid that is no coarser than the
place of its leading digit, or it has all the digits. -/
theorem shortest_cases (m : Magnitude) :
    (∃ power ≤ m.leadingPower, m.shortest ∈ m.neighbours power) ∨ m.shortest = m.exactDecimal := by
  simp only [shortest]
  cases h : (List.range 17).findSome? fun (further : Nat) =>
      (m.neighbours (m.leadingPower - further)).find? fun d => d.magnitude? = some m with
  | none => exact Or.inr rfl
  | some d =>
    obtain ⟨further, -, hfound⟩ := List.exists_of_findSome?_eq_some h
    exact Or.inl ⟨_, by omega, List.mem_of_find?_eq_some hfound⟩

/-- **The shortest decimal does not fall below a round number** that the magnitude is not
below. -/
theorem le_value_shortest (he : m.leadingPower ≤ e) (hk : k * 10 ^ e ≤ m.value) :
    k * 10 ^ e ≤ m.shortest.value := by
  rcases m.shortest_cases with ⟨power, hp, hd⟩ | hd
  · exact le_value_of_mem_neighbours hd (hp.trans he) hk
  · rwa [hd, value_exactDecimal]

theorem pow_le_value_shortest (he : m.leadingPower ≤ e) (h : 10 ^ e ≤ m.value) :
    10 ^ e ≤ m.shortest.value := by
  simpa only [Nat.cast_one, one_mul] using
    le_value_shortest (k := 1) he (by rwa [Nat.cast_one, one_mul])

/-- **The shortest decimal does not rise above a round number** that the magnitude is below. -/
theorem value_shortest_le (he : m.leadingPower ≤ e) (hk : m.value < k * 10 ^ e) :
    m.shortest.value ≤ k * 10 ^ e := by
  rcases m.shortest_cases with ⟨power, hp, hd⟩ | hd
  · exact value_le_of_mem_neighbours hd (hp.trans he) hk
  · rw [hd, value_exactDecimal]
    exact hk.le

end Magnitude

/-! ## Counting digits -/

theorem pow_le_of_length_toDigits {n : Nat} (h : n ≠ 0) :
    10 ^ ((Nat.toDigits 10 n).length - 1) ≤ n := by
  generalize hl : (Nat.toDigits 10 n).length = l
  match l with
  | 0 | 1 => exact Nat.pos_of_ne_zero h
  | l + 2 =>
    refine Nat.le_of_not_lt fun hlt => ?_
    have := (Nat.length_toDigits_le_iff (by decide) (Nat.succ_pos l)).mpr hlt
    omega

theorem lt_pow_length_toDigits (n : Nat) : n < 10 ^ (Nat.toDigits 10 n).length :=
  (Nat.length_toDigits_le_iff (by decide) (List.length_pos_iff.mpr Nat.toDigits_ne_nil)).mp
    (Nat.le_refl _)

/-- The point of a decimal is behind the place of every power of ten that it is not below. -/
theorem Decimal.lt_point {d : Decimal} {e : Int} (h : 10 ^ e ≤ d.value) : e < d.digits.point := by
  have hcoefficient : (d.coefficient : ℚ) < 10 ^ ((Nat.toDigits 10 d.coefficient).length : Int) := by
    rw [zpow_natCast]
    exact_mod_cast lt_pow_length_toDigits d.coefficient
  have hvalue : d.value < 10 ^ d.digits.point := by
    show _ < (10 : ℚ) ^ (((Nat.toDigits 10 d.coefficient).length : Int) + d.exponent)
    rw [zpow_add₀ (by norm_num), Decimal.value]
    exact mul_lt_mul_of_pos_right hcoefficient (ten_zpow_pos _)
  exact (zpow_lt_zpow_iff_right₀ (by norm_num)).mp (h.trans_lt hvalue)

/-- The point of a decimal is not behind the place of a power of ten that it is below. -/
theorem Decimal.point_le {d : Decimal} {e : Int} (h : d.value < 10 ^ e) (hd : d.coefficient ≠ 0) :
    d.digits.point ≤ e := by
  have hvalue : (10 : ℚ) ^ (d.digits.point - 1) ≤ d.value := by
    have hlength : 0 < (Nat.toDigits 10 d.coefficient).length :=
      List.length_pos_iff.mpr Nat.toDigits_ne_nil
    have hpoint : d.digits.point - 1 =
        (((Nat.toDigits 10 d.coefficient).length - 1 : Nat) : Int) + d.exponent := by
      show (Nat.toDigits 10 d.coefficient).length + d.exponent - 1 = _
      omega
    rw [hpoint, zpow_add₀ (by norm_num), zpow_natCast, Decimal.value]
    exact mul_le_mul_of_nonneg_right (by exact_mod_cast pow_le_of_length_toDigits hd)
      (ten_zpow_pos _).le
  have := (zpow_lt_zpow_iff_right₀ (by norm_num : (1 : ℚ) < 10)).mp (hvalue.trans_lt h)
  omega

namespace Magnitude

variable {m : Magnitude}

/-- The place that the search begins with is not above the magnitude. -/
theorem leadingPower_le (h : m ≠ zero) : (10 : ℚ) ^ m.leadingPower ≤ m.value := by
  obtain ⟨n, hn, hlarge⟩ : ∃ n, n = 330 ∧ unitsOfOne ≤ Nat.pow 10 n := ⟨330, rfl, by decide +kernel⟩
  have hleading : m.leadingPower =
      ((Nat.toDigits 10 (m.units * Nat.pow 10 n / unitsOfOne)).length : Int) - 1 - n := by
    subst hn
    unfold leadingPower
    omega
  clear hn
  have hone : (0 : ℚ) < unitsOfOne := by exact_mod_cast unitsOfOne_pos
  have hne : m.units * Nat.pow 10 n / unitsOfOne ≠ 0 := by
    refine Nat.div_ne_zero_iff.mpr ⟨unitsOfOne_pos.ne', ?_⟩
    exact hlarge.trans (Nat.le_mul_of_pos_left _ (units_pos h))
  have hpow := pow_le_of_length_toDigits hne
  have hlength : 0 < (Nat.toDigits 10 (m.units * Nat.pow 10 n / unitsOfOne)).length :=
    List.length_pos_iff.mpr Nat.toDigits_ne_nil
  rw [Nat.le_div_iff_mul_le unitsOfOne_pos, Nat.pow_eq] at hpow
  rw [hleading]
  generalize (Nat.toDigits 10 (m.units * Nat.pow 10 n / unitsOfOne)).length = l at hpow hlength
  have hl : (l : Int) - 1 = ((l - 1 : Nat) : Int) := by omega
  rw [hl, zpow_sub₀ (by norm_num), zpow_natCast, zpow_natCast, value,
    div_le_div_iff₀ (pow_pos (by norm_num) n) hone]
  exact_mod_cast hpow

/-- A number with a fraction is below `2 ^ 52`. -/
theorem value_lt_of_not_isIntegral (h : m.isIntegral = false) : m.value < 2 ^ 52 := by
  obtain ⟨one, hone', hone⟩ := exists_unitsOfOne
  obtain ⟨n, rfl⟩ : ∃ n, one = n + 1 := ⟨one - 1, by omega⟩
  have hexponent : m.exponent ≤ n := by
    refine Nat.le_of_not_lt fun hlt => ?_
    obtain ⟨z, hz⟩ := Nat.exists_eq_add_of_le hlt
    have hwhole : m.units % unitsOfOne = 0 := by
      rw [units, hz, Nat.pow_eq, pow_add, hone, ← Nat.mul_assoc, Nat.mul_right_comm]
      exact Nat.mul_mod_left ..
    simp [isIntegral, hwhole] at h
  have hunits : m.units < 2 ^ 52 * unitsOfOne := by
    calc m.units
      _ < 2 ^ 53 * 2 ^ m.exponent :=
        Nat.mul_lt_mul_of_pos_right m.isMagnitude.1 (Nat.pow_pos (by decide))
      _ ≤ 2 ^ 53 * 2 ^ n := Nat.mul_le_mul_left _ (Nat.pow_le_pow_right (by decide) hexponent)
      _ = 2 ^ 52 * unitsOfOne := by rw [hone, pow_succ 2 n]; ring
  have hpos : (0 : ℚ) < unitsOfOne := by exact_mod_cast unitsOfOne_pos
  rw [value, div_lt_iff₀ hpos]
  exact_mod_cast hunits

/-- **A number with a fraction that is not too small is laid out around a point.** -/
theorem written_of_not_isIntegral (h : m.isIntegral = false)
    (hsmall : unitsOfOne ≤ 10000 * m.units) : m.written = m.shortest.digits.positional := by
  have hne : m ≠ zero := by
    rintro rfl
    rw [isIntegral_zero] at h
    cases h
  have hleading := leadingPower_le hne
  have hlarge := value_lt_of_not_isIntegral h
  have hpos : (0 : ℚ) < unitsOfOne := by exact_mod_cast unitsOfOne_pos
  have hvalue : (10 : ℚ) ^ (-4 : Int) ≤ m.value := by
    have hcast : (unitsOfOne : ℚ) ≤ 10000 * m.units := by exact_mod_cast hsmall
    rw [value, le_div_iff₀ hpos]
    generalize (unitsOfOne : ℚ) = one at hcast
    norm_num
    linarith only [hcast]
  have hlow : -4 < m.shortest.digits.point := by
    rcases le_total m.leadingPower (-4) with hl | hl
    · exact Decimal.lt_point (pow_le_value_shortest hl hvalue)
    · exact hl.trans_lt (Decimal.lt_point (pow_le_value_shortest le_rfl hleading))
  have hhigh : m.shortest.digits.point ≤ 16 := by
    have hl : m.leadingPower ≤ 15 := by
      have hlt : (10 : ℚ) ^ m.leadingPower < 10 ^ (16 : Int) := by
        refine hleading.trans_lt (hlarge.trans ?_)
        norm_num
      have := (zpow_lt_zpow_iff_right₀ (by norm_num : (1 : ℚ) < 10)).mp hlt
      omega
    refine Decimal.point_le ?_ (Decimal.coefficient_ne_zero m.magnitude?_shortest hne)
    refine (value_shortest_le (k := 5) hl (hlarge.trans ?_)).trans_lt ?_ <;> norm_num
  unfold written Digits.laidOut
  rw [if_neg hne, if_pos ⟨hlow, hhigh⟩]

end Magnitude
end HangulScript
