import HangulScript.Json.Reader
import HangulScript.Number.Display
import HangulScript.Proofs.Number.Rounding
import Mathlib.Data.List.TakeWhile

/-!
# What the digits of a number denote

A number is written in three steps: a decimal is chosen for it, the decimal gives its digits, and
the digits are laid out around a point or before a power of ten.  Each of the first two keeps the
number.  The decimal rounds to the number, because it was chosen by rounding it
(`Magnitude.magnitude?_shortest`); and its digits denote a decimal that rounds to the same number,
because only zeros at the end are left out (`Decimal.magnitude?_digits`).

The digits are also *proper*: there is one, and the first is no zero.  Without that a reader, who
takes a zero in front for the whole number, would stop too early.
-/

namespace HangulScript

/-! ## The decimal -/

namespace Magnitude

/-- All the digits of a number denote it exactly. -/
theorem magnitude?_exactDecimal (m : Magnitude) : m.exactDecimal.magnitude? = some m := by
  -- the exponent has a name, so that no step but the first computes the powers
  obtain ⟨n, hn, hpower⟩ : ∃ n, n = 1074 ∧ Nat.pow 5 n * unitsOfOne = 10 ^ n :=
    ⟨1074, rfl, by decide +kernel⟩
  have hexact : m.exactDecimal = ⟨m.units * Nat.pow 5 n, (0 : Nat) - (n : Int)⟩ := by
    subst hn
    rfl
  have hten : m.units * Nat.pow 5 n * 10 ^ 0 * unitsOfOne = 10 ^ n * m.units := by
    rw [pow_zero, Nat.mul_one, Nat.mul_assoc, hpower, Nat.mul_comm]
  have hunits := round?_mul_left (k := 10 ^ n) (Nat.pow_pos (by decide)) m.units 1
  rw [hexact, Decimal.magnitude?_sub, hten, ← round?_units m, ← hunits, Nat.mul_one]

/-- **The decimal that is shown rounds to the number.** -/
theorem magnitude?_shortest (m : Magnitude) : m.shortest.magnitude? = some m := by
  simp only [shortest]
  cases h : (List.range 17).findSome? fun (further : Nat) =>
      (m.neighbours (m.leadingPower - further)).find? fun d => d.magnitude? = some m with
  | none => simpa only [Option.getD_none] using magnitude?_exactDecimal m
  | some d =>
    obtain ⟨further, -, hfound⟩ := List.exists_of_findSome?_eq_some h
    have hm := List.find?_some hfound
    simpa only [Option.getD_some, decide_eq_true_eq] using hm

end Magnitude

/-- A decimal of zero is rounded to no other number. -/
theorem Decimal.coefficient_ne_zero {d : Decimal} {m : Magnitude} (hd : d.magnitude? = some m)
    (hm : m ≠ Magnitude.zero) : d.coefficient ≠ 0 := by
  obtain ⟨c, e⟩ := d
  rintro rfl
  exact hm (Option.some.inj (hd.symm.trans (magnitude?_zero e)))

/-! ## Its digits -/

namespace Json

theorem isDigit_of_mem_toDigits {n : Nat} {c : Char} (h : c ∈ Nat.toDigits 10 n) :
    isDigit c = true :=
  Nat.isDigit_of_mem_toDigits (by decide) (by decide) h

theorem digitValues_lt {text : List Char} (h : ∀ c ∈ text, isDigit c = true) :
    ∀ d ∈ digitValues text, d < 10 := by
  intro d hd
  obtain ⟨c, hc, rfl⟩ := List.mem_map.mp hd
  have hc := Char.isDigit_iff_toNat.mp (h c hc)
  have : '9'.toNat = 57 := rfl
  omega

theorem ofDigits_toDigits (n : Nat) : ofDigits (digitValues (Nat.toDigits 10 n)) = n := by
  rw [digitValues, ofDigits, List.foldl_map]
  exact Nat.ofDigitChars_ten_toDigits

theorem digitValues_append (front back : List Char) :
    digitValues (front ++ back) = digitValues front ++ digitValues back := List.map_append ..

theorem digitValues_zeros (n : Nat) :
    digitValues (List.replicate n '0') = List.replicate n 0 := List.map_replicate ..

/-- Zeros at the end multiply by a power of ten. -/
theorem ofDigits_append_zeros (text : List Char) (n : Nat) :
    ofDigits (digitValues (text ++ List.replicate n '0')) =
      ofDigits (digitValues text) * 10 ^ n := by
  rw [digitValues_append, ofDigits_append, digitValues_zeros, ofDigits_replicate_zero,
    List.length_replicate, Nat.add_zero]

/-- Zeros in front denote nothing. -/
theorem ofDigits_zeros_append (n : Nat) (text : List Char) :
    ofDigits (digitValues (List.replicate n '0' ++ text)) = ofDigits (digitValues text) := by
  rw [digitValues_append, ofDigits_append, digitValues_zeros, ofDigits_replicate_zero,
    Nat.zero_mul, Nat.zero_add]

end Json

/-- The digits of a positive number do not begin with a zero. -/
theorem head?_toDigits_ne_zero {n : Nat} (h : n ≠ 0) : (Nat.toDigits 10 n).head? ≠ some '0' := by
  intro hzero
  obtain ⟨rest, hdigits⟩ := List.head?_eq_some_iff.mp hzero
  have hn : n = ofDigits (Json.digitValues rest) := by
    rw [← Json.ofDigits_toDigits n, hdigits]
    exact ofDigits_zero_cons _
  have hrest : n < 10 ^ rest.length := by
    have hlength : (Json.digitValues rest).length = rest.length := List.length_map _
    rw [hn, ← hlength]
    refine ofDigits_lt (Json.digitValues_lt fun c hc => ?_)
    exact Json.isDigit_of_mem_toDigits (n := n) (hdigits ▸ List.mem_cons_of_mem _ hc)
  cases rest with
  | nil => exact h hn
  | cons c rest =>
    have hlength := (Nat.length_toDigits_le_iff (by decide) (Nat.succ_pos _)).mpr hrest
    rw [hdigits] at hlength
    exact Nat.not_succ_le_self _ hlength

/-- A list is what is left of it without some element at its end, and the element repeated. -/
theorem exists_append_replicate {α : Type} [BEq α] [LawfulBEq α] (a : α) (l : List α) :
    ∃ n, l = (l.reverse.dropWhile (· == a)).reverse ++ List.replicate n a := by
  have hrepeated : l.reverse.takeWhile (· == a) =
      List.replicate (l.reverse.takeWhile (· == a)).length a :=
    List.eq_replicate_iff.mpr ⟨rfl, fun b hb => by simpa using List.mem_takeWhile_imp hb⟩
  refine ⟨(l.reverse.takeWhile (· == a)).length, ?_⟩
  have hreverse := congrArg List.reverse
    (List.takeWhile_append_dropWhile (p := (· == a)) (l := l.reverse))
  rw [List.reverse_append, List.reverse_reverse, hrepeated, List.reverse_replicate] at hreverse
  exact hreverse.symm

/-- Digits that begin with one that is no zero. -/
structure ProperDigits (text : List Char) : Prop where
  isDigit : ∀ c ∈ text, Json.isDigit c = true
  begins : ∃ c rest, text = c :: rest ∧ c ≠ '0'

theorem properDigits_toDigits {n : Nat} (h : n ≠ 0) : ProperDigits (Nat.toDigits 10 n) := by
  refine ⟨fun c hc => Json.isDigit_of_mem_toDigits hc, ?_⟩
  cases hdigits : Nat.toDigits 10 n with
  | nil => exact absurd hdigits Nat.toDigits_ne_nil
  | cons c rest =>
    refine ⟨c, rest, rfl, fun hc => head?_toDigits_ne_zero h ?_⟩
    rw [hdigits, hc]
    rfl

namespace ProperDigits

variable {text more : List Char}

theorem ne_nil (h : ProperDigits text) : text ≠ [] := by
  obtain ⟨c, rest, rfl, -⟩ := h.begins
  exact List.cons_ne_nil c rest

theorem append (h : ProperDigits text) (hm : ∀ c ∈ more, Json.isDigit c = true) :
    ProperDigits (text ++ more) := by
  obtain ⟨c, rest, rfl, hc⟩ := h.begins
  exact ⟨fun d hd => (List.mem_append.mp hd).elim (h.isDigit d) (hm d), c, rest ++ more, rfl, hc⟩

/-- What digits begin with is proper if they are. -/
theorem of_append (h : ProperDigits (text ++ more)) (hne : text ≠ []) : ProperDigits text := by
  refine ⟨fun c hc => h.isDigit c (List.mem_append_left _ hc), ?_⟩
  obtain ⟨c, rest, rfl⟩ := List.exists_cons_of_ne_nil hne
  obtain ⟨d, others, hcons, hd⟩ := h.begins
  exact ⟨c, rest, rfl, (List.cons.inj hcons).1 ▸ hd⟩

end ProperDigits

/-- The decimal that digits around a point denote. -/
def Digits.decimal (d : Digits) : Decimal :=
  ⟨ofDigits (Json.digitValues d.significant), d.point - d.significant.length⟩

namespace Decimal

variable (d : Decimal)

/-- The digits of a decimal are all but some zeros at the end. -/
theorem exists_toDigits : ∃ zeros, Nat.toDigits 10 d.coefficient =
    d.digits.significant ++ List.replicate zeros '0' :=
  exists_append_replicate '0' _

theorem coefficient_eq {zeros : Nat} (h : Nat.toDigits 10 d.coefficient =
    d.digits.significant ++ List.replicate zeros '0') :
    d.coefficient = ofDigits (Json.digitValues d.digits.significant) * 10 ^ zeros := by
  rw [← Json.ofDigits_append_zeros, ← h, Json.ofDigits_toDigits]

theorem properDigits_digits (h : d.coefficient ≠ 0) : ProperDigits d.digits.significant := by
  obtain ⟨zeros, hdigits⟩ := d.exists_toDigits
  have hall := properDigits_toDigits h
  rw [hdigits] at hall
  refine hall.of_append fun hnil => h ?_
  rw [d.coefficient_eq hdigits, hnil]
  exact Nat.zero_mul _

/-- **Zeros at the end do not count.** -/
theorem magnitude?_digits : d.digits.decimal.magnitude? = d.magnitude? := by
  obtain ⟨zeros, hdigits⟩ := d.exists_toDigits
  have hpoint : d.digits.point - d.digits.significant.length = zeros + d.exponent := by
    have hlength := congrArg List.length hdigits
    rw [List.length_append, List.length_replicate] at hlength
    show ((Nat.toDigits 10 d.coefficient).length : Int) + d.exponent - _ = _
    omega
  rw [Digits.decimal, hpoint, Int.add_comm, ← magnitude?_mul_pow, ← d.coefficient_eq hdigits]

end Decimal

/-- **What the digits of a number denote is rounded to it.** -/
theorem Magnitude.magnitude?_digits_shortest (m : Magnitude) :
    m.shortest.digits.decimal.magnitude? = some m :=
  m.shortest.magnitude?_digits.trans m.magnitude?_shortest

end HangulScript
