import HangulScript.Proofs.Number.Notation
import HangulScript.Proofs.Scanning.Numerals

/-!
# Numbers in tree files

What is written for a number is read as that number, whichever of the layouts it is written in,
and for the infinities and the number that is none as well (`Json.atom?_written`); and so are
integers of any size (`Json.atom?_integer`).

The reader takes as much of a text as goes on a number, so the text behind the number matters: it
must not begin with a digit, a point or an `e`.  In a tree file a comma, a newline or nothing is
behind every number.
-/

namespace HangulScript
namespace Json

/-- A text that does not go on a number. -/
def EndsNumber (rest : List Char) : Prop :=
  ∀ c ∈ rest.head?, isDigit c = false ∧ c ≠ '.' ∧ c ≠ 'e' ∧ c ≠ 'E'

theorem endsNumber_nil : EndsNumber [] := fun _ hc => nomatch hc

/-- What begins with another character does not begin with a digit. -/
theorem isDigit_head_cons {c : Char} (h : isDigit c = false) (rest : List Char) :
    ∀ d ∈ (c :: rest).head?, isDigit d = false := fun _ hd => Option.some.inj hd ▸ h

/-! ## The parts of a number -/

section Parts

variable {digits rest : List Char}

theorem whole?_zero (rest : List Char) : whole? ('0' :: rest) = some (['0'], rest) := rfl

theorem whole?_proper (h : ProperDigits digits) (hrest : ∀ c ∈ rest.head?, isDigit c = false) :
    whole? (digits ++ rest) = some (digits, rest) := by
  obtain ⟨htake, hdrop⟩ := takeWhile_append_stop h.isDigit hrest
  obtain ⟨c, others, rfl, hc⟩ := h.begins
  rw [whole?, htake, hdrop]
  intro more hmore
  exact hc (List.cons.inj hmore).1

/-- What is read as a whole part begins with a digit. -/
theorem exists_digit_of_whole? {text : List Char} {r : List Char × List Char}
    (h : whole? text = some r) : ∃ c more, text = c :: more ∧ isDigit c = true := by
  cases text with
  | nil => simp [whole?] at h
  | cons c more =>
    refine ⟨c, more, rfl, ?_⟩
    by_contra hc
    have hne : c ≠ '0' := by
      rintro rfl
      exact hc rfl
    rw [whole?, List.takeWhile_cons_of_neg hc] at h
    · cases h
    · intro others hothers
      exact hne (List.cons.inj hothers).1

theorem fraction_digits (hne : digits ≠ []) (h : ∀ c ∈ digits, isDigit c = true)
    (hrest : ∀ c ∈ rest.head?, isDigit c = false) :
    fraction ('.' :: (digits ++ rest)) = (digits, rest) := by
  obtain ⟨htake, hdrop⟩ := takeWhile_append_stop h hrest
  obtain ⟨c, others, rfl⟩ := List.exists_cons_of_ne_nil hne
  rw [fraction, htake, hdrop]

theorem fraction_none (h : ∀ c ∈ rest.head?, c ≠ '.') : fraction rest = ([], rest) := by
  rw [fraction]
  rintro others rfl
  exact h '.' rfl rfl

theorem power?_digits (negative : Bool) (hne : digits ≠ [])
    (h : ∀ c ∈ digits, isDigit c = true) (hrest : ∀ c ∈ rest.head?, isDigit c = false) :
    power? ('e' :: (if negative then '-' else '+') :: (digits ++ rest)) =
      some (if negative then -(ofDigits (digitValues digits) : Int)
        else ofDigits (digitValues digits), rest) := by
  obtain ⟨htake, hdrop⟩ := takeWhile_append_stop h hrest
  cases digits with
  | nil => exact absurd rfl hne
  | cons c others =>
    rw [List.cons_append] at htake hdrop ⊢
    cases negative <;> simp [power?, htake, hdrop]

theorem power?_none (h : ∀ c ∈ rest.head?, c ≠ 'e' ∧ c ≠ 'E') : power? rest = none := by
  cases rest with
  | nil => rfl
  | cons c others =>
    obtain ⟨hlower, hupper⟩ := h c rfl
    simp [power?, hlower, hupper]

end Parts

/-! ## Numbers without a sign -/

section Unsigned

variable {rest : List Char} (negative : Bool) (whole : List Char)

theorem unsigned?_integer (hw : whole? (whole ++ rest) = some (whole, rest))
    (hrest : EndsNumber rest) :
    unsigned? negative (whole ++ rest) = some (integer (if negative
      then -(ofDigits (digitValues whole) : Int) else ofDigits (digitValues whole)), rest) := by
  simp [unsigned?, hw, fraction_none fun c hc => (hrest c hc).2.1,
    power?_none fun c hc => (hrest c hc).2.2]

/-- The decimal of a number with a fraction and a power. -/
def decimalOf (whole digits : List Char) (power : Int) : Decimal :=
  ⟨ofDigits (digitValues (whole ++ digits)), power - digits.length⟩

theorem unsigned?_fraction (digits : List Char) (hw : whole? (whole ++ '.' :: (digits ++ rest)) =
      some (whole, '.' :: (digits ++ rest))) (hwhole : ∀ c ∈ whole, isDigit c = true)
    (hne : digits ≠ []) (h : ∀ c ∈ digits, isDigit c = true) (hrest : EndsNumber rest) :
    unsigned? negative (whole ++ '.' :: (digits ++ rest)) =
      some (number (.nearest negative (decimalOf whole digits 0)), rest) := by
  have hdigits : ∀ n ∈ digitValues (whole ++ digits), n < 10 := digitValues_lt fun c hc =>
    (List.mem_append.mp hc).elim (hwhole c) (h c)
  have hdecimal : decimalOf whole digits 0 =
      ⟨ofDigits (digitValues (whole ++ digits)), -digits.length⟩ := by
    rw [decimalOf, Int.zero_sub]
  rw [hdecimal, ← Double.ofDecimal_eq negative hdigits]
  have hfraction := fraction_digits hne h fun c hc => (hrest c hc).1
  have hpower := power?_none fun c hc => (hrest c hc).2.2
  generalize '.' :: (digits ++ rest) = behind at hw hfraction
  cases digits with
  | nil => exact absurd rfl hne
  | cons c others => simp [unsigned?, hw, hfraction, hpower]

/-- A fraction, where there is one. -/
def pointed (digits : List Char) : List Char := if digits = [] then [] else '.' :: digits

theorem fraction_pointed {digits : List Char} (h : ∀ c ∈ digits, isDigit c = true)
    (hrest : ∀ c ∈ rest.head?, isDigit c = false ∧ c ≠ '.') :
    fraction (pointed digits ++ rest) = (digits, rest) := by
  unfold pointed
  split
  next hnil =>
    rw [hnil]
    exact fraction_none fun c hc => (hrest c hc).2
  next hne => exact fraction_digits hne h fun c hc => (hrest c hc).1

theorem unsigned?_power {digits power : List Char} (less : Bool)
    (hw : ∀ rest, (∀ c ∈ rest.head?, isDigit c = false) →
      whole? (whole ++ rest) = some (whole, rest))
    (hwhole : ∀ c ∈ whole, isDigit c = true) (h : ∀ c ∈ digits, isDigit c = true)
    (hne : power ≠ []) (hp : ∀ c ∈ power, isDigit c = true) (hrest : EndsNumber rest) :
    unsigned? negative (whole ++ (pointed digits ++
        'e' :: (if less then '-' else '+') :: (power ++ rest))) =
      some (number (.nearest negative (decimalOf whole digits (if less
        then -(ofDigits (digitValues power) : Int) else ofDigits (digitValues power)))), rest) := by
  have hdigits : ∀ n ∈ digitValues (whole ++ digits), n < 10 := digitValues_lt fun c hc =>
    (List.mem_append.mp hc).elim (hwhole c) (h c)
  have hpower := power?_digits less hne hp fun c hc => (hrest c hc).1
  rw [decimalOf, ← Double.ofDecimal_eq negative hdigits]
  generalize (if less then '-' else '+') :: (power ++ rest) = exponent at hpower ⊢
  have hfraction : fraction (pointed digits ++ 'e' :: exponent) = (digits, 'e' :: exponent) :=
    fraction_pointed h fun c hc => by
      obtain rfl : 'e' = c := Option.some.inj hc
      decide
  have hbehind : ∀ c ∈ (pointed digits ++ 'e' :: exponent).head?, isDigit c = false := by
    unfold pointed
    split
    · exact isDigit_head_cons rfl _
    · exact isDigit_head_cons rfl _
  have hread := hw _ hbehind
  generalize pointed digits ++ 'e' :: exponent = behind at hfraction hread ⊢
  simp [unsigned?, hread, hfraction, hpower]

end Unsigned

/-! ## The layouts -/

section Layouts

variable {d : Digits} {rest : List Char} (negative : Bool)

theorem isDigit_of_mem_zeros {n : Nat} {c : Char} (h : c ∈ List.replicate n '0') :
    isDigit c = true := by
  rw [(List.mem_replicate.mp h).2]
  rfl

theorem isDigit_of_mem_zero : ∀ c ∈ ['0'], isDigit c = true := fun _ hc =>
  isDigit_of_mem_zeros (n := 1) hc

/-- **Around a point**, digits are a whole part, which is a zero or proper, and a fraction, which
is not empty; and these denote a decimal that is rounded like theirs. -/
theorem exists_positional (h : ProperDigits d.significant) :
    ∃ whole digits, d.positional = whole ++ '.' :: digits ∧
      (whole = ['0'] ∨ ProperDigits whole) ∧ digits ≠ [] ∧ (∀ c ∈ digits, isDigit c = true) ∧
      (decimalOf whole digits 0).magnitude? = d.decimal.magnitude? := by
  unfold Digits.positional
  split
  next hpoint =>
    -- a zero, a point, zeros and all the digits
    generalize hn : (-d.point).toNat = n
    refine ⟨['0'], List.replicate n '0' ++ d.significant, rfl, Or.inl rfl,
      List.append_ne_nil_of_right_ne_nil _ h.ne_nil,
      fun c hc => (List.mem_append.mp hc).elim isDigit_of_mem_zeros (h.isDigit c), ?_⟩
    have hzeros : ['0'] ++ (List.replicate n '0' ++ d.significant) =
        List.replicate (n + 1) '0' ++ d.significant := rfl
    rw [decimalOf, hzeros, ofDigits_zeros_append, Digits.decimal, List.length_append,
      List.length_replicate]
    congr 2
    omega
  next hpoint =>
    dsimp only
    generalize hn : d.point.toNat = n
    split
    next hlength =>
      -- all the digits, zeros, a point and a zero
      generalize hk : n - d.significant.length = k
      refine ⟨d.significant ++ List.replicate k '0', ['0'], rfl,
        Or.inr (h.append fun c hc => isDigit_of_mem_zeros hc), List.cons_ne_nil _ _,
        isDigit_of_mem_zero, ?_⟩
      have hzeros : d.significant ++ List.replicate k '0' ++ ['0'] =
          d.significant ++ List.replicate (k + 1) '0' := by
        rw [List.append_assoc, List.replicate_succ']
      have hpower : (0 : Int) - (['0'] : List Char).length + (k + 1 : Nat) =
          d.point - d.significant.length := by
        show (0 : Int) - 1 + (k + 1 : Nat) = _
        omega
      rw [decimalOf, hzeros, ofDigits_append_zeros, Decimal.magnitude?_mul_pow, hpower,
        Digits.decimal]
    next hlength =>
      -- the digits around a point
      have hne : d.significant.take n ≠ [] := by
        rw [Ne, List.take_eq_nil_iff]
        exact fun hnil => hnil.elim (by omega) h.ne_nil
      have hall : ProperDigits (d.significant.take n ++ d.significant.drop n) := by
        rwa [List.take_append_drop]
      refine ⟨d.significant.take n, d.significant.drop n, rfl, Or.inr (hall.of_append hne),
        by rw [Ne, List.drop_eq_nil_iff]; omega, fun c hc => h.isDigit c (List.mem_of_mem_drop hc),
        ?_⟩
      rw [decimalOf, List.take_append_drop, Digits.decimal, List.length_drop]
      congr 2
      omega

theorem unsigned?_positional (h : ProperDigits d.significant) (hrest : EndsNumber rest) :
    unsigned? negative (d.positional ++ rest) =
      some (number (.nearest negative d.decimal), rest) := by
  obtain ⟨whole, digits, htext, hwhole, hne, hdigits, hdecimal⟩ := exists_positional h
  have hread : whole? (whole ++ '.' :: (digits ++ rest)) = some (whole, '.' :: (digits ++ rest)) := by
    rcases hwhole with rfl | hwhole
    · exact whole?_zero _
    · exact whole?_proper hwhole (isDigit_head_cons rfl _)
  have hall : ∀ c ∈ whole, isDigit c = true := by
    rcases hwhole with rfl | hwhole
    · exact isDigit_of_mem_zero
    · exact hwhole.isDigit
  rw [htext, List.append_assoc, List.cons_append,
    unsigned?_fraction negative whole digits hread hall hne hdigits hrest,
    Double.nearest_congr negative hdecimal]

theorem unsigned?_scientific (h : ProperDigits d.significant) (hrest : EndsNumber rest) :
    unsigned? negative (d.scientific ++ rest) =
      some (number (.nearest negative d.decimal), rest) := by
  obtain ⟨c, others, hsignificant, hc⟩ := h.begins
  have hdigits := h.isDigit
  rw [hsignificant] at hdigits
  have hproper : ProperDigits [c] :=
    ⟨fun e he => hdigits e (List.mem_of_mem_take (i := 1) he), c, [], rfl, hc⟩
  generalize hpower : (if (Nat.toDigits 10 (d.point - 1).natAbs).length < 2
    then '0' :: Nat.toDigits 10 (d.point - 1).natAbs
    else Nat.toDigits 10 (d.point - 1).natAbs) = power
  have hvalue : ofDigits (digitValues power) = (d.point - 1).natAbs := by
    rw [← hpower]
    split
    · exact (ofDigits_zero_cons _).trans (ofDigits_toDigits _)
    · exact ofDigits_toDigits _
  have hfilled : ∀ e ∈ power, isDigit e = true := by
    rw [← hpower]
    split
    · exact List.forall_mem_cons.mpr ⟨rfl, fun e he => isDigit_of_mem_toDigits he⟩
    · exact fun e he => isDigit_of_mem_toDigits he
  have hne : power ≠ [] := by
    rw [← hpower]
    split
    · exact List.cons_ne_nil _ _
    · exact Nat.toDigits_ne_nil
  have htext : d.scientific ++ rest = [c] ++ (pointed others ++
      'e' :: (if decide (d.point - 1 < 0) then '-' else '+') :: (power ++ rest)) := by
    simp only [Digits.scientific, hsignificant, List.take_succ_cons, List.take_zero,
      List.drop_succ_cons, List.drop_zero, hpower, decide_eq_true_eq]
    cases others <;> simp [pointed]
  have hdecimal : decimalOf [c] others (if decide (d.point - 1 < 0)
      then -(ofDigits (digitValues power) : Int) else ofDigits (digitValues power)) =
        d.decimal := by
    rw [decimalOf, hvalue, Digits.decimal, hsignificant, List.length_cons]
    simp only [decide_eq_true_eq]
    congr 1
    split <;> omega
  rw [htext, ← hdecimal]
  exact unsigned?_power negative _ _ (fun rest => whole?_proper hproper) hproper.isDigit
    (fun e he => hdigits e (List.mem_cons_of_mem _ he)) hne hfilled hrest

/-- **Digits are read as the number nearest to them**, however they are laid out. -/
theorem unsigned?_laidOut (h : ProperDigits d.significant) (hrest : EndsNumber rest) :
    unsigned? negative (d.laidOut ++ rest) =
      some (number (.nearest negative d.decimal), rest) := by
  unfold Digits.laidOut
  split
  · exact unsigned?_positional negative h hrest
  · exact unsigned?_scientific negative h hrest

end Layouts

/-- **A magnitude is read back.** -/
theorem unsigned?_written (negative : Bool) (m : Magnitude) {rest : List Char}
    (hrest : EndsNumber rest) :
    unsigned? negative (m.written ++ rest) = some (number (.finite negative m), rest) := by
  unfold Magnitude.written
  split
  next hzero =>
    have hread := unsigned?_fraction negative ['0'] ['0'] rfl isDigit_of_mem_zero
      (List.cons_ne_nil _ _) isDigit_of_mem_zero hrest
    have hdecimal : decimalOf ['0'] ['0'] 0 = ⟨0, -1⟩ := rfl
    rw [hdecimal, Double.nearest_of_some negative (Decimal.magnitude?_zero _), ← hzero] at hread
    exact hread
  next hne =>
    have hproper := m.shortest.properDigits_digits
      (Decimal.coefficient_ne_zero m.magnitude?_shortest hne)
    rw [unsigned?_laidOut negative hproper hrest,
      Double.nearest_of_some negative m.magnitude?_digits_shortest]

/-! ## With a sign -/

theorem word?_of_ne {a c : Char} (h : a ≠ c) (word : List Char) (value : Json) (rest : List Char) :
    word? (a :: word) value (c :: rest) = none := by
  simp [word?, skip?, List.isPrefixOf, h]

theorem word?_append (word : List Char) (value : Json) (rest : List Char) :
    word? word value (word ++ rest) = some (value, rest) := by
  have hprefix : word.isPrefixOf (word ++ rest) = true :=
    List.isPrefixOf_iff_prefix.mpr (List.prefix_append ..)
  simp [word?, skip?, hprefix]

theorem unsigned?_begins {negative : Bool} {text : List Char} {r : Json × List Char}
    (h : unsigned? negative text = some r) : ∃ c more, text = c :: more ∧ isDigit c = true := by
  cases hw : whole? text with
  | none => simp [unsigned?, hw] at h
  | some w => exact exists_digit_of_whole? hw

theorem nan_eq : "NaN".toList = ['N', 'a', 'N'] := by decide

theorem infinity_eq : "Infinity".toList = 'I' :: "nfinity".toList := by decide

theorem minusInfinity_eq : "-Infinity".toList = '-' :: 'I' :: "nfinity".toList := by decide

theorem atom?_of_unsigned? {text : List Char} {r : Json × List Char}
    (h : unsigned? false text = some r) : atom? text = some r := by
  obtain ⟨c, more, rfl, hc⟩ := unsigned?_begins h
  have hne : ∀ a, isDigit a = false → a ≠ c := by
    rintro a ha rfl
    exact absurd hc (by simp [ha])
  have hsign : c ≠ '-' := (hne '-' rfl).symm
  simp only [atom?, infinity_eq, minusInfinity_eq, word?_of_ne (hne 'n' rfl),
    word?_of_ne (hne 't' rfl), word?_of_ne (hne 'f' rfl), word?_of_ne (hne 'N' rfl),
    word?_of_ne (hne 'I' rfl), word?_of_ne (hne '-' rfl), Option.none_or]
  split
  next rest heq => exact absurd (List.cons.inj heq).1 hsign
  next => exact h

theorem atom?_of_minus {text : List Char} {r : Json × List Char}
    (h : unsigned? true text = some r) : atom? ('-' :: text) = some r := by
  obtain ⟨c, more, rfl, hc⟩ := unsigned?_begins h
  have hne : 'I' ≠ c := by
    rintro rfl
    cases hc
  have hword : word? ('-' :: 'I' :: "nfinity".toList) (number (.infinite true)) ('-' :: c :: more) =
      none := by
    simp [word?, skip?, List.isPrefixOf, hne]
  have hletter : ∀ a, a ≠ '-' → ∀ word value, word? (a :: word) value ('-' :: c :: more) = none :=
    fun a ha word value => word?_of_ne ha word value _
  simp only [atom?, infinity_eq, minusInfinity_eq, hword, hletter 'n' (by decide),
    hletter 't' (by decide), hletter 'f' (by decide), hletter 'N' (by decide),
    hletter 'I' (by decide), Option.none_or]
  exact h

/-! ## Atoms -/

theorem atom?_nan (rest : List Char) :
    atom? (['N', 'a', 'N'] ++ rest) = some (number .nan, rest) := by
  have hword := word?_append ['N', 'a', 'N'] (number .nan) rest
  simp only [atom?, hword]
  simp [word?_of_ne]

theorem atom?_infinity (rest : List Char) :
    atom? ("Infinity".toList ++ rest) = some (number (.infinite false), rest) := by
  have hword := word?_append "Infinity".toList (number (.infinite false)) rest
  simp only [atom?, hword]
  simp [infinity_eq, word?_of_ne]

theorem atom?_minusInfinity (rest : List Char) :
    atom? ("-Infinity".toList ++ rest) = some (number (.infinite true), rest) := by
  have hword := word?_append "-Infinity".toList (number (.infinite true)) rest
  simp only [atom?, hword]
  simp [infinity_eq, minusInfinity_eq, word?_of_ne]

theorem signed_append (negative : Bool) (text rest : List Char) :
    signed negative text ++ rest = signed negative (text ++ rest) := by
  cases negative <;> rfl

/-- A sign and the magnitude after it. -/
theorem atom?_signed (negative : Bool) {text : List Char} {r : Json × List Char}
    (h : unsigned? negative text = some r) : atom? (signed negative text) = some r := by
  cases negative with
  | false => exact atom?_of_unsigned? h
  | true => exact atom?_of_minus h

/-- **Every number of the language is read back.** -/
theorem atom?_written (x : Double) {rest : List Char} (hrest : EndsNumber rest) :
    atom? (x.written.toList ++ rest) = some (number x, rest) := by
  cases x with
  | nan =>
    rw [Double.written, nan_eq]
    exact atom?_nan rest
  | infinite negative =>
    cases negative with
    | false => exact atom?_infinity rest
    | true => exact atom?_minusInfinity rest
  | finite negative m =>
    rw [Double.written, String.toList_ofList, signed_append]
    exact atom?_signed negative (unsigned?_written negative m hrest)

theorem whole?_toDigits (n : Nat) {rest : List Char} (hrest : EndsNumber rest) :
    whole? (Nat.toDigits 10 n ++ rest) = some (Nat.toDigits 10 n, rest) := by
  by_cases hn : n = 0
  · rw [hn]
    exact whole?_zero rest
  · exact whole?_proper (properDigits_toDigits hn) fun c hc => (hrest c hc).1

/-- **Every integer is read back.** -/
theorem atom?_toString (n : Int) {rest : List Char} (hrest : EndsNumber rest) :
    atom? ((toString n).toList ++ rest) = some (integer n, rest) := by
  have htext : (toString n).toList ++ rest =
      signed (n < 0) (Nat.toDigits 10 n.natAbs ++ rest) := by
    rw [Int.toString_eq_repr, Int.repr_eq_if]
    by_cases hn : 0 ≤ n
    · have hsign : decide (n < 0) = false := decide_eq_false (by omega)
      rw [if_pos hn, Nat.toList_repr, hsign, show n.toNat = n.natAbs by omega]
      rfl
    · have hsign : decide (n < 0) = true := decide_eq_true (by omega)
      rw [if_neg hn, String.toList_append, Nat.toList_repr, hsign,
        show (-n).toNat = n.natAbs by omega]
      rfl
  have hread := unsigned?_integer (n < 0) _ (whole?_toDigits n.natAbs hrest) hrest
  have hvalue : (if decide (n < 0) then -(n.natAbs : Int) else n.natAbs) = n := by
    simp only [decide_eq_true_eq]
    split <;> omega
  rw [ofDigits_toDigits, hvalue] at hread
  rw [htext]
  exact atom?_signed _ hread

end Json
end HangulScript
