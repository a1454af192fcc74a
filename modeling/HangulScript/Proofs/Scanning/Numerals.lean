import HangulScript.Number.Numeral

/-!
# Plain numerals

The numerals in a program are digits and, after a point, more digits.  Reading one as a
number always succeeds: there is nothing to trim, no sign, no underscore, no word and no
power of ten, so all that is left is the mantissa.
-/

namespace HangulScript

/-- Taking while a test holds takes a list of which every member passes, and stops where a
member fails. -/
theorem takeWhile_append_stop {α : Type} {p : α → Bool} {front back : List α}
    (hf : ∀ a ∈ front, p a = true) (hb : ∀ a ∈ back.head?, p a = false) :
    (front ++ back).takeWhile p = front ∧ (front ++ back).dropWhile p = back := by
  rw [List.takeWhile_append_of_pos hf, List.dropWhile_append_of_pos hf]
  cases back with
  | nil => exact ⟨List.append_nil front, rfl⟩
  | cons a back =>
    have ha := hb a rfl
    rw [List.takeWhile_cons, List.dropWhile_cons, ha, if_neg (by decide), if_neg (by decide)]
    exact ⟨List.append_nil front, rfl⟩

namespace Text

/-- Two tables whose intervals lie apart share no code point. -/
theorem covers_eq_false_of_apart {s t : List Interval}
    (h : ∀ i ∈ s, ∀ j ∈ t, i.2 < j.1 ∨ j.2 < i.1) {code : Nat} (hc : covers s code = true) :
    covers t code = false := by
  obtain ⟨i, hi, hlow, hhigh⟩ := covers_eq_true_iff.mp hc
  refine Bool.eq_false_iff.mpr fun ht => ?_
  obtain ⟨j, hj, hlow', hhigh'⟩ := covers_eq_true_iff.mp ht
  rcases h i hi j hj with hij | hij <;> omega

/-- No digit is a blank. -/
theorem isMargin_of_isDecimalDigit {c : Char} (h : isDecimalDigit c = true) :
    isMargin c = false :=
  covers_eq_false_of_apart (by decide +kernel) h

/-- A text that neither begins nor ends with a blank is not trimmed. -/
theorem trimmed_eq_self {blank : Char → Bool} {text : List Char}
    (hf : ∀ c ∈ text.head?, blank c = false) (hl : ∀ c ∈ text.getLast?, blank c = false) :
    trimmed blank text = text := by
  have hkeep : ∀ l : List Char, (∀ c ∈ l.head?, blank c = false) → l.dropWhile blank = l := by
    intro l h
    cases l with
    | nil => rfl
    | cons c l => rw [List.dropWhile_cons, h c rfl, if_neg (by decide)]
  rw [trimmed, hkeep text hf, hkeep text.reverse (by rwa [List.head?_reverse]),
    List.reverse_reverse]

end Text

namespace Numeral

open Glyph

/-- Characters that are all digits, of which there is at least one. -/
def AllDigits (text : List Char) : Prop := text ≠ [] ∧ ∀ c ∈ text, Text.isDecimalDigit c = true

/-- A numeral as a program has it: digits and, after a point, more digits. -/
inductive Plain : List Char → Prop
  | whole {whole : List Char} : AllDigits whole → Plain whole
  | fraction {whole fraction : List Char} : AllDigits whole → AllDigits fraction →
      Plain (whole ++ '.' :: fraction)

theorem ofChar_of_isDecimalDigit {c : Char} (h : Text.isDecimalDigit c = true) :
    ∃ value, ofChar c = digit value := by
  rw [← Text.isSome_digitValue?, Option.isSome_iff_exists] at h
  obtain ⟨value, hv⟩ := h
  exact ⟨value, by rw [ofChar, hv]⟩

/-- The glyphs of digits are digits. -/
theorem AllDigits.glyphs {text : List Char} (h : AllDigits text) :
    ∃ (value : Nat) (values : List Nat), text.map ofChar = (value :: values).map digit := by
  obtain ⟨hne, hall⟩ := h
  have hmap : ∃ values : List Nat, text.map ofChar = values.map digit := by
    clear hne
    induction text with
    | nil => exact ⟨[], rfl⟩
    | cons c text ih =>
      obtain ⟨value, hv⟩ := ofChar_of_isDecimalDigit (hall c (List.mem_cons_self ..))
      obtain ⟨values, hvs⟩ := ih fun d hd => hall d (List.mem_cons_of_mem _ hd)
      exact ⟨value :: values, by rw [List.map_cons, List.map_cons, hv, hvs]⟩
  obtain ⟨values, hvs⟩ := hmap
  cases values with
  | nil => exact absurd (List.map_eq_nil_iff.mp hvs) hne
  | cons value values => exact ⟨value, values, hvs⟩

/-- Without underscores nothing is dropped. -/
theorem withoutUnderscores_eq_self {glyphs : List Glyph} (h : other '_' ∉ glyphs)
    (afterDigit : Bool) : withoutUnderscores afterDigit glyphs = some glyphs := by
  induction glyphs generalizing afterDigit with
  | nil => rw [withoutUnderscores]
  | cons g glyphs ih =>
    have hg : g ≠ other '_' := fun e => h (by simp [e])
    have hrest : other '_' ∉ glyphs := fun m => h (List.mem_cons_of_mem _ m)
    rw [withoutUnderscores, ih hrest]
    · rfl
    · exact hg

theorem leadingDigits_digits (values : List Nat) (rest : List Glyph)
    (h : ∀ g ∈ rest.head?, g.isDigit = false) :
    leadingDigits (values.map digit ++ rest) = (values, rest) := by
  have hall : ∀ g ∈ values.map digit, isDigit g = true := by
    intro g hg
    obtain ⟨v, -, rfl⟩ := List.mem_map.mp hg
    rfl
  obtain ⟨htake, hdrop⟩ := takeWhile_append_stop hall h
  have hid : Glyph.value? ∘ digit = some := rfl
  rw [leadingDigits, htake, hdrop, List.filterMap_map, hid, List.filterMap_some]

/-- Digits are neither a word nor empty, and before nothing they are a number. -/
theorem decimal?_digits (negative : Bool) (v : Nat) (values : List Nat) :
    decimal? negative ((v :: values).map digit) =
      some (Double.ofDecimal negative (v :: values) 0) := by
  have hm : mantissa ((v :: values).map digit) = (v :: values, [], []) := by
    have hl := leadingDigits_digits (v :: values) [] (fun g hg => by cases hg)
    rw [List.append_nil] at hl
    rw [mantissa, hl]
  rw [decimal?, hm]
  simp [power?]

theorem decimal?_fraction (negative : Bool) (v w : Nat) (values values' : List Nat) :
    decimal? negative ((v :: values).map digit ++ other '.' :: (w :: values').map digit) =
      some (Double.ofDecimal negative ((v :: values) ++ (w :: values'))
        (0 - ((w :: values').length : Nat))) := by
  have hm : mantissa ((v :: values).map digit ++ other '.' :: (w :: values').map digit) =
      (v :: values, w :: values', []) := by
    have hl := leadingDigits_digits (v :: values) (other '.' :: (w :: values').map digit)
      (fun g hg => by cases hg; rfl)
    have hr := leadingDigits_digits (w :: values') [] (fun g hg => by cases hg)
    rw [List.append_nil] at hr
    rw [mantissa, hl]
    simp only [hr]
  rw [decimal?, hm]
  simp [power?]

theorem not_mem_digits (g : Glyph) (h : g.isDigit = false) (values : List Nat) :
    g ∉ values.map digit := by
  intro hm
  obtain ⟨v, -, rfl⟩ := List.mem_map.mp hm
  cases h

theorem AllDigits.head? {text : List Char} (h : AllDigits text) :
    ∀ c ∈ text.head?, Text.isDecimalDigit c = true :=
  fun c hc => h.2 c (List.mem_of_head? hc)

theorem AllDigits.getLast? {text : List Char} (h : AllDigits text) :
    ∀ c ∈ text.getLast?, Text.isDecimalDigit c = true :=
  fun c hc => h.2 c (List.mem_of_getLast? hc)

/-- A plain numeral begins with a digit. -/
theorem Plain.head? {text : List Char} (h : Plain text) :
    ∀ c ∈ text.head?, Text.isDecimalDigit c = true := by
  cases h with
  | whole hw => exact hw.head?
  | fraction hw hf =>
    obtain ⟨c, whole, rfl⟩ := List.exists_cons_of_ne_nil hw.1
    exact hw.head?

/-- A plain numeral ends with a digit. -/
theorem Plain.getLast? {text : List Char} (h : Plain text) :
    ∀ c ∈ text.getLast?, Text.isDecimalDigit c = true := by
  cases h with
  | whole hw => exact hw.getLast?
  | fraction hw hf =>
    intro c hc
    rw [List.getLast?_append, List.getLast?_cons] at hc
    obtain ⟨d, fraction, rfl⟩ := List.exists_cons_of_ne_nil hf.1
    exact hf.getLast? c hc

/-- A plain numeral is read as it stands, glyph by glyph. -/
theorem Plain.value?_eq {text : List Char} {v : Nat} {rest : List Glyph}
    (h : Plain text) (hg : text.map ofChar = digit v :: rest) (hu : other '_' ∉ rest) :
    value? text = decimal? false (digit v :: rest) := by
  have htrim : Text.trimmed Text.isMargin text = text :=
    Text.trimmed_eq_self (fun c hc => Text.isMargin_of_isDecimalDigit (h.head? c hc))
      (fun c hc => Text.isMargin_of_isDecimalDigit (h.getLast? c hc))
  have hunder : withoutUnderscores false (digit v :: rest) = some (digit v :: rest) := by
    refine withoutUnderscores_eq_self ?_ false
    rw [List.mem_cons, not_or]
    exact ⟨(fun h => nomatch h), hu⟩
  have hname : named? false (digit v :: rest) = none := by
    simp [named?, word?, List.mapM_cons]
  simp only [value?, htrim, hg, hunder, bind, Option.bind, leadingSign, hname, Option.none_or]

/-- **A plain numeral has a value.** -/
theorem Plain.exists_value {text : List Char} (h : Plain text) :
    ∃ value, value? text = some value := by
  cases id h with
  | whole hw =>
    obtain ⟨v, values, hvs⟩ := hw.glyphs
    refine ⟨Double.ofDecimal false (v :: values) 0, ?_⟩
    rw [h.value?_eq hvs (not_mem_digits _ rfl values)]
    exact decimal?_digits false v values
  | @fraction whole fraction hw hf =>
    obtain ⟨v, values, hvs⟩ := hw.glyphs
    obtain ⟨w, values', hws⟩ := hf.glyphs
    have hpoint : ofChar '.' = other '.' := by decide +kernel
    have hglyphs : (whole ++ '.' :: fraction).map ofChar =
        digit v :: (values.map digit ++ other '.' :: (w :: values').map digit) := by
      rw [List.map_append, List.map_cons, hvs, hws, hpoint]
      rfl
    have hu : other '_' ∉ values.map digit ++ other '.' :: (w :: values').map digit := by
      rw [List.mem_append, List.mem_cons, not_or, not_or]
      exact ⟨not_mem_digits _ rfl values, by decide, not_mem_digits _ rfl (w :: values')⟩
    exact ⟨_, (h.value?_eq hglyphs hu).trans (decimal?_fraction false v w values values')⟩

end Numeral
end HangulScript
