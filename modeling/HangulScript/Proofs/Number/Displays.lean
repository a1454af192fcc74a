import HangulScript.Proofs.Grammar.Sources
import HangulScript.Proofs.Json.Numbers
import HangulScript.Proofs.Number.Leading
import HangulScript.Proofs.Scanning.Stream
import HangulScript.Session

/-!
# Displays are read back

The language prints a whole number by its digits and any other number by its shortest decimal, and
it has no numerals with a power of ten.  So a display is a program whenever it has no such power,
and then running it gives the number that was displayed (`displays_read_back`).

Three notations meet.  A whole number is displayed exactly, also where its neighbours are far
away.  A number with a fraction is displayed by digits that are rounded to it.  And a sign is no
part of a numeral: it is an operator, which turns a positive number into the negative one.

## Different numbers have different displays

What tells displays apart is a reader that knows all the notations, the one of tree files.  It
reads the display of a whole number as an integer and all others as numbers, so displays of one
text come from one notation; and within a notation the text gives back the number.  Only the two
zeros are displayed alike.
-/

namespace HangulScript

open Json (isDigit digitValues decimalOf pointed)

/-! ## Numerals of common digits -/

namespace Numeral

theorem ofChar_of_isDigit {c : Char} (h : isDigit c = true) :
    Glyph.ofChar c = .digit (c.toNat - 48) := by
  have hc := Char.isDigit_iff_toNat.mp h
  have h₀ : '0'.toNat = 48 := rfl
  have h₉ : '9'.toNat = 57 := rfl
  have hfound : Text.digitValue? c = some ((c.toNat - 48) % 10) := by
    rw [Text.digitValue?, Text.decimalDigits, List.find?_cons_of_pos]
    · rfl
    · simp only [Bool.and_eq_true, decide_eq_true_eq]
      omega
  rw [Glyph.ofChar, hfound, Nat.mod_eq_of_lt (by omega)]

theorem isDecimalDigit_of_isDigit {c : Char} (h : isDigit c = true) :
    Text.isDecimalDigit c = true := by
  have hglyph := ofChar_of_isDigit h
  rw [← Text.isSome_digitValue?]
  unfold Glyph.ofChar at hglyph
  split at hglyph
  next v hv => rw [hv]; rfl
  next => cases hglyph

theorem map_ofChar {text : List Char} (h : ∀ c ∈ text, isDigit c = true) :
    text.map Glyph.ofChar = (digitValues text).map .digit := by
  rw [digitValues, List.map_map]
  exact List.map_congr_left fun c hc => ofChar_of_isDigit (h c hc)

theorem allDigits_of_isDigit {text : List Char} (hne : text ≠ [])
    (h : ∀ c ∈ text, isDigit c = true) : AllDigits text :=
  ⟨hne, fun c hc => isDecimalDigit_of_isDigit (h c hc)⟩

variable {whole digits : List Char}

/-- Digits and a fraction, where there is one, are a plain numeral. -/
theorem plain_pointed (hne : whole ≠ []) (hw : ∀ c ∈ whole, isDigit c = true)
    (hd : ∀ c ∈ digits, isDigit c = true) : Plain (whole ++ pointed digits) := by
  have hwhole := allDigits_of_isDigit hne hw
  unfold pointed
  split
  · rw [List.append_nil]
    exact .whole hwhole
  next h => exact .fraction hwhole (allDigits_of_isDigit h hd)

/-- **A numeral has the value that is nearest to its decimal.** -/
theorem value?_pointed (hne : whole ≠ []) (hw : ∀ c ∈ whole, isDigit c = true)
    (hd : ∀ c ∈ digits, isDigit c = true) :
    value? (whole ++ pointed digits) = some (.nearest false (decimalOf whole digits 0)) := by
  have hplain := plain_pointed hne hw hd
  have hall : ∀ n ∈ digitValues (whole ++ digits), n < 10 := Json.digitValues_lt fun c hc =>
    (List.mem_append.mp hc).elim (hw c) (hd c)
  rw [decimalOf, ← Double.ofDecimal_eq false hall, Json.digitValues_append]
  obtain ⟨c, others, rfl⟩ := List.exists_cons_of_ne_nil hne
  cases digits with
  | nil =>
    rw [pointed, if_pos rfl, List.append_nil] at hplain ⊢
    rw [hplain.value?_eq (map_ofChar hw) (not_mem_digits _ rfl _)]
    have hnone : digitValues (c :: others) ++ digitValues [] = digitValues (c :: others) :=
      List.append_nil _
    rw [hnone]
    exact decimal?_digits false _ _
  | cons d more =>
    rw [pointed, if_neg (List.cons_ne_nil d more)] at hplain ⊢
    have hpoint : Glyph.ofChar '.' = .other '.' := by decide +kernel
    have hglyphs : (c :: others ++ '.' :: d :: more).map Glyph.ofChar =
        .digit (c.toNat - 48) :: ((digitValues others).map .digit ++
          .other '.' :: (digitValues (d :: more)).map .digit) := by
      rw [List.map_append, map_ofChar hw, List.map_cons, map_ofChar hd, hpoint]
      rfl
    have hunder : Glyph.other '_' ∉ (digitValues others).map .digit ++
        .other '.' :: (digitValues (d :: more)).map .digit := by
      rw [List.mem_append, List.mem_cons, not_or, not_or]
      exact ⟨not_mem_digits _ rfl _, by decide, not_mem_digits _ rfl _⟩
    have hlength : (d :: more).length = (digitValues (d :: more)).length := (List.length_map _).symm
    rw [hplain.value?_eq hglyphs hunder, hlength]
    exact decimal?_fraction false _ _ _ _

end Numeral

/-! ## The text of a display -/

namespace Double

/-- Numbers whose display has no power of ten: whole numbers below `10 ^ 21` except for the
negative zero, and numbers with a fraction from `10 ^ (-4)` on. -/
def ShownPlainly : Double → Prop
  | finite negative m => (negative = true → m ≠ Magnitude.zero) ∧
      ((m.isIntegral = true ∧ m.units < 10 ^ 21 * Magnitude.unitsOfOne) ∨
        (m.isIntegral = false ∧ Magnitude.unitsOfOne ≤ 10 ^ 4 * m.units))
  | _ => False

variable {negative : Bool} {m : Magnitude}

/-- A whole number is displayed by its digits, and these denote it. -/
theorem display_of_isIntegral (hsign : negative = true → m ≠ Magnitude.zero)
    (h : m.isIntegral = true) (hlarge : m.units < 10 ^ 21 * Magnitude.unitsOfOne) :
    (finite negative m).display = String.ofList (signed negative (m.wholeDigits ++ pointed [])) ∧
      (decimalOf m.wholeDigits [] 0).magnitude? = some m := by
  constructor
  · have hcond : (m.isIntegral && decide (m.units < Nat.pow 10 21 * Magnitude.unitsOfOne)) = true := by
      rw [h, Bool.true_and, decide_eq_true_eq, Nat.pow_eq]
      generalize Magnitude.unitsOfOne = one at hlarge ⊢
      exact hlarge
    have hnegative : (negative && m != Magnitude.zero) = negative := by
      cases negative with
      | false => rfl
      | true => simpa using hsign rfl
    rw [display, if_pos hcond, hnegative, pointed, if_pos rfl, List.append_nil]
  · have hunits : m.units / Magnitude.unitsOfOne * 10 ^ 0 * Magnitude.unitsOfOne = m.units := by
      rw [pow_zero, Nat.mul_one]
      refine Nat.div_mul_cancel (Nat.dvd_of_mod_eq_zero ?_)
      simpa [Magnitude.isIntegral] using h
    have hround := Decimal.magnitude?_sub (m.units / Magnitude.unitsOfOne) 0 0
    rw [hunits, pow_zero, Magnitude.round?_units] at hround
    rw [decimalOf, List.append_nil, Magnitude.wholeDigits, Json.ofDigits_toDigits]
    exact hround

/-- A number with a fraction is displayed by digits around a point, and these denote a decimal
that is rounded to it. -/
theorem exists_display_of_not_isIntegral (h : m.isIntegral = false)
    (hsmall : Magnitude.unitsOfOne ≤ 10 ^ 4 * m.units) :
    ∃ whole digits, (finite negative m).display =
        String.ofList (signed negative (whole ++ pointed digits)) ∧
      whole ≠ [] ∧ (∀ c ∈ whole, isDigit c = true) ∧ (∀ c ∈ digits, isDigit c = true) ∧
      (decimalOf whole digits 0).magnitude? = some m := by
  have hne : m ≠ Magnitude.zero := by
    rintro rfl
    rw [Magnitude.isIntegral_zero] at h
    cases h
  have hproper := m.shortest.properDigits_digits
    (Decimal.coefficient_ne_zero m.magnitude?_shortest hne)
  obtain ⟨whole, digits, htext, hwhole, hdne, hdigits, hdecimal⟩ := Json.exists_positional hproper
  have hcond : ¬ (m.isIntegral &&
      decide (m.units < Nat.pow 10 21 * Magnitude.unitsOfOne)) = true := by
    rw [h, Bool.false_and]
    exact Bool.false_ne_true
  refine ⟨whole, digits, ?_, ?_, ?_, hdigits, hdecimal.trans m.magnitude?_digits_shortest⟩
  · rw [display, if_neg hcond, Magnitude.written_of_not_isIntegral h hsmall, htext, pointed,
      if_neg hdne]
  · rcases hwhole with rfl | hwhole
    · exact List.cons_ne_nil _ _
    · exact hwhole.ne_nil
  · rcases hwhole with rfl | hwhole
    · exact Json.isDigit_of_mem_zero
    · exact hwhole.isDigit

/-- **A display without a power of ten** is a sign, digits and a fraction, and without the sign
it is a numeral of the number without its sign. -/
theorem exists_display {x : Double} (h : x.ShownPlainly) :
    ∃ negative m whole digits, x = finite negative m ∧
      x.display = String.ofList (signed negative (whole ++ pointed digits)) ∧
      whole ≠ [] ∧ (∀ c ∈ whole, isDigit c = true) ∧ (∀ c ∈ digits, isDigit c = true) ∧
      Numeral.value? (whole ++ pointed digits) = some (finite false m) := by
  cases x with
  | nan => cases h
  | infinite negative => cases h
  | finite negative m =>
    have htext : ∃ whole digits, (finite negative m).display =
          String.ofList (signed negative (whole ++ pointed digits)) ∧
        whole ≠ [] ∧ (∀ c ∈ whole, isDigit c = true) ∧ (∀ c ∈ digits, isDigit c = true) ∧
        (decimalOf whole digits 0).magnitude? = some m := by
      rcases h.2 with ⟨hi, hlarge⟩ | ⟨hi, hsmall⟩
      · obtain ⟨hdisplay, hm⟩ := display_of_isIntegral h.1 hi hlarge
        exact ⟨m.wholeDigits, [], hdisplay, Nat.toDigits_ne_nil,
          fun c hc => Json.isDigit_of_mem_toDigits hc, fun c hc => (List.not_mem_nil hc).elim, hm⟩
      · exact exists_display_of_not_isIntegral hi hsmall
    obtain ⟨whole, digits, hdisplay, hne, hw, hd, hm⟩ := htext
    refine ⟨negative, m, whole, digits, rfl, hdisplay, hne, hw, hd, ?_⟩
    rw [Numeral.value?_pointed hne hw hd, nearest_of_some false hm]

end Double

/-! ## Running a numeral -/

section Running

open TokenStream Grammar

variable {text : List Char} {value : Double}

/-- A numeral is scanned as one token. -/
theorem exists_scanFrom_of_plain (h : Numeral.Plain text) (p : Position) :
    ∃ t eof, scanFrom p text = ⟨[t, eof], none⟩ ∧ t.kind = .number ∧ t.text.toList = text ∧
      eof.kind = .endOfInput := by
  obtain ⟨c, more, rfl⟩ : ∃ c more, text = c :: more := by
    cases h with
    | whole hw => exact List.exists_cons_of_ne_nil hw.1
    | fraction hw hf => exact List.exists_cons_of_ne_nil (List.append_ne_nil_of_left_ne_nil hw.1 _)
  have hscan : scanFrom p (c :: more ++ []) = _ :=
    scanFrom_spelling (.numeral h) (fun d hd => by cases hd) p
  have htext := toList_text_tokenAt (l := ⟨.number, c, more⟩) (fun hk => by cases hk) p
  rw [List.append_nil, scanFrom] at hscan
  exact ⟨_, _, hscan, rfl, htext, rfl⟩

/-- A minus before a text is scanned as a token of its own. -/
theorem exists_scanFrom_minus (p : Position) (text : List Char) :
    ∃ t q, scanFrom p ('-' :: text) = cons t (scanFrom q text) ∧ t.kind = .minus ∧ t.text = "-" :=
  ⟨_, _, scanFrom_spelling (show Lexeme.Spells .minus ['-'] from .single (by decide)) trivial p, rfl, rfl⟩

/-- A program that is one expression. -/
theorem exists_programOf {source : String} {ts : List Token} {eof : Token} {e : Node}
    (hscan : scan source = ⟨ts ++ [eof], none⟩) (heof : eof.kind = .endOfInput)
    (h : Derives 2 (.expression .assignment e) ts) :
    ∃ range, programOf source = .ok (.program range [.expressionStatement e.range e]) := by
  have hstatements : Derives 3 (.statements [.expressionStatement e.range e]) (ts ++ []) :=
    .statements (.expressionStatement h) .noStatements fun _ t ht => by cases ht
  rw [List.append_nil] at hstatements
  have hprogram := (Derives.program hstatements heof).deeper (by decide : 3 ≤ nestingLimit)
  refine ⟨programRange eof [.expressionStatement e.range e], ?_⟩
  refine (program_scan_eq_ok_iff nestingLimit source _).mpr ?_
  rw [hscan]
  exact ⟨rfl, hprogram⟩

/-- A numeral with a sign, as a tree. -/
def signedNode (negative : Bool) (range inner : Range) (value : Double) : Node :=
  if negative then .unary range "-" (.number inner value) else .number range value

/-- **A numeral with a sign is a program** of one expression. -/
theorem exists_program_of_signed (negative : Bool) (h : Numeral.Plain text)
    (hv : Numeral.value? text = some value) :
    ∃ outer range inner, programOf (String.ofList (signed negative text)) =
      .ok (.program outer [.expressionStatement range (signedNode negative range inner value)]) := by
  have hnumber : ∀ t : Token, t.kind = .number → t.text.toList = text →
      Derives 1 (.expression .primary (.number t.range value)) [t] :=
    fun t hk ht => .number hk (ht ▸ hv)
  cases negative with
  | false =>
    obtain ⟨t, eof, ht, hk, htext, heof⟩ := exists_scanFrom_of_plain h Position.origin
    have hscan : scan (String.ofList text) = ⟨[t] ++ [eof], none⟩ := by
      rw [scan, String.toList_ofList, ht]
      rfl
    obtain ⟨outer, hp⟩ := exists_programOf hscan heof
      ((hnumber t hk htext).succ.looser (Stratum.assignment_le _))
    exact ⟨outer, t.range, t.range, hp⟩
  | true =>
    obtain ⟨minus, q, hminus, hmk, hmt⟩ := exists_scanFrom_minus Position.origin text
    obtain ⟨t, eof, ht, hk, htext, heof⟩ := exists_scanFrom_of_plain h q
    have hscan : scan (String.ofList ('-' :: text)) = ⟨[minus, t] ++ [eof], none⟩ := by
      rw [scan, String.toList_ofList, hminus, ht]
      rfl
    have hoperand := (hnumber t hk htext).looser (show Stratum.unary ≤ .primary by decide)
    have hunary : Derives 2 (.expression .unary (.unary (minus.range.span t.range) minus.text
        (.number t.range value))) [minus, t] := .unary (by rw [hmk]; rfl) hoperand
    rw [hmt] at hunary
    obtain ⟨outer, hp⟩ := exists_programOf hscan heof (hunary.looser (Stratum.assignment_le _))
    exact ⟨outer, _, t.range, hp⟩

/-- The outcome of a program of one expression that has a value and changes nothing. -/
theorem outcome_of_expression (s : Session) (scope : ScopeId) {range range' : Range} {e : Node}
    {value : Value} {text : String}
    (h : ∀ m, Evaluation.expression s.verbosity Evaluation.nestingLimit e scope m = (.ok value, m))
    (hr : value.isReturned = false) (ht : value.text? = some text) :
    (s.run scope (.program range [.expressionStatement range' e])).1.outcome = .ok value := by
  have hprogram : (Evaluation.program s.verbosity Evaluation.nestingLimit scope
      (.program range [.expressionStatement range' e]) ⟨s.store, []⟩).1 = .ok value := by
    simp only [Evaluation.program, Evaluation.programWith, Node.statements?, Evaluation.topLevel,
      Evaluation.statement, Run.bind_apply, h, hr, Run.whenVerbose, Run.textOf, ht]
    by_cases hv : 1 ≤ s.verbosity
    · simp only [if_pos hv]
      rfl
    · simp only [if_neg hv]
      rfl
  show (Except.mapError _ (Evaluation.program _ _ _ _ _).1) = _
  rw [hprogram]
  rfl

/-- **Running a numeral with a sign** gives the number, with its sign turned if it is a minus. -/
theorem exists_outcome_of_signed (s : Session) (scope : ScopeId) (negative : Bool)
    (h : Numeral.Plain text) (hv : Numeral.value? text = some value) :
    ∃ range, (s.runSource scope (String.ofList (signed negative text))).1.outcome =
      .ok (.number range (if negative then value.neg else value)) := by
  obtain ⟨outer, range, inner, hp⟩ := exists_program_of_signed negative h hv
  have hlevels : Evaluation.nestingLimit = 998 + 2 := rfl
  have heval : ∀ m, Evaluation.expression s.verbosity Evaluation.nestingLimit
      (signedNode negative range inner value) scope m =
        (.ok (.number range (if negative then value.neg else value)), m) := by
    intro m
    rw [hlevels]
    cases negative <;> rfl
  refine ⟨range, ?_⟩
  rw [Session.runSource, hp]
  exact outcome_of_expression s scope heval rfl rfl

end Running

/-! ## Different displays -/

namespace Double

variable {x y : Double}

/-- Whether a number is displayed as a whole number. -/
def isShownWhole : Double → Bool
  | finite _ m => m.isIntegral && m.units < Nat.pow 10 21 * Magnitude.unitsOfOne
  | _ => false

/-- A number that is not displayed as a whole number is displayed as in a tree file. -/
theorem display_eq_written (h : x.isShownWhole = false) : x.display = x.written := by
  cases x with
  | nan => rfl
  | infinite negative => rfl
  | finite negative m =>
    rw [isShownWhole] at h
    rw [display, h, if_neg Bool.false_ne_true, written]

/-- The whole number that a number is displayed as. -/
theorem exists_atom?_of_isShownWhole (h : x.isShownWhole = true) :
    ∃ negative m, x = finite negative m ∧ m.units =
        m.units / Magnitude.unitsOfOne * Magnitude.unitsOfOne ∧
      Json.atom? x.display.toList = some (.integer (if negative && m != Magnitude.zero
        then -(m.units / Magnitude.unitsOfOne : Nat) else (m.units / Magnitude.unitsOfOne : Nat)),
        []) := by
  cases x with
  | nan => cases h
  | infinite negative => cases h
  | finite negative m =>
    have hread := Json.unsigned?_integer (negative && m != Magnitude.zero) _
      (Json.whole?_toDigits (m.units / Magnitude.unitsOfOne) Json.endsNumber_nil)
      Json.endsNumber_nil
    rw [isShownWhole] at h
    have hintegral := (Bool.and_eq_true_iff.mp h).1
    refine ⟨negative, m, rfl, ?_, ?_⟩
    · refine (Nat.div_mul_cancel (Nat.dvd_of_mod_eq_zero ?_)).symm
      simpa [Magnitude.isIntegral] using hintegral
    · rw [display, if_pos h, String.toList_ofList, Magnitude.wholeDigits]
      rw [List.append_nil, Json.ofDigits_toDigits] at hread
      exact Json.atom?_signed _ hread

theorem atom?_of_not_isShownWhole (h : x.isShownWhole = false) :
    Json.atom? x.display.toList = some (.number x, []) := by
  have hread := Json.atom?_written x Json.endsNumber_nil
  rwa [List.append_nil, ← display_eq_written h] at hread

/-- Whole numbers that are displayed alike are equal, or both are zeros. -/
theorem eq_of_isShownWhole (hx : x.isShownWhole = true) (hy : y.isShownWhole = true)
    (h : x.display = y.display) :
    x = y ∨ ∃ a b, x = finite a Magnitude.zero ∧ y = finite b Magnitude.zero := by
  obtain ⟨a, m, rfl, hm, hreadx⟩ := exists_atom?_of_isShownWhole hx
  obtain ⟨b, n, rfl, hn, hready⟩ := exists_atom?_of_isShownWhole hy
  rw [h, hready] at hreadx
  have hvalues := Json.integer.inj (Prod.mk.inj (Option.some.inj hreadx)).1
  generalize hk : m.units / Magnitude.unitsOfOne = k at hm hvalues
  generalize hl : n.units / Magnitude.unitsOfOne = l at hn hvalues
  have hkl : k = l := by split at hvalues <;> split at hvalues <;> omega
  obtain rfl : m = n := Magnitude.eq_of_units_eq (by rw [hm, hn, hkl])
  by_cases hzero : m = Magnitude.zero
  · subst hzero
    exact Or.inr ⟨a, b, rfl, rfl⟩
  · have hpos := Magnitude.units_pos hzero
    have hk0 : k ≠ 0 := by
      rintro rfl
      omega
    have hne : (m != Magnitude.zero) = true := bne_iff_ne.mpr hzero
    have hab : a = b := by
      rw [hne, Bool.and_true, Bool.and_true] at hvalues
      cases a <;> cases b <;> simp at hvalues ⊢ <;> omega
    exact Or.inl (by rw [hab])

end Double

/-- **Displays are read back.**  If a number is displayed without a power of ten, then its display
is digits and a fraction, if it has one, with a minus in front if it is negative; and running that
as a program, in any session and any scope, gives the very number.  And numbers that are displayed
alike are equal, unless they are the two zeros. -/
theorem displays_read_back :
    (∀ x : Double, x.ShownPlainly →
      (∃ negative m whole digits, x = .finite negative m ∧ whole ≠ [] ∧
        (∀ c ∈ whole ++ digits, isDigit c = true) ∧
        x.display = String.ofList (signed negative (whole ++ pointed digits))) ∧
      ∀ (s : Session) (scope : ScopeId), ∃ range,
        (s.runSource scope x.display).1.outcome = .ok (.number range x)) ∧
    ∀ x y : Double, x.display = y.display →
      x = y ∨ ∃ a b, x = .finite a Magnitude.zero ∧ y = .finite b Magnitude.zero := by
  constructor
  · intro x hx
    obtain ⟨negative, m, whole, digits, rfl, hdisplay, hne, hw, hd, hv⟩ := Double.exists_display hx
    refine ⟨⟨negative, m, whole, digits, rfl, hne, ?_, hdisplay⟩, fun s scope => ?_⟩
    · exact fun c hc => (List.mem_append.mp hc).elim (hw c) (hd c)
    · obtain ⟨range, hrun⟩ := exists_outcome_of_signed s scope negative
        (Numeral.plain_pointed hne hw hd) hv
      refine ⟨range, ?_⟩
      rw [hdisplay, hrun]
      cases negative <;> rfl
  · intro x y h
    cases hx : x.isShownWhole with
    | true =>
      cases hy : y.isShownWhole with
      | true => exact Double.eq_of_isShownWhole hx hy h
      | false =>
        obtain ⟨_, _, -, -, hreadx⟩ := Double.exists_atom?_of_isShownWhole hx
        rw [h, Double.atom?_of_not_isShownWhole hy] at hreadx
        cases hreadx
    | false =>
      have hreadx := Double.atom?_of_not_isShownWhole hx
      cases hy : y.isShownWhole with
      | true =>
        obtain ⟨_, _, -, -, hready⟩ := Double.exists_atom?_of_isShownWhole hy
        rw [h, hready] at hreadx
        cases hreadx
      | false =>
        rw [h, Double.atom?_of_not_isShownWhole hy] at hreadx
        exact Or.inl (Json.number.inj (Prod.mk.inj (Option.some.inj hreadx)).1).symm

/-- A negative number, whose text is read as the negation of what follows the sign, comes back with
its sign; and the two zeros are two numbers with one text. -/
theorem displays_read_back_half :
    let half : Double := .finite true ⟨Nat.pow 2 52, 1021, by decide⟩
    half.ShownPlainly ∧ half.display = "-0.5" ∧
      (∃ range, (runProgram half.display).1.outcome = .ok (.number range half)) ∧
      ∃ x y : Double, x ≠ y ∧ x.display = y.display ∧
        ∃ a b, x = .finite a Magnitude.zero ∧ y = .finite b Magnitude.zero := by
  intro half
  have hhalf : half.ShownPlainly :=
    ⟨fun _ => by decide, Or.inr ⟨by decide +kernel, by decide +kernel⟩⟩
  have hdisplay : half.display = "-0.5" := by decide +kernel
  have hzeros : (Double.finite true Magnitude.zero).display = Double.zero.display := by
    decide +kernel
  have hne : Double.finite true Magnitude.zero ≠ Double.zero := by decide
  exact ⟨hhalf, hdisplay, (displays_read_back.1 half hhalf).2 (Session.start 0) Session.root,
    _, _, hne, hzeros, (displays_read_back.2 _ _ hzeros).resolve_left hne⟩

end HangulScript
