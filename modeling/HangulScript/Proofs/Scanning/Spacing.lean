import HangulScript.Proofs.Scanning.Tiling
import Mathlib.Data.List.Chain

/-!
# Where white space is needed

Tokens can be written down again, each with the characters it could have been read from and with
white space in front of it, or without.  With white space between any two of them the scanner
gives them back.  Without it two neighbours can run together, because the scanner reads on as far
as it can.

Which two do is a matter of their kinds alone (`TokenKind.Glues`): a word runs into a word or a
number, a number into a number, and an operator that an equals sign would make another one into
what begins with an equals sign.

* No other two run together.  The first character of the one on the right ends the one on the left
  (`ends_of_not_glues`), so the scanner stops between them.
* These always do.  Something longer than the one on the left is spelled where it begins
  (`exists_longer_of_glues`), and the scanner reads no less than that.

The second point needs no look at what comes after the two, and no look at what was read instead:
the token that is read there has more characters, so it is not the one that was written.  Hence
several places without white space cannot make good for one another, and the first of them that
matters settles the whole (`givesBack_iff`).
-/

namespace HangulScript

open Lexeme

/-- The kinds of tokens that run together if nothing stands between them, the left one and the
right one. -/
def TokenKind.Glues (left right : TokenKind) : Prop :=
  (left ∈ nameKinds ∧ (right ∈ nameKinds ∨ right = .number)) ∨
    (left = .number ∧ right = .number) ∨
    (left ∈ openEnded ∧ (right = .assign ∨ right = .equal))

instance (left right : TokenKind) : Decidable (left.Glues right) := by
  unfold TokenKind.Glues
  infer_instance

/-- A tile as one can write it: a token that the scanner makes, in its characters, a string in
quotes that it does not contain, with white space in front of it or without. -/
structure Tile.Writable (t : Tile) : Prop where
  gap : ∀ c ∈ t.gap, c ∈ Source.whiteSpace
  scannable : t.token.Scannable
  kind_ne : t.token.kind ≠ .endOfInput
  slice : if t.token.kind = .string then
      ∃ quote, (quote = '\x27' ∨ quote = '"') ∧ quote ∉ t.token.text.toList ∧
        t.slice = quote :: (t.token.text.toList ++ [quote])
    else t.slice = t.token.text.toList

/-- A stream without a fault that has the tokens of some tiles, their ranges aside, and then the
end of input. -/
def TokenStream.GivesBack (stream : TokenStream) (tiles : List Tile) : Prop :=
  stream.fault = none ∧ stream.tokens.map (fun t => (t.kind, t.text)) =
    tiles.map (fun t => (t.token.kind, t.token.text)) ++ [(.endOfInput, "")]

/-! ## First characters -/

namespace Lexeme

variable {kind kind' : TokenKind} {c : Char} {more : List Char}

theorem isWord_of_isDecimalDigit (h : Text.isDecimalDigit c = true) : Text.isWord c = true := by
  have hall : (Text.decimalDigits.all fun i => Text.wordCharacters.any fun j =>
      Nat.ble j.1 i.1 && Nat.ble i.2 j.2) = true := by decide +kernel
  obtain ⟨i, hi, hlow, hhigh⟩ := Text.covers_eq_true_iff.mp h
  obtain ⟨j, hj, hwithin⟩ := List.any_eq_true.mp (List.all_eq_true.mp hall i hi)
  rw [Bool.and_eq_true, Nat.ble_eq, Nat.ble_eq] at hwithin
  exact Text.covers_eq_true_iff.mpr ⟨j, hj, by omega, by omega⟩

theorem isWord_of_isNameStart (h : Text.isNameStart c = true) : Text.isWord c = true := by
  simp only [Text.isNameStart, Bool.and_eq_true] at h
  exact h.1

/-- Neither a quote nor the first character of an operator is in a word. -/
theorem isWord_of_plain (h : (c = '\x27' ∨ c = '"') ∨ c ∈ operatorStarts) :
    Text.isWord c = false := by
  have hall : ('\x27' :: '"' :: operatorStarts).all (fun c => !Text.isWord c) = true := by
    decide +kernel
  have hc : c ∈ '\x27' :: '"' :: operatorStarts := by simpa [or_assoc] using h
  simpa using List.all_eq_true.mp hall c hc

/-- What begins with a digit is a number. -/
theorem kind_of_digit (h : Spells kind (c :: more)) (hc : Text.isDecimalDigit c = true) :
    kind = .number := by
  generalize htext : c :: more = text at h
  cases h with
  | numeral => rfl
  | name hn =>
    obtain ⟨rfl, rfl⟩ := List.cons.inj htext
    rw [isDecimalDigit_of_isNameStart hn] at hc
    cases hc
  | string hq =>
    obtain ⟨rfl, rfl⟩ := List.cons.inj htext
    rw [(plain_of_quote hq).1] at hc
    cases hc
  | double hm =>
    obtain ⟨rfl, rfl⟩ := List.cons.inj htext
    rw [(plain_of_operatorStart (mem_operatorStarts_of_double hm)).1] at hc
    cases hc
  | single hm =>
    obtain ⟨rfl, rfl⟩ := List.cons.inj htext
    rw [(plain_of_operatorStart (mem_operatorStarts_of_single hm)).1] at hc
    cases hc

/-- What begins like a word is a name, a keyword or a number, and the other way round. -/
theorem isWord_iff_of_spells (h : Spells kind (c :: more)) :
    Text.isWord c = true ↔ kind ∈ nameKinds ∨ kind = .number := by
  have hoperator : kind ∈ operatorKinds → c ∈ operatorStarts →
      (Text.isWord c = true ↔ kind ∈ nameKinds ∨ kind = .number) := by
    intro hk hc
    have hkinds : ∀ kind ∈ operatorKinds, ¬ (kind ∈ nameKinds ∨ kind = .number) := by decide
    rw [isWord_of_plain (Or.inr hc)]
    exact ⟨fun h => (Bool.false_ne_true h).elim, fun h => (hkinds kind hk h).elim⟩
  generalize htext : c :: more = text at h
  cases h with
  | numeral hp =>
    subst htext
    exact ⟨fun _ => Or.inr rfl, fun _ => isWord_of_isDecimalDigit (hp.head? c rfl)⟩
  | @name d rest hn =>
    obtain ⟨rfl, rfl⟩ := List.cons.inj htext
    exact ⟨fun _ => Or.inl (nameKind_mem _), fun _ => isWord_of_isNameStart hn⟩
  | string hq =>
    obtain ⟨rfl, rfl⟩ := List.cons.inj htext
    rw [isWord_of_plain (Or.inl hq)]
    exact ⟨fun h => (Bool.false_ne_true h).elim, fun h => absurd h (by decide)⟩
  | double hm =>
    obtain ⟨rfl, rfl⟩ := List.cons.inj htext
    exact hoperator (mem_operatorKinds_of_double hm) (mem_operatorStarts_of_double hm)
  | single hm =>
    obtain ⟨rfl, rfl⟩ := List.cons.inj htext
    exact hoperator (mem_operatorKinds_of_single hm) (mem_operatorStarts_of_single hm)

/-- What begins with an equals sign is one, or two of them, and the other way round. -/
theorem eq_equals_iff_of_spells (h : Spells kind (c :: more)) :
    c = '=' ↔ kind = .assign ∨ kind = .equal := by
  generalize htext : c :: more = text at h
  cases h with
  | numeral hp =>
    subst htext
    have hc := hp.head? c rfl
    refine ⟨?_, fun h => absurd h (by decide)⟩
    rintro rfl
    exact absurd hc (by decide +kernel)
  | @name d rest hn =>
    obtain ⟨rfl, rfl⟩ := List.cons.inj htext
    have hkinds : ∀ kind ∈ nameKinds, ¬ (kind = .assign ∨ kind = .equal) := by decide
    refine ⟨?_, fun h => (hkinds _ (nameKind_mem _) h).elim⟩
    rintro rfl
    exact absurd hn (by decide +kernel)
  | string hq =>
    obtain ⟨rfl, rfl⟩ := List.cons.inj htext
    refine ⟨?_, fun h => absurd h (by decide)⟩
    rintro rfl
    exact absurd hq (by decide)
  | double hm =>
    obtain ⟨rfl, -⟩ := List.cons.inj htext
    have hall : ∀ entry ∈ doubleOperators,
        (entry.1.1 = '=' ↔ entry.2 = .assign ∨ entry.2 = .equal) := by decide
    exact hall _ hm
  | single hm =>
    obtain ⟨rfl, -⟩ := List.cons.inj htext
    have hall : ∀ entry ∈ singleOperators,
        (entry.1 = '=' ↔ entry.2 = .assign ∨ entry.2 = .equal) := by decide
    exact hall _ hm

/-- Names and keywords are spelled like words. -/
theorem word_of_spells (h : Spells kind (c :: more)) (hk : kind ∈ nameKinds) :
    Text.isNameStart c = true ∧ ∀ d ∈ more, Text.isWord d = true := by
  have hkinds : ∀ kind ∈ operatorKinds, kind ∉ nameKinds := by decide
  generalize htext : c :: more = text at h
  cases h with
  | numeral | string => exact absurd hk (by decide)
  | name hn hmore =>
    obtain ⟨rfl, rfl⟩ := List.cons.inj htext
    exact ⟨hn, hmore⟩
  | double hm => exact absurd hk (hkinds _ (mem_operatorKinds_of_double hm))
  | single hm => exact absurd hk (hkinds _ (mem_operatorKinds_of_single hm))

end Lexeme

/-- A digit behind a plain numeral gives a plain numeral. -/
theorem Numeral.Plain.concat {text : List Char} (h : Plain text) {d : Char}
    (hd : Text.isDecimalDigit d = true) : Plain (text ++ [d]) := by
  have hdigits : ∀ {text : List Char}, AllDigits text → AllDigits (text ++ [d]) := by
    intro text ht
    refine ⟨by simp, fun c hc => ?_⟩
    rcases List.mem_append.mp hc with hc | hc
    · exact ht.2 c hc
    · obtain rfl := List.mem_singleton.mp hc
      exact hd
  cases h with
  | whole hw => exact .whole (hdigits hw)
  | fraction hw hf =>
    rw [List.append_assoc]
    exact .fraction hw (hdigits hf)

/-! ## Which kinds run together -/

namespace Lexeme

variable {kind kind' : TokenKind} {c d : Char} {more more' : List Char}

/-- **Nothing else runs together**: the first character of what stands on the right ends what
stands on the left. -/
theorem ends_of_not_glues (h : Spells kind' (c :: more)) (hg : ¬ kind.Glues kind') :
    Ends kind (some c) := by
  have hword : kind ∈ nameKinds → Text.isWord c = false := by
    refine fun hk => Bool.eq_false_iff.mpr fun hc => ?_
    exact hg (Or.inl ⟨hk, (isWord_iff_of_spells h).mp hc⟩)
  have hequals : kind ∈ openEnded → some c ≠ some '=' := by
    refine fun hk hc => hg (Or.inr (Or.inr ⟨hk, ?_⟩))
    exact (eq_equals_iff_of_spells h).mp (Option.some.inj hc)
  cases kind
  case number =>
    intro e he
    obtain rfl := Option.some.inj he
    refine ⟨Bool.eq_false_iff.mpr fun hc => hg (Or.inr (Or.inl ⟨rfl, kind_of_digit h hc⟩)), ?_⟩
    rintro rfl
    exact not_spells (by decide +kernel) h
  case identifier | trueKeyword | falseKeyword | functionKeyword | ifKeyword | elseKeyword
      | returnKeyword =>
    intro e he
    obtain rfl := Option.some.inj he
    exact hword (by decide)
  case assign | bang | greater | less => exact hequals (by decide)
  all_goals exact trivial

/-- **These always run together**: with the first character of what stands on the right behind it,
what stands on the left is still spelled like a token. -/
theorem exists_longer_of_glues (h : Spells kind (c :: more)) (h' : Spells kind' (d :: more'))
    (hg : kind.Glues kind') : ∃ longer, Spells longer (c :: (more ++ [d])) := by
  rcases hg with ⟨hk, hk'⟩ | ⟨rfl, rfl⟩ | ⟨hk, hk'⟩
  · obtain ⟨hn, hmore⟩ := word_of_spells h hk
    refine ⟨_, .name hn fun e he => ?_⟩
    rcases List.mem_append.mp he with he | he
    · exact hmore e he
    · obtain rfl := List.mem_singleton.mp he
      exact (isWord_iff_of_spells h').mpr hk'
  · exact ⟨_, .numeral (h.plain.concat (h'.plain.head? d rfl))⟩
  · obtain rfl := (eq_equals_iff_of_spells h').mpr hk'
    have hsign : c :: more = kind.sign := by
      have hsigns : ∀ kind ∈ openEnded, kind ∈ signKinds := by decide
      exact eq_sign_of_spells h (hsigns kind hk)
    have hall : ∀ kind ∈ openEnded, ∃ longer ∈ signKinds, longer.sign = kind.sign ++ ['='] := by
      decide
    obtain ⟨longer, hl, hs⟩ := hall kind hk
    refine ⟨longer, ?_⟩
    rw [← List.cons_append, hsign, ← hs]
    exact spells_sign hl

/-- The kinds that run together are not strings. -/
theorem kind_ne_string_of_glues (hg : kind.Glues kind') : kind ≠ .string := by
  rintro rfl
  exact absurd hg (by cases kind' <;> decide)

end Lexeme

/-! ## Writable tiles -/

namespace Tile

variable {t left right : Tile}

/-- What a writable tile covers is spelled as its token. -/
theorem Writable.spells (h : t.Writable) : Spells t.token.kind t.slice := by
  obtain ⟨source, u, hu, hkind, htext⟩ := h.scannable
  have hne : u.kind ≠ .endOfInput := hkind ▸ h.kind_ne
  obtain ⟨p, l, rfl, hs⟩ := (TokenStream.scanned_of_mem hu).ofLexeme hne
  have hslice := h.slice
  rw [← hkind, ← htext] at hslice
  rw [← hkind]
  show Spells l.kind t.slice
  have htexts : (String.ofList l.text).toList = l.text := String.toList_ofList
  change if l.kind = .string then ∃ quote, (quote = '\x27' ∨ quote = '"') ∧
      quote ∉ (String.ofList l.text).toList ∧
      t.slice = quote :: ((String.ofList l.text).toList ++ [quote])
    else t.slice = (String.ofList l.text).toList at hslice
  rw [htexts] at hslice
  split at hslice
  next hk =>
    obtain ⟨quote, hq, hquote, hwritten⟩ := hslice
    rw [hk] at hs ⊢
    obtain ⟨quote', content, hspelling, -, -, hnewline⟩ := content_of_spells hs
    have hcontent : l.text = content := by
      obtain ⟨-, hmore⟩ := List.cons.inj hspelling
      rw [Lexeme.text, if_pos hk, hmore, List.dropLast_concat]
    rw [hcontent] at hquote hwritten
    rw [hwritten]
    exact .string hq hquote hnewline
  next hk =>
    rw [hslice, Lexeme.text, if_neg hk]
    exact hs

/-- Nothing in the characters or behind them keeps two neighbours from being told apart: there is
white space between them, or they do not run together. -/
def Apart (left right : Tile) : Prop := right.gap = [] → ¬ left.token.kind.Glues right.token.kind

/-- What stands apart on the right ends what stands on the left. -/
theorem Writable.ends (h : right.Writable) (ha : Apart left right) (rest : List Char) :
    Ends left.token.kind (right.written ++ rest).head? := by
  unfold written
  cases hgap : right.gap with
  | cons c gap =>
    refine ends_of_gap fun d hd => ?_
    obtain rfl := Option.some.inj hd
    exact Source.mem_whiteSpace_iff.mp (h.gap c (hgap ▸ List.mem_cons_self ..))
  | nil =>
    have hs := h.spells
    obtain ⟨c, more, hslice⟩ := exists_cons_of_spells hs
    rw [hslice] at hs ⊢
    exact ends_of_not_glues hs (ha hgap)

/-- The token of a writable tile is scanned, if what follows the tile ends it. -/
theorem Writable.exists_scanFrom (h : t.Writable) {rest : List Char}
    (he : Ends t.token.kind rest.head?) (p : Position) :
    ∃ u q, TokenStream.scanFrom p (t.written ++ rest) =
        TokenStream.cons u (TokenStream.scanFrom q rest) ∧
      u.kind = t.token.kind ∧ u.text = t.token.text := by
  have hs := h.spells
  have hwritten := h.slice
  obtain ⟨c, more, hslice⟩ := exists_cons_of_spells hs
  rw [hslice] at hs hwritten
  refine ⟨TokenStream.tokenAt (p.after t.gap) ⟨t.token.kind, c, more⟩,
    (p.after t.gap).right (c :: more).length, ?_, rfl, ?_⟩
  · rw [written, List.append_assoc, hslice,
      TokenStream.scanFrom_gap fun d hd => Source.mem_whiteSpace_iff.mp (h.gap d hd),
      TokenStream.scanFrom_spelling hs he]
  · show String.ofList (Lexeme.text ⟨t.token.kind, c, more⟩) = t.token.text
    rw [Lexeme.text]
    split at hwritten
    next hk =>
      obtain ⟨quote, -, -, hq⟩ := hwritten
      obtain ⟨-, hmore⟩ := List.cons.inj hq
      rw [if_pos hk, hmore, List.dropLast_concat, String.ofList_toList]
    next hk =>
      rw [if_neg hk]
      show String.ofList (c :: more) = _
      rw [hwritten, String.ofList_toList]

end Tile

/-! ## Giving back -/

namespace TokenStream

variable {left right : Tile} {tiles : List Tile} {behind rest : List Char}

theorem givesBack_cons {t : Tile} {u : Token} {stream : TokenStream} (hk : u.kind = t.token.kind)
    (ht : u.text = t.token.text) :
    (cons u stream).GivesBack (t :: tiles) ↔ stream.GivesBack tiles := by
  simp [GivesBack, cons, hk, ht]

/-- Where two tokens run together, the first of them is not given back, whatever comes behind. -/
theorem not_givesBack_of_glues (hl : left.Writable) (hr : right.Writable) (hgap : right.gap = [])
    (hg : left.token.kind.Glues right.token.kind) (p : Position) :
    ¬ (scanFrom p (left.written ++ (right.written ++ rest))).GivesBack (left :: tiles) := by
  have hs := hl.spells
  have hs' := hr.spells
  have hwritten := hl.slice
  rw [if_neg (kind_ne_string_of_glues hg)] at hwritten
  obtain ⟨c, more, hslice⟩ := exists_cons_of_spells hs
  obtain ⟨d, more', hslice'⟩ := exists_cons_of_spells hs'
  rw [hslice] at hs hwritten
  rw [hslice'] at hs'
  obtain ⟨longer, hlonger⟩ := exists_longer_of_glues hs hs' hg
  obtain ⟨l, hread, hlength⟩ := exists_read?_of_spells hlonger (more' ++ rest)
  have htext : left.written ++ (right.written ++ rest) =
      left.gap ++ (c :: (more ++ [d] ++ (more' ++ rest))) := by
    simp [Tile.written, hslice, hslice', hgap]
  rw [htext, scanFrom_gap fun e he => Source.mem_whiteSpace_iff.mp (hl.gap e he), scanFrom,
    isGap_of_spells hs, if_neg (by decide), hread]
  rintro ⟨-, htokens⟩
  -- the token that is read there would be the one on the left, which has fewer characters
  obtain ⟨hkind, hsame⟩ := Prod.mk.inj (List.cons.inj htokens).1
  have hne : l.kind ≠ .string := by
    rw [show l.kind = left.token.kind from hkind]
    exact kind_ne_string_of_glues hg
  have hspelling : l.spelling = left.token.text.toList := by
    rw [← hsame]
    exact (toList_text_tokenAt hne _).symm
  have hcount := congrArg List.length (hspelling.trans hwritten.symm)
  simp only [Lexeme.spelling, List.length_cons, List.length_append, List.length_nil]
    at hcount hlength
  omega

/-- **What is given back**: the tokens, exactly if all neighbours are apart. -/
theorem givesBack_iff (ht : ∀ t ∈ tiles, t.Writable) (hb : ∀ c ∈ behind, c ∈ Source.whiteSpace)
    (p : Position) :
    (scanFrom p (tiles.flatMap Tile.written ++ behind)).GivesBack tiles ↔
      tiles.IsChain Tile.Apart := by
  have hgaps : ∀ c ∈ behind, Text.isGap c = true := fun c hc =>
    Source.mem_whiteSpace_iff.mp (hb c hc)
  induction tiles generalizing p with
  | nil =>
    have hend := scanFrom_gap hgaps p []
    rw [List.append_nil, scanFrom] at hend
    rw [List.flatMap_nil, List.nil_append, hend]
    exact ⟨fun _ => .nil, fun _ => ⟨rfl, rfl⟩⟩
  | cons t ts ih =>
    have hfirst := ht t (List.mem_cons_self ..)
    have hrest : ∀ t ∈ ts, t.Writable := fun u hu => ht u (List.mem_cons_of_mem _ hu)
    rw [List.flatMap_cons, List.append_assoc]
    cases ts with
    | nil =>
      have hends : Ends t.token.kind behind.head? :=
        ends_of_gap fun c hc => hgaps c (List.mem_of_mem_head? hc)
      obtain ⟨u, q, hscan, hk, htext⟩ := hfirst.exists_scanFrom hends p
      rw [List.flatMap_nil, List.nil_append, hscan, givesBack_cons hk htext]
      exact (ih hrest q).trans ⟨fun _ => .singleton t, fun _ => .nil⟩
    | cons r rs =>
      have hsecond := hrest r (List.mem_cons_self ..)
      rw [List.isChain_cons_cons]
      by_cases hapart : Tile.Apart t r
      · have hends : Ends t.token.kind ((r :: rs).flatMap Tile.written ++ behind).head? := by
          rw [List.flatMap_cons, List.append_assoc]
          exact hsecond.ends hapart _
        obtain ⟨u, q, hscan, hk, htext⟩ := hfirst.exists_scanFrom hends p
        rw [hscan, givesBack_cons hk htext, and_iff_right hapart]
        exact ih hrest q
      · obtain ⟨hgap, hg⟩ := Classical.not_imp.mp hapart
        rw [List.flatMap_cons, List.append_assoc]
        exact ⟨fun h => (not_givesBack_of_glues hfirst hsecond hgap (not_not.mp hg) p h).elim,
          fun h => (hapart h.1).elim⟩

end TokenStream

/-- **Rescanning written tokens, and where white space is needed.**  Take any tokens that the
scanner makes, none of them an end of input, and write each in its characters, a string in quotes
that it does not contain.  With white space between any two neighbours, scanning gives the tokens
back, by kind and text, and an end of input.  With white space left out between some neighbours,
scanning gives something else exactly if the kinds of two of these neighbours run together. -/
theorem rescanning_written_tokens (source : String) (tiles : List Tile) (behind : List Char)
    (hsource : source.toList = tiles.flatMap Tile.written ++ behind)
    (htiles : ∀ t ∈ tiles, t.Writable) (hbehind : ∀ c ∈ behind, c ∈ Source.whiteSpace) :
    ((∀ t ∈ tiles.tail, t.gap ≠ []) → (TokenStream.scan source).GivesBack tiles) ∧
    (¬ (TokenStream.scan source).GivesBack tiles ↔
      ∃ before left right after, tiles = before ++ left :: right :: after ∧ right.gap = [] ∧
        left.token.kind.Glues right.token.kind) := by
  have hiff := TokenStream.givesBack_iff htiles hbehind Position.origin
  rw [← hsource, List.isChain_iff_forall_rel_of_append_cons_cons] at hiff
  constructor
  · intro hgaps
    refine hiff.mpr fun left right before after htiles hgap => ?_
    have hmem : right ∈ tiles.tail := by
      rw [htiles, List.tail_append]
      split <;> simp
    exact absurd hgap (hgaps right hmem)
  · constructor
    · intro h
      by_contra hnone
      refine h (hiff.mpr fun left right before after htiles hgap hg => hnone ?_)
      exact ⟨before, left, right, after, htiles, hgap, hg⟩
    · rintro ⟨before, left, right, after, htiles, hgap, hg⟩ h
      exact hiff.mp h htiles hgap hg

/-- A number, a name and two equals signs of different length: only between the last two is white
space needed. -/
theorem rescanning_written_tokens_equals :
    let tile (gap : List Char) (kind : TokenKind) (text : String) : Tile :=
      ⟨gap, text.toList, ⟨kind, text, Range.point Position.origin⟩⟩
    let touching := [tile [] .number "12", tile [] .identifier "가", tile [] .assign "=",
      tile [] .equal "=="]
    let spaced := [tile [] .number "12", tile ['\n'] .identifier "가", tile [' '] .assign "=",
      tile ['\t', ' '] .equal "=="]
    (∀ t ∈ touching, t.Writable) ∧ (∀ t ∈ spaced, t.Writable) ∧
      ¬ (TokenStream.scan "12가===").GivesBack touching ∧
      (TokenStream.scan "12\n가 =\t ==").GivesBack spaced := by
  intro tile touching spaced
  have hwritable : ∀ gap ∈ [[], ['\n'], [' '], ['\t', ' ']],
      ∀ said ∈ [(TokenKind.number, "12"), (.identifier, "가"), (.assign, "="), (.equal, "==")],
        (tile gap said.1 said.2).Writable := by
    intro gap hgap said hsaid
    have hgaps : ∀ gap ∈ [[], ['\n'], [' '], ['\t', ' ']], ∀ c ∈ gap, c ∈ Source.whiteSpace := by
      simp [Source.whiteSpace]
    have hmade : ∀ said ∈ [(TokenKind.number, "12"), (.identifier, "가"), (.assign, "="),
        (.equal, "==")], said.1 ≠ .endOfInput ∧ said.1 ≠ .string ∧
          ∃ u ∈ (TokenStream.scan "12 가 = ==").tokens, u.kind = said.1 ∧ u.text = said.2 := by
      decide +kernel
    obtain ⟨hend, hstring, hmade⟩ := hmade said hsaid
    refine ⟨hgaps gap hgap, ⟨_, hmade⟩, hend, ?_⟩
    rw [if_neg hstring]
  have htouching : ∀ t ∈ touching, t.Writable := by
    intro t ht
    simp only [touching, List.mem_cons, List.not_mem_nil, or_false] at ht
    rcases ht with rfl | rfl | rfl | rfl <;> exact hwritable _ (by decide) (_, _) (by decide)
  have hspaced : ∀ t ∈ spaced, t.Writable := by
    intro t ht
    simp only [spaced, List.mem_cons, List.not_mem_nil, or_false] at ht
    rcases ht with rfl | rfl | rfl | rfl <;> exact hwritable _ (by decide) (_, _) (by decide)
  refine ⟨htouching, hspaced, ?_, ?_⟩
  · refine (rescanning_written_tokens "12가===" touching [] (by decide) htouching
      (by simp)).2.mpr ?_
    exact ⟨[tile [] .number "12", tile [] .identifier "가"], _, _, [], rfl, rfl, by decide⟩
  · exact (rescanning_written_tokens "12\n가 =\t ==" spaced [] (by decide) hspaced
      (by simp)).1 (by decide)

end HangulScript
