import HangulScript.Proofs.Rendering.Marks

/-!
# Terminals, and the longest match

The scanner decides by the first character which sort of lexeme to read, and reads on as far as
that sort goes.  The definition of the language says it in another way: there are terminals, each
matches certain texts, and at every offset the longest match of any terminal is taken.  A keyword
is a terminal like the others there, and what it matches an identifier matches too; the keyword
has it.

`Terminal` says what each terminal matches, all on its own, and `LongestMatch` what it means that
no terminal matches more.  The two views agree.  What the scanner reads is the longest match
(`longestMatch_of_read?`), and where it reads nothing no terminal matches anything
(`not_terminal_of_read?`).  Both come from one lemma: whatever is spelled at the beginning of a
text, the scanner reads something there that is at least as long (`exists_read?_of_spells`).
-/

namespace HangulScript

open Lexeme

/-- What the terminal of a kind matches. -/
inductive Terminal : TokenKind → List Char → Prop
  | number {text : List Char} : Numeral.Plain text → Terminal .number text
  | string {quote : Char} {content : List Char} : quote = '\x27' ∨ quote = '"' →
      quote ∉ content → '\n' ∉ content → Terminal .string (quote :: (content ++ [quote]))
  | identifier {c : Char} {more : List Char} : Text.isNameStart c = true →
      (∀ d ∈ more, Text.isWord d = true) → Terminal .identifier (c :: more)
  | keyword {text : List Char} {kind : TokenKind} : (text, kind) ∈ keywords → Terminal kind text
  | double {c d : Char} {kind : TokenKind} : ((c, d), kind) ∈ doubleOperators →
      Terminal kind [c, d]
  | single {c : Char} {kind : TokenKind} : (c, kind) ∈ singleOperators → Terminal kind [c]

/-- A match at the beginning of a text that no terminal outdoes there.  Of an identifier and a
keyword that match the same, it is the keyword's. -/
structure LongestMatch (kind : TokenKind) (slice text : List Char) : Prop where
  begins : slice <+: text
  terminal : Terminal kind slice
  longest : ∀ kind' other, Terminal kind' other → other <+: text → other.length ≤ slice.length
  keyword : ∀ word ∈ keywords, word.1 = slice ↔ word.2 = kind

/-! ## Terminals and spellings -/

/-- What a terminal matches is spelled, as the kind of the terminal or, if it is spelled like a
keyword, as that. -/
theorem Terminal.exists_spells {kind : TokenKind} {text : List Char} (h : Terminal kind text) :
    ∃ kind', Spells kind' text := by
  cases h with
  | number hp => exact ⟨_, .numeral hp⟩
  | string hq hquote hnewline => exact ⟨_, .string hq hquote hnewline⟩
  | identifier hc hmore => exact ⟨_, .name hc hmore⟩
  | keyword hm =>
    have hsign : ∀ word ∈ keywords, word.2 ∈ signKinds ∧ word.2.sign = word.1 := by decide
    obtain ⟨hk, rfl⟩ : kind ∈ signKinds ∧ kind.sign = text := hsign _ hm
    exact ⟨kind, spells_sign hk⟩
  | double hm => exact ⟨_, .double hm⟩
  | single hm => exact ⟨_, .single hm⟩

/-- No terminal is that of the end of input. -/
theorem Terminal.kind_ne {kind : TokenKind} {text : List Char} (h : Terminal kind text) :
    kind ≠ .endOfInput := by
  have hkeyword : ∀ word ∈ keywords, word.2 ≠ .endOfInput := by decide
  have hdouble : ∀ entry ∈ doubleOperators, entry.2 ≠ .endOfInput := by decide
  have hsingle : ∀ entry ∈ singleOperators, entry.2 ≠ .endOfInput := by decide
  cases h with
  | number | string | identifier => decide
  | keyword hm => exact hkeyword _ hm
  | double hm => exact hdouble _ hm
  | single hm => exact hsingle _ hm

/-- What is spelled as a kind is matched by the terminal of that kind. -/
theorem terminal_of_spells {kind : TokenKind} {text : List Char} (h : Spells kind text) :
    Terminal kind text := by
  cases h with
  | numeral hp => exact .number hp
  | string hq hquote hnewline => exact .string hq hquote hnewline
  | @name c more hc hmore =>
    unfold nameKind
    cases hl : keywords.lookup (c :: more) with
    | none => exact .identifier hc hmore
    | some kind => exact .keyword (mem_of_lookup hl)
  | double hm => exact .double hm
  | single hm => exact .single hm

/-- Nothing is spelled with no characters. -/
theorem exists_cons_of_spells {kind : TokenKind} {text : List Char} (h : Spells kind text) :
    ∃ c more, text = c :: more := by
  cases h with
  | numeral hp =>
    cases hp with
    | whole hw => exact List.exists_cons_of_ne_nil hw.1
    | fraction => exact List.exists_cons_of_ne_nil (by simp)
  | _ => exact ⟨_, _, rfl⟩

/-- A text is spelled as one kind. -/
theorem kind_eq_of_spells {kind kind' : TokenKind} {text : List Char} (h : Spells kind text)
    (h' : Spells kind' text) : kind = kind' := by
  obtain ⟨c, more, rfl⟩ := exists_cons_of_spells h
  have hends : ∀ kind, Ends kind ([] : List Char).head? := fun kind =>
    ends_of_gap fun c hc => by cases hc
  have hread := read?_of_spells h (hends kind)
  rw [read?_of_spells h' (hends kind')] at hread
  cases hread
  rfl

/-- A keyword is spelled as itself, and nothing else is spelled as it. -/
theorem keyword_iff_of_spells {kind : TokenKind} {text : List Char} (h : Spells kind text) :
    ∀ word ∈ keywords, word.1 = text ↔ word.2 = kind := by
  intro word hw
  have hsign : ∀ word ∈ keywords, word.2 ∈ signKinds ∧ word.1 = word.2.sign := by decide
  obtain ⟨hk, ht⟩ := hsign word hw
  constructor
  · rintro rfl
    exact kind_eq_of_spells (ht ▸ spells_sign hk) h
  · rintro rfl
    exact ht.trans (eq_sign_of_spells h hk).symm

/-! ## The scanner reads the longest -/

/-- The digits at the beginning belong to the numeral. -/
theorem takeWhile_isPrefix_numeralTail (rest : List Char) :
    rest.takeWhile Text.isDecimalDigit <+: numeralTail rest := by
  unfold numeralTail
  simp only
  split
  · split
    · exact List.prefix_append ..
    · exact List.prefix_refl _
  · exact List.prefix_refl _

/-- No plain numeral at the beginning of a text is longer than the one that is read. -/
theorem length_le_numeralTail {c : Char} {more : List Char} (h : Numeral.Plain (c :: more))
    (after : List Char) : more.length ≤ (numeralTail (more ++ after)).length := by
  generalize htext : c :: more = text at h
  cases h with
  | whole hw =>
    subst htext
    have hmore : ∀ d ∈ more, Text.isDecimalDigit d = true :=
      fun d hd => hw.2 d (List.mem_cons_of_mem _ hd)
    have hle := (takeWhile_isPrefix_numeralTail (more ++ after)).length_le
    rw [List.takeWhile_append_of_pos hmore, List.length_append] at hle
    omega
  | @fraction whole fraction hw hf =>
    obtain ⟨d, whole, rfl⟩ := List.exists_cons_of_ne_nil hw.1
    obtain ⟨f, fraction, rfl⟩ := List.exists_cons_of_ne_nil hf.1
    rw [List.cons_append] at htext
    obtain ⟨rfl, rfl⟩ := List.cons.inj htext
    have hwhole : ∀ d ∈ whole, Text.isDecimalDigit d = true :=
      fun d hd => hw.2 d (List.mem_cons_of_mem _ hd)
    have hfraction : ∀ d ∈ fraction, Text.isDecimalDigit d = true :=
      fun d hd => hf.2 d (List.mem_cons_of_mem _ hd)
    have hpoint : ∀ d ∈ ('.' :: f :: fraction ++ after).head?, Text.isDecimalDigit d = false := by
      intro d hd
      cases hd
      decide +kernel
    obtain ⟨htake, hdrop⟩ := takeWhile_append_stop hwhole hpoint
    rw [List.append_assoc]
    simp only [numeralTail, htake, hdrop]
    show _ ≤ (if Text.isDecimalDigit f = true then
      whole ++ '.' :: f :: (fraction ++ after).takeWhile Text.isDecimalDigit else whole).length
    rw [if_pos (hf.2 f (List.mem_cons_self ..)), List.takeWhile_append_of_pos hfraction]
    simp only [List.length_append, List.length_cons]
    omega

/-- **Whatever is spelled at the beginning of a text, the scanner reads no less.** -/
theorem exists_read?_of_spells {kind : TokenKind} {c : Char} {more : List Char}
    (h : Spells kind (c :: more)) (after : List Char) :
    ∃ l, read? c (more ++ after) = some l ∧ more.length ≤ l.more.length := by
  generalize htext : c :: more = text at h
  cases id h with
  | numeral hp =>
    subst htext
    have hc : Text.isDecimalDigit c = true := hp.head? c rfl
    rw [read?, if_pos hc]
    exact ⟨_, rfl, length_le_numeralTail hp after⟩
  | name hc hmore =>
    obtain ⟨rfl, rfl⟩ := List.cons.inj htext
    rw [read?, if_neg (by rw [isDecimalDigit_of_isNameStart hc]; decide), if_pos hc]
    refine ⟨_, rfl, ?_⟩
    rw [List.takeWhile_append_of_pos hmore, List.length_append]
    exact Nat.le_add_right ..
  | string =>
    obtain ⟨rfl, rfl⟩ := List.cons.inj htext
    exact ⟨_, read?_of_spells h trivial, Nat.le_refl _⟩
  | double hm =>
    obtain ⟨rfl, rfl⟩ := List.cons.inj htext
    exact ⟨_, read?_of_spells h (ends_double hm _), Nat.le_refl _⟩
  | single hm =>
    obtain ⟨rfl, rfl⟩ := List.cons.inj htext
    obtain ⟨hd, hn, hq⟩ := plain_of_operatorStart (mem_operatorStarts_of_single hm)
    rw [read?, if_neg (by rw [hd]; decide), if_neg (by rw [hn]; decide), if_neg hq, operator?]
    -- With the next character it may be an operator of two characters, which is longer.
    split
    · exact ⟨_, rfl, Nat.zero_le _⟩
    · have hlookup : ∀ entry ∈ singleOperators, singleOperators.lookup entry.1 = some entry.2 := by
        decide
      rw [hlookup _ hm]
      exact ⟨_, rfl, Nat.zero_le _⟩

/-- A terminal that matches at the beginning of a text matches its first character, and the
scanner reads no less there. -/
theorem Terminal.exists_read? {kind : TokenKind} {slice : List Char} (h : Terminal kind slice)
    {c : Char} {rest : List Char} (hp : slice <+: c :: rest) :
    ∃ l, read? c rest = some l ∧ slice.length ≤ l.spelling.length := by
  obtain ⟨kind', hs⟩ := h.exists_spells
  obtain ⟨d, more, rfl⟩ := exists_cons_of_spells hs
  obtain ⟨after, ht⟩ := hp
  obtain ⟨rfl, rfl⟩ := List.cons.inj ht
  obtain ⟨l, hl, hle⟩ := exists_read?_of_spells hs after
  exact ⟨l, hl, Nat.succ_le_succ hle⟩

/-- **What the scanner reads is the longest match.** -/
theorem longestMatch_of_read? {c : Char} {rest : List Char} {l : Lexeme}
    (h : read? c rest = some l) : LongestMatch l.kind l.spelling (c :: rest) := by
  obtain ⟨hs, rfl, after, rfl, -⟩ := spells_of_read? h
  refine ⟨⟨after, rfl⟩, terminal_of_spells hs, fun kind other ht hp => ?_, keyword_iff_of_spells hs⟩
  obtain ⟨l', hl, hle⟩ := ht.exists_read? hp
  rw [h] at hl
  cases hl
  exact hle

/-- Where the scanner reads nothing, no terminal matches. -/
theorem not_terminal_of_read? {c : Char} {rest : List Char} (h : read? c rest = none)
    {kind : TokenKind} {slice : List Char} (ht : Terminal kind slice) : ¬ slice <+: c :: rest := by
  intro hp
  obtain ⟨l, hl, -⟩ := ht.exists_read? hp
  rw [h] at hl
  cases hl

end HangulScript
