import HangulScript.Proofs.Scanning.Stream
import Mathlib.Data.List.Forall2

/-!
# Marks and how they are written

A mark is a token before it is written: what it says, without a range and without the choice
of a spelling.  A number can be written by any plain numeral of its value and a string in any
quotes that it does not contain; everything else has one spelling.

`Writes marks text` says that a text writes marks one after the other, with white space
between any two of them and, if one likes, around them all.  Such a text is scanned without a
fault, and its tokens say what the marks say (`exists_scanFrom_of_writes`).
-/

namespace HangulScript

namespace TokenKind

/-- How a keyword, an operator or a bracket is spelled; nothing for the other kinds. -/
def sign : TokenKind → List Char
  | trueKeyword => ['참']
  | falseKeyword => ['거', '짓']
  | functionKeyword => ['함', '수']
  | ifKeyword => ['만', '약']
  | elseKeyword => ['아', '니', '면']
  | returnKeyword => ['결', '과']
  | plus => ['+']
  | minus => ['-']
  | star => ['*']
  | slash => ['/']
  | bang => ['!']
  | assign => ['=']
  | equal => ['=', '=']
  | notEqual => ['!', '=']
  | greater => ['>']
  | less => ['<']
  | greaterOrEqual => ['>', '=']
  | lessOrEqual => ['<', '=']
  | leftParenthesis => ['(']
  | rightParenthesis => [')']
  | leftBrace => ['\x7b']
  | rightBrace => ['\x7d']
  | comma => [',']
  | number | string | identifier | endOfInput => []

end TokenKind

/-- The kinds of the keywords, operators and brackets. -/
def signKinds : List TokenKind := TokenKind.all.filter fun kind => kind.sign != []

/-- A text that is a name: spelled like a name and not a keyword. -/
def IsName (text : List Char) : Prop :=
  (∃ c more, text = c :: more ∧ Text.isNameStart c = true ∧ ∀ d ∈ more, Text.isWord d = true) ∧
    text ∉ keywords.map Prod.fst

/-- What a token says. -/
inductive Mark where
  | number (value : Double)
  | string (value : String)
  | name (text : String)
  | sign (kind : TokenKind)

namespace Mark

/-- The kind of the tokens that say it. -/
def kind : Mark → TokenKind
  | number _ => .number
  | string _ => .string
  | name _ => .identifier
  | sign kind => kind

/-- A token says it. -/
def Says : Mark → Token → Prop
  | number value, t => t.kind = .number ∧ Numeral.value? t.text.toList = some value
  | string value, t => t.kind = .string ∧ t.text = value
  | name text, t => t.kind = .identifier ∧ t.text = text
  | sign kind, t => t.kind = kind ∧ t.text = String.ofList kind.sign

theorem Says.kind_eq {m : Mark} {t : Token} (h : m.Says t) : t.kind = m.kind := by
  cases m <;> exact h.1

/-- A text spells it. -/
inductive Spelled : Mark → List Char → Prop
  | number {value : Double} {text : List Char} : Numeral.Plain text →
      Numeral.value? text = some value → Spelled (.number value) text
  | string {value : String} {quote : Char} : quote = '\x27' ∨ quote = '"' →
      quote ∉ value.toList → '\n' ∉ value.toList →
      Spelled (.string value) (quote :: (value.toList ++ [quote]))
  | name {text : String} : IsName text.toList → Spelled (.name text) text.toList
  | sign {kind : TokenKind} : kind ∈ signKinds → Spelled (.sign kind) kind.sign

end Mark

/-- Marks written one after the other, each two with white space between them. -/
def Writes : List Mark → List Char → Prop
  | [], text => ∀ c ∈ text, Text.isGap c = true
  | m :: ms, text => ∃ gap spelling rest, text = gap ++ (spelling ++ rest) ∧
      (∀ c ∈ gap, Text.isGap c = true) ∧ m.Spelled spelling ∧
      (∀ c ∈ rest.head?, Text.isGap c = true) ∧ Writes ms rest

/-! ## Spellings of marks are spellings of tokens -/

theorem nameKind_of_not_mem {text : List Char} (h : text ∉ keywords.map Prod.fst) :
    nameKind text = .identifier := by
  unfold nameKind
  cases hl : keywords.lookup text with
  | none => rfl
  | some kind => exact absurd (List.mem_map_of_mem (Lexeme.mem_of_lookup hl)) h

theorem spells_sign {kind : TokenKind} (h : kind ∈ signKinds) : Lexeme.Spells kind kind.sign := by
  have hname : ∀ {c : Char} {more : List Char} {kind : TokenKind}, Text.isNameStart c = true →
      more.all Text.isWord = true → nameKind (c :: more) = kind →
      Lexeme.Spells kind (c :: more) := by
    rintro c more kind hc hmore rfl
    exact .name hc (List.all_eq_true.mp hmore)
  cases kind
  case trueKeyword | falseKeyword | functionKeyword | ifKeyword | elseKeyword | returnKeyword =>
    exact hname (by decide +kernel) (by decide +kernel) (by decide)
  case equal | notEqual | greaterOrEqual | lessOrEqual => exact .double (by decide)
  case number | string | identifier | endOfInput => exact absurd h (by decide)
  all_goals exact .single (by decide)

/-- Keywords, operators and brackets are spelled in one way. -/
theorem eq_sign_of_spells {kind : TokenKind} {text : List Char} (h : Lexeme.Spells kind text)
    (hk : kind ∈ signKinds) : text = kind.sign := by
  cases h with
  | numeral | string => exact absurd hk (by decide)
  | @name c more =>
    have hall : ∀ entry ∈ keywords, entry.1 = entry.2.sign := by decide
    unfold nameKind at hk ⊢
    cases hl : keywords.lookup (c :: more) with
    | none =>
      rw [hl] at hk
      exact absurd hk (by decide)
    | some kind => exact hall _ (Lexeme.mem_of_lookup hl)
  | double hm =>
    have hall : ∀ entry ∈ doubleOperators, [entry.1.1, entry.1.2] = entry.2.sign := by decide
    exact hall _ hm
  | single hm =>
    have hall : ∀ entry ∈ singleOperators, [entry.1] = entry.2.sign := by decide
    exact hall _ hm

/-- Identifiers are spelled by names. -/
theorem isName_of_spells {text : List Char} (h : Lexeme.Spells .identifier text) : IsName text := by
  generalize hk : TokenKind.identifier = kind at h
  cases h with
  | numeral | string => cases hk
  | @name c more hc hmore =>
    refine ⟨⟨c, more, rfl, hc, hmore⟩, fun hm => ?_⟩
    obtain ⟨entry, hentry, he⟩ := List.mem_map.mp hm
    have hall : ∀ entry ∈ keywords, nameKind entry.1 ≠ .identifier := by decide
    exact hall entry hentry (he ▸ hk.symm)
  | double hm => exact absurd (hk ▸ Lexeme.mem_operatorKinds_of_double hm) (by decide)
  | single hm => exact absurd (hk ▸ Lexeme.mem_operatorKinds_of_single hm) (by decide)

/-- Strings are spelled by a quote, a text without it and without newlines, and the quote. -/
theorem content_of_spells {text : List Char} (h : Lexeme.Spells .string text) :
    ∃ quote content, text = quote :: (content ++ [quote]) ∧ (quote = '\x27' ∨ quote = '"') ∧
      quote ∉ content ∧ '\n' ∉ content := by
  generalize hk : TokenKind.string = kind at h
  cases h with
  | numeral => cases hk
  | string hq hquote hnewline => exact ⟨_, _, rfl, hq, hquote, hnewline⟩
  | @name c more => exact absurd (hk ▸ Lexeme.nameKind_mem (c :: more)) (by decide)
  | double hm => exact absurd (hk ▸ Lexeme.mem_operatorKinds_of_double hm) (by decide)
  | single hm => exact absurd (hk ▸ Lexeme.mem_operatorKinds_of_single hm) (by decide)

/-- A spelling of a mark is one of a token that says the mark. -/
theorem Mark.Spelled.exists_lexeme {m : Mark} {text : List Char} (h : m.Spelled text) :
    ∃ c more, text = c :: more ∧ Lexeme.Spells m.kind (c :: more) ∧
      ∀ p, m.Says (TokenStream.tokenAt p ⟨m.kind, c, more⟩) := by
  cases h with
  | number hp hv =>
    cases text with
    | nil => cases hv
    | cons c more =>
      refine ⟨c, more, rfl, .numeral hp, fun p => ⟨rfl, ?_⟩⟩
      rw [← hv]
      simp [TokenStream.tokenAt, Lexeme.text, Lexeme.spelling, Mark.kind]
  | string hq hquote hnewline =>
    refine ⟨_, _, rfl, .string hq hquote hnewline, fun p => ⟨rfl, ?_⟩⟩
    simp [TokenStream.tokenAt, Lexeme.text, Mark.kind]
  | name hn =>
    obtain ⟨⟨c, more, htext, hc, hmore⟩, hkeyword⟩ := hn
    have hkind := nameKind_of_not_mem hkeyword
    rw [htext] at hkind ⊢
    have hspells := Lexeme.Spells.name hc hmore
    rw [hkind] at hspells
    refine ⟨c, more, rfl, hspells, fun p => ⟨rfl, ?_⟩⟩
    show String.ofList (c :: more) = _
    rw [← htext, String.ofList_toList]
  | @sign kind hk =>
    have hspells := spells_sign hk
    have hne : kind.sign ≠ [] := by
      intro he
      rw [signKinds, List.mem_filter, he] at hk
      exact absurd hk.2 (by decide)
    have hstring : kind ≠ .string := by
      rintro rfl
      exact absurd hk (by decide)
    obtain ⟨c, more, htext⟩ := List.exists_cons_of_ne_nil hne
    rw [htext] at hspells ⊢
    refine ⟨c, more, rfl, hspells, fun p => ⟨rfl, ?_⟩⟩
    show String.ofList (Lexeme.text ⟨kind, c, more⟩) = _
    rw [htext, Lexeme.text, if_neg hstring]
    rfl

/-! ## Written marks are scanned -/

/-- **What is written is scanned.**  The tokens say what the marks say, and an end of input
follows them. -/
theorem exists_scanFrom_of_writes {marks : List Mark} {text : List Char} (h : Writes marks text)
    (p : Position) : ∃ tokens final, TokenStream.scanFrom p text = ⟨tokens ++ [final], none⟩ ∧
      List.Forall₂ Mark.Says marks tokens ∧ final.kind = .endOfInput := by
  induction marks generalizing text p with
  | nil =>
    have hs := TokenStream.scanFrom_gap h p []
    rw [List.append_nil, TokenStream.scanFrom] at hs
    exact ⟨[], _, hs, .nil, rfl⟩
  | cons m ms ih =>
    obtain ⟨gap, spelling, rest, rfl, hgap, hspelled, hends, hrest⟩ := h
    obtain ⟨c, more, rfl, hspells, hsaid⟩ := hspelled.exists_lexeme
    rw [TokenStream.scanFrom_gap hgap,
      TokenStream.scanFrom_spelling hspells (Lexeme.ends_of_gap hends)]
    obtain ⟨tokens, final, hs, hall, hfinal⟩ := ih hrest ((p.after gap).right (c :: more).length)
    rw [hs]
    exact ⟨_ :: tokens, final, rfl, .cons (hsaid _) hall, hfinal⟩

end HangulScript
