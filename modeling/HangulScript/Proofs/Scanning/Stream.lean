import HangulScript.Proofs.Scanning.Lexemes
import HangulScript.Token.Stream

/-!
# What a scanned stream holds

Every token of a stream is the end of input or was read from a lexeme, and so its text is a
spelling of its kind.  In particular a number token holds a plain numeral, which has a value.
-/

namespace HangulScript
namespace Token

/-- A token that is a numeral if it says so. -/
def Valued (t : Token) : Prop :=
  t.kind = .number → ∃ value, Numeral.value? t.text.toList = some value

/-- A token that was read from a lexeme. -/
def OfLexeme (t : Token) : Prop :=
  ∃ p l, t = TokenStream.tokenAt p l ∧ Lexeme.Spells l.kind l.spelling

/-- A token of a scanned stream: the end of input, or the token of a lexeme. -/
def Scanned (t : Token) : Prop := t.kind = .endOfInput ∨ t.OfLexeme

/-- A token that agrees in kind and text with one that the scanner makes. -/
def Scannable (t : Token) : Prop :=
  ∃ source, ∃ u ∈ (TokenStream.scan source).tokens, u.kind = t.kind ∧ u.text = t.text

end Token

namespace TokenStream

/-- The text of a token, strings apart, is what was spelled. -/
theorem toList_text_tokenAt {l : Lexeme} (h : l.kind ≠ .string) (p : Position) :
    (tokenAt p l).text.toList = l.spelling := by
  show (String.ofList l.text).toList = l.spelling
  rw [String.toList_ofList, Lexeme.text, if_neg h]

/-- Nothing that spells a token begins with white space. -/
theorem isGap_of_spells {kind : TokenKind} {c : Char} {more : List Char}
    (h : Lexeme.Spells kind (c :: more)) : Text.isGap c = false := by
  refine Bool.eq_false_iff.mpr fun hgap => ?_
  simp only [Text.isGap, Bool.or_eq_true, beq_iff_eq] at hgap
  refine Lexeme.not_spells ?_ h
  rcases hgap with (((rfl | rfl) | rfl) | rfl) | rfl <;> decide +kernel

/-- White space is skipped. -/
theorem scanFrom_gap {gap : List Char} (h : ∀ c ∈ gap, Text.isGap c = true) (p : Position)
    (text : List Char) : scanFrom p (gap ++ text) = scanFrom (p.after gap) text := by
  induction gap generalizing p with
  | nil => rfl
  | cons c gap ih =>
    rw [List.cons_append, scanFrom, if_pos (h c (List.mem_cons_self ..)),
      ih (fun d hd => h d (List.mem_cons_of_mem c hd)), Position.after_cons]

/-- A spelling that ends where it should is scanned as its token. -/
theorem scanFrom_spelling {kind : TokenKind} {c : Char} {more rest : List Char}
    (h : Lexeme.Spells kind (c :: more)) (he : Lexeme.Ends kind rest.head?) (p : Position) :
    scanFrom p (c :: more ++ rest) =
      cons (tokenAt p ⟨kind, c, more⟩) (scanFrom (p.right (c :: more).length) rest) := by
  rw [List.cons_append, scanFrom, isGap_of_spells h, if_neg (by decide),
    Lexeme.read?_of_spells h he]
  simp only [List.drop_left]
  rfl

theorem scanned_of_mem {p : Position} {text : List Char} {t : Token}
    (h : t ∈ (scanFrom p text).tokens) : t.Scanned := by
  fun_induction scanFrom p text with
  | case1 p =>
    obtain rfl := List.mem_singleton.mp h
    exact Or.inl rfl
  | case2 p c rest _ ih => exact ih h
  | case3 p c rest => cases h
  | case4 p c rest _ l hl ih =>
    rcases List.mem_cons.mp h with rfl | h
    · exact Or.inr ⟨p, l, rfl, (Lexeme.spells_of_read? hl).1⟩
    · exact ih h

end TokenStream

/-- Anything but the end of input is the token of a lexeme. -/
theorem Token.Scanned.ofLexeme {t : Token} (h : t.Scanned) (hk : t.kind ≠ .endOfInput) :
    t.OfLexeme :=
  h.resolve_left hk

/-- The text of a scanned number is a plain numeral. -/
theorem Token.Scanned.plain {t : Token} (h : t.Scanned) (hk : t.kind = .number) :
    Numeral.Plain t.text.toList := by
  obtain ⟨p, l, rfl, hs⟩ := h.ofLexeme (by rw [hk]; decide)
  have hkind : l.kind = .number := hk
  rw [TokenStream.toList_text_tokenAt (by rw [hkind]; decide)]
  rw [hkind] at hs
  exact hs.plain

/-- Number tokens that the scanner makes are numerals. -/
theorem Token.Scannable.valued {t : Token} (h : t.Scannable) : t.Valued := by
  intro hk
  obtain ⟨source, u, hu, hkind, htext⟩ := h
  rw [← htext]
  exact ((TokenStream.scanned_of_mem hu).plain (hkind.trans hk)).exists_value

end HangulScript
