import HangulScript.Proofs.Scanning.Numerals
import HangulScript.Token.Lexeme

/-!
# What a lexeme is

A lexeme is the longest one there is, so whether a spelling is read as a token depends on
what follows it.  The two sides are kept apart here.  `Spells` says which spellings a kind
of token has, whatever comes behind; `Ends` says which character may come behind one so
that the scanner stops there.

`read?_of_spells` reads a spelling back, and `spells_of_read?` says that nothing else is ever
read.  The second one leaves open that a point follows a numeral; a point begins no lexeme,
so where the scanner goes on this cannot be.
-/

namespace HangulScript
namespace Lexeme

/-- The spellings of the tokens of a kind. -/
inductive Spells : TokenKind → List Char → Prop
  | numeral {text : List Char} : Numeral.Plain text → Spells .number text
  | name {c : Char} {more : List Char} : Text.isNameStart c = true →
      (∀ d ∈ more, Text.isWord d = true) → Spells (nameKind (c :: more)) (c :: more)
  | string {quote : Char} {content : List Char} : quote = '\x27' ∨ quote = '"' →
      quote ∉ content → '\n' ∉ content → Spells .string (quote :: (content ++ [quote]))
  | double {c d : Char} {kind : TokenKind} : ((c, d), kind) ∈ doubleOperators → Spells kind [c, d]
  | single {c : Char} {kind : TokenKind} : (c, kind) ∈ singleOperators → Spells kind [c]

/-- A character, or the end of the text, behind which the scanner does not go on with a token
of a kind. -/
def Ends (kind : TokenKind) (next : Option Char) : Prop :=
  match kind with
  | .number => ∀ d ∈ next, Text.isDecimalDigit d = false ∧ d ≠ '.'
  | .identifier | .trueKeyword | .falseKeyword | .functionKeyword | .ifKeyword | .elseKeyword
  | .returnKeyword => ∀ d ∈ next, Text.isWord d = false
  | .assign | .bang | .greater | .less => next ≠ some '='
  | _ => True

/-! ## The first character -/

/-- The characters that begin an operator or a bracket. -/
def operatorStarts : List Char :=
  ['+', '-', '*', '/', '!', '=', '>', '<', '(', ')', '\x7b', '\x7d', ',']

theorem isDecimalDigit_of_isNameStart {c : Char} (h : Text.isNameStart c = true) :
    Text.isDecimalDigit c = false := by
  simp only [Text.isNameStart, Bool.and_eq_true, Bool.not_eq_true'] at h
  exact h.2

theorem plain_of_operatorStart {c : Char} (h : c ∈ operatorStarts) :
    Text.isDecimalDigit c = false ∧ Text.isNameStart c = false ∧ ¬ (c = '\x27' ∨ c = '"') := by
  have hall : operatorStarts.all (fun c => !Text.isDecimalDigit c && !Text.isNameStart c &&
      (c != '\x27' && c != '"')) = true := by decide +kernel
  have hc := List.all_eq_true.mp hall c h
  simp only [Bool.and_eq_true, Bool.not_eq_true', bne_iff_ne] at hc
  obtain ⟨⟨hdigit, hname⟩, hsingle, hdouble⟩ := hc
  exact ⟨hdigit, hname, fun hq => hq.elim hsingle hdouble⟩

theorem plain_of_quote {c : Char} (h : c = '\x27' ∨ c = '"') :
    Text.isDecimalDigit c = false ∧ Text.isNameStart c = false := by
  rcases h with rfl | rfl <;> decide +kernel

/-! ## Numerals -/

theorem numeralTail_of_plain {c : Char} {more after : List Char} (h : Numeral.Plain (c :: more))
    (ha : ∀ d ∈ after.head?, Text.isDecimalDigit d = false ∧ d ≠ '.') :
    numeralTail (more ++ after) = more := by
  have hstop : ∀ d ∈ after.head?, Text.isDecimalDigit d = false := fun d hd => (ha d hd).1
  generalize htext : c :: more = text at h
  cases h with
  | whole hw =>
    subst htext
    have hmore : ∀ d ∈ more, Text.isDecimalDigit d = true :=
      fun d hd => hw.2 d (List.mem_cons_of_mem _ hd)
    obtain ⟨htake, hdrop⟩ := takeWhile_append_stop hmore hstop
    simp only [numeralTail, htake, hdrop]
    split
    · exact absurd rfl (ha '.' rfl).2
    · rfl
  | @fraction whole fraction hw hf =>
    obtain ⟨d, whole, rfl⟩ := List.exists_cons_of_ne_nil hw.1
    obtain ⟨f, fraction, rfl⟩ := List.exists_cons_of_ne_nil hf.1
    rw [List.cons_append] at htext
    obtain ⟨rfl, rfl⟩ := List.cons.inj htext
    have hwhole : ∀ d ∈ whole, Text.isDecimalDigit d = true :=
      fun d hd => hw.2 d (List.mem_cons_of_mem _ hd)
    have hfraction : ∀ d ∈ fraction, Text.isDecimalDigit d = true :=
      fun d hd => hf.2 d (List.mem_cons_of_mem _ hd)
    have hpoint : ∀ d ∈ ('.' :: f :: fraction ++ after).head?, Text.isDecimalDigit d = false := by
      intro d hd
      cases hd
      decide +kernel
    obtain ⟨htake, hdrop⟩ := takeWhile_append_stop hwhole hpoint
    have hf' : Text.isDecimalDigit f = true := hf.2 f (List.mem_cons_self ..)
    have htail := (takeWhile_append_stop hfraction hstop).1
    rw [List.append_assoc]
    simp only [numeralTail, htake, hdrop]
    show (if Text.isDecimalDigit f = true then
      whole ++ '.' :: f :: (fraction ++ after).takeWhile Text.isDecimalDigit else whole) = _
    rw [if_pos hf', htail]

theorem mem_takeWhile {α : Type} {p : α → Bool} {a : α} {l : List α} (h : a ∈ l.takeWhile p) :
    p a = true := by
  induction l with
  | nil => cases h
  | cons b l ih =>
    rw [List.takeWhile_cons] at h
    split at h
    next hb =>
      rcases List.mem_cons.mp h with rfl | h
      · exact hb
      · exact ih h
    next => cases h

theorem head?_dropWhile {α : Type} {p : α → Bool} {l : List α} :
    ∀ a ∈ (l.dropWhile p).head?, p a = false := by
  intro a ha
  have h := List.head?_dropWhile_not p l
  rw [Option.mem_def.mp ha] at h
  simpa using h

/-- A digit and the numeral that goes on behind it are a plain numeral, and what follows is
no digit. -/
theorem plain_numeralTail {c : Char} {rest : List Char} (h : Text.isDecimalDigit c = true) :
    Numeral.Plain (c :: numeralTail rest) ∧ ∃ after, rest = numeralTail rest ++ after ∧
      ∀ d ∈ after.head?, Text.isDecimalDigit d = false := by
  have hwhole : Numeral.AllDigits (c :: rest.takeWhile Text.isDecimalDigit) := by
    refine ⟨List.cons_ne_nil _ _, fun d hd => ?_⟩
    rcases List.mem_cons.mp hd with rfl | hd
    · exact h
    · exact mem_takeWhile hd
  have hsplit : rest.takeWhile Text.isDecimalDigit ++ rest.dropWhile Text.isDecimalDigit = rest :=
    List.takeWhile_append_dropWhile
  have hstop : ∀ d ∈ (rest.dropWhile Text.isDecimalDigit).head?, Text.isDecimalDigit d = false :=
    head?_dropWhile
  simp only [numeralTail]
  generalize rest.takeWhile Text.isDecimalDigit = whole at *
  generalize rest.dropWhile Text.isDecimalDigit = behind at *
  split
  next d after =>
    by_cases hd : Text.isDecimalDigit d = true
    · rw [if_pos hd]
      have hfraction : Numeral.AllDigits (d :: after.takeWhile Text.isDecimalDigit) := by
        refine ⟨List.cons_ne_nil _ _, fun e he => ?_⟩
        rcases List.mem_cons.mp he with rfl | he
        · exact hd
        · exact mem_takeWhile he
      refine ⟨.fraction hwhole hfraction, after.dropWhile Text.isDecimalDigit, ?_, head?_dropWhile⟩
      rw [← hsplit, List.append_assoc, List.cons_append, List.cons_append,
        List.takeWhile_append_dropWhile]
    · rw [if_neg hd]
      exact ⟨.whole hwhole, _, hsplit.symm, hstop⟩
  next => exact ⟨.whole hwhole, behind, hsplit.symm, hstop⟩

/-! ## Strings -/

theorem stringTail?_of_content {quote : Char} {content after : List Char} (hq : quote ∉ content)
    (hn : '\n' ∉ content) :
    stringTail? quote (content ++ [quote] ++ after) = some (content ++ [quote]) := by
  have hall : ∀ c ∈ content, (c != quote && c != '\n') = true := by
    intro c hc
    have h₁ : c ≠ quote := fun e => hq (e ▸ hc)
    have h₂ : c ≠ '\n' := fun e => hn (e ▸ hc)
    simp [h₁, h₂]
  have hstop : ∀ c ∈ ([quote] ++ after).head?, (c != quote && c != '\n') = false := by
    intro c hc
    cases hc
    simp
  have htake := (takeWhile_append_stop hall hstop).1
  rw [List.append_assoc]
  simp only [stringTail?, htake]
  rw [List.getElem?_append_right (Nat.le_refl _), Nat.sub_self, List.singleton_append,
    List.getElem?_cons_zero, if_pos rfl]

/-- A string is read up to the next quote of its kind. -/
theorem content_of_stringTail? {quote : Char} {rest more : List Char}
    (h : stringTail? quote rest = some more) :
    ∃ content after, more = content ++ [quote] ∧ rest = more ++ after ∧ quote ∉ content ∧
      '\n' ∉ content := by
  have hsplit : rest.takeWhile (fun c => c != quote && c != '\n') ++
      rest.dropWhile (fun c => c != quote && c != '\n') = rest := List.takeWhile_append_dropWhile
  have hall : ∀ c ∈ rest.takeWhile (fun c => c != quote && c != '\n'),
      (c != quote && c != '\n') = true :=
    fun c hc => mem_takeWhile (p := fun c => c != quote && c != '\n') hc
  simp only [stringTail?] at h
  generalize rest.takeWhile (fun c => c != quote && c != '\n') = content at *
  generalize rest.dropWhile (fun c => c != quote && c != '\n') = behind at *
  split at h
  next hget =>
    cases h
    rw [← hsplit, List.getElem?_append_right (Nat.le_refl _), Nat.sub_self] at hget
    cases behind with
    | nil => cases hget
    | cons d after =>
      cases hget
      refine ⟨content, after, rfl, ?_, fun hq => ?_, fun hn => ?_⟩
      · rw [List.append_assoc, List.singleton_append, hsplit]
      · simpa using hall _ hq
      · simpa using hall _ hn
  next => cases h

/-! ## Names -/

/-- The kinds that a name can have. -/
def nameKinds : List TokenKind :=
  [.identifier, .trueKeyword, .falseKeyword, .functionKeyword, .ifKeyword, .elseKeyword,
    .returnKeyword]

theorem nameKind_mem (name : List Char) : nameKind name ∈ nameKinds := by
  have hall : ∀ entry ∈ keywords, entry.2 ∈ nameKinds := by decide
  unfold nameKind
  cases hl : keywords.lookup name with
  | none => decide
  | some kind =>
    obtain ⟨before, behind, hk, -⟩ := List.lookup_eq_some_iff.mp hl
    exact hall (name, kind) (by simp [hk])

/-- A name ends where the word does. -/
theorem ends_name {kind : TokenKind} (h : kind ∈ nameKinds) (next : Option Char) :
    Ends kind next ↔ ∀ d ∈ next, Text.isWord d = false := by
  simp only [nameKinds, List.mem_cons, List.not_mem_nil, or_false] at h
  rcases h with rfl | rfl | rfl | rfl | rfl | rfl | rfl <;> exact Iff.rfl

/-! ## Operators -/

/-- The operators of one character that an equals sign would make one of two. -/
def openEnded : List TokenKind := [.assign, .bang, .greater, .less]

theorem ends_single {c : Char} {kind : TokenKind} (h : (c, kind) ∈ singleOperators)
    (next : Option Char) : Ends kind next ↔ (kind ∈ openEnded → next ≠ some '=') := by
  simp only [singleOperators, List.mem_cons, Prod.mk.injEq, List.not_mem_nil, or_false] at h
  rcases h with ⟨-, rfl⟩ | ⟨-, rfl⟩ | ⟨-, rfl⟩ | ⟨-, rfl⟩ | ⟨-, rfl⟩ | ⟨-, rfl⟩ | ⟨-, rfl⟩ |
    ⟨-, rfl⟩ | ⟨-, rfl⟩ | ⟨-, rfl⟩ | ⟨-, rfl⟩ | ⟨-, rfl⟩ | ⟨-, rfl⟩ <;> simp [Ends, openEnded]

theorem ends_double {c d : Char} {kind : TokenKind} (h : ((c, d), kind) ∈ doubleOperators)
    (next : Option Char) : Ends kind next := by
  simp only [doubleOperators, List.mem_cons, Prod.mk.injEq, List.not_mem_nil, or_false] at h
  rcases h with ⟨-, rfl⟩ | ⟨-, rfl⟩ | ⟨-, rfl⟩ | ⟨-, rfl⟩ <;> exact trivial

theorem mem_of_lookup {α β : Type} [BEq α] [LawfulBEq α] {l : List (α × β)} {a : α} {b : β}
    (h : l.lookup a = some b) : (a, b) ∈ l := by
  obtain ⟨front, back, hl, -⟩ := List.lookup_eq_some_iff.mp h
  rw [hl]
  exact List.mem_append_right _ (List.mem_cons_self ..)

theorem mem_operatorStarts_of_double {c d : Char} {kind : TokenKind}
    (h : ((c, d), kind) ∈ doubleOperators) : c ∈ operatorStarts := by
  have hall : ∀ entry ∈ doubleOperators, entry.1.1 ∈ operatorStarts := by decide
  exact hall _ h

theorem mem_operatorStarts_of_single {c : Char} {kind : TokenKind}
    (h : (c, kind) ∈ singleOperators) : c ∈ operatorStarts := by
  have hall : ∀ entry ∈ singleOperators, entry.1 ∈ operatorStarts := by decide
  exact hall _ h

/-- The kinds of operators and brackets. -/
def operatorKinds : List TokenKind :=
  doubleOperators.map Prod.snd ++ singleOperators.map Prod.snd

theorem mem_operatorKinds_of_double {c d : Char} {kind : TokenKind}
    (h : ((c, d), kind) ∈ doubleOperators) : kind ∈ operatorKinds :=
  List.mem_append_left _ (List.mem_map_of_mem h)

theorem mem_operatorKinds_of_single {c : Char} {kind : TokenKind}
    (h : (c, kind) ∈ singleOperators) : kind ∈ operatorKinds :=
  List.mem_append_right _ (List.mem_map_of_mem h)

theorem operator?_of_double {c d : Char} {kind : TokenKind}
    (h : ((c, d), kind) ∈ doubleOperators) (after : List Char) :
    operator? c (d :: after) = some ⟨kind, c, [d]⟩ := by
  simp only [doubleOperators, List.mem_cons, Prod.mk.injEq, List.not_mem_nil, or_false] at h
  rcases h with ⟨⟨rfl, rfl⟩, rfl⟩ | ⟨⟨rfl, rfl⟩, rfl⟩ | ⟨⟨rfl, rfl⟩, rfl⟩ | ⟨⟨rfl, rfl⟩, rfl⟩ <;> rfl

theorem operator?_of_single {c : Char} {kind : TokenKind} {after : List Char}
    (h : (c, kind) ∈ singleOperators) (ha : Ends kind after.head?) :
    operator? c after = some ⟨kind, c, []⟩ := by
  have hdouble : ∀ single ∈ singleOperators, ∀ double ∈ doubleOperators,
      double.1.1 = single.1 → single.2 ∈ openEnded ∧ double.1.2 = '=' := by decide
  have hsingle : ∀ single ∈ singleOperators, singleOperators.lookup single.1 = some single.2 := by
    decide
  have hnone : (after.head?.bind fun d => doubleOperators.lookup (c, d)) = none := by
    rw [Option.bind_eq_none_iff]
    intro d hd
    refine Option.eq_none_iff_forall_ne_some.mpr fun kind' hk => ?_
    obtain ⟨hopen, rfl⟩ := hdouble _ h _ (mem_of_lookup hk) rfl
    exact (ends_single h _).mp ha hopen hd
  rw [operator?, hnone, hsingle _ h]
  rfl

/-- What is read as an operator is one, and it is the longest. -/
theorem spells_of_operator? {c : Char} {rest : List Char} {l : Lexeme}
    (h : operator? c rest = some l) :
    Spells l.kind l.spelling ∧ l.first = c ∧ ∃ after, rest = l.more ++ after ∧
      Ends l.kind after.head? := by
  rw [operator?] at h
  split at h
  next kind hk =>
    obtain ⟨d, hd, hl⟩ := Option.bind_eq_some_iff.mp hk
    obtain ⟨after, rfl⟩ := List.head?_eq_some_iff.mp hd
    cases h
    exact ⟨.double (mem_of_lookup hl), rfl, after, rfl, ends_double (mem_of_lookup hl) _⟩
  next hk =>
    obtain ⟨kind, hl, he⟩ := Option.map_eq_some_iff.mp h
    have hm := mem_of_lookup hl
    subst he
    refine ⟨.single hm, rfl, rest, rfl, (ends_single hm _).mpr fun hopen hnext => ?_⟩
    have hlonger : ∀ single ∈ singleOperators, single.2 ∈ openEnded →
        (doubleOperators.lookup (single.1, '=')).isSome = true := by decide
    have hsome := hlonger _ hm hopen
    rw [hnext] at hk
    rw [show doubleOperators.lookup (c, '=') = none from hk] at hsome
    cases hsome

/-- White space ends every token. -/
theorem ends_of_gap {kind : TokenKind} {next : Option Char}
    (h : ∀ c ∈ next, Text.isGap c = true) : Ends kind next := by
  have hgap : ∀ c, Text.isGap c = true →
      Text.isDecimalDigit c = false ∧ Text.isWord c = false ∧ c ≠ '.' ∧ c ≠ '=' := by
    intro c hc
    simp only [Text.isGap, Bool.or_eq_true, beq_iff_eq] at hc
    rcases hc with (((rfl | rfl) | rfl) | rfl) | rfl <;> decide +kernel
  have hequal : next ≠ some '=' := by
    rintro rfl
    exact (hgap '=' (h '=' rfl)).2.2.2 rfl
  cases kind
  case number => exact fun c hc => ⟨(hgap c (h c hc)).1, (hgap c (h c hc)).2.2.1⟩
  case identifier | trueKeyword | falseKeyword | functionKeyword | ifKeyword | elseKeyword
      | returnKeyword => exact fun c hc => (hgap c (h c hc)).2.1
  case assign | bang | greater | less => exact hequal
  all_goals exact trivial

/-! ## Reading and spelling -/

/-- A number is spelled by a plain numeral. -/
theorem Spells.plain {text : List Char} (h : Spells .number text) : Numeral.Plain text := by
  generalize hk : TokenKind.number = kind at h
  cases h with
  | numeral hp => exact hp
  | string => cases hk
  | @name c more hc hmore =>
    have hm := nameKind_mem (c :: more)
    rw [← hk] at hm
    exact absurd hm (by decide)
  | double hm => exact absurd (hk ▸ mem_operatorKinds_of_double hm) (by decide)
  | single hm => exact absurd (hk ▸ mem_operatorKinds_of_single hm) (by decide)

/-- What is spelled begins with a digit, a letter, a quote or an operator. -/
theorem start_of_spells {kind : TokenKind} {c : Char} {more : List Char}
    (h : Spells kind (c :: more)) : Text.isDecimalDigit c = true ∨ Text.isNameStart c = true ∨
      (c = '\x27' ∨ c = '"') ∨ c ∈ operatorStarts := by
  generalize htext : c :: more = text at h
  cases h with
  | numeral hp =>
    subst htext
    exact Or.inl (hp.head? c rfl)
  | name hc =>
    obtain ⟨rfl, rfl⟩ := List.cons.inj htext
    exact Or.inr (Or.inl hc)
  | string hq =>
    obtain ⟨rfl, rfl⟩ := List.cons.inj htext
    exact Or.inr (Or.inr (Or.inl hq))
  | double hm =>
    obtain ⟨rfl, rfl⟩ := List.cons.inj htext
    exact Or.inr (Or.inr (Or.inr (mem_operatorStarts_of_double hm)))
  | single hm =>
    obtain ⟨rfl, rfl⟩ := List.cons.inj htext
    exact Or.inr (Or.inr (Or.inr (mem_operatorStarts_of_single hm)))

/-- Nothing is spelled with any other first character. -/
theorem not_spells {kind : TokenKind} {c : Char} {more : List Char}
    (hc : Text.isDecimalDigit c = false ∧ Text.isNameStart c = false ∧
      ¬ (c = '\x27' ∨ c = '"') ∧ c ∉ operatorStarts) : ¬ Spells kind (c :: more) := by
  intro h
  obtain ⟨hdigit, hname, hquote, hoperator⟩ := hc
  rcases start_of_spells h with hd | hn | hq | ho
  · rw [hd] at hdigit
    cases hdigit
  · rw [hn] at hname
    cases hname
  · exact hquote hq
  · exact hoperator ho

/-- Nothing that is spelled goes over the end of a line. -/
theorem newline_not_mem_of_spells {kind : TokenKind} {text : List Char} (h : Spells kind text) :
    '\n' ∉ text := by
  have hdigit : Text.isDecimalDigit '\n' = false := by decide +kernel
  have hword : Text.isWord '\n' = false := by decide +kernel
  have hdigits : ∀ {text : List Char}, Numeral.AllDigits text → '\n' ∉ text := by
    intro text ht hm
    rw [ht.2 _ hm] at hdigit
    cases hdigit
  intro hm
  cases h with
  | numeral hp =>
    cases hp with
    | whole hw => exact hdigits hw hm
    | fraction hw hf =>
      rcases List.mem_append.mp hm with hm | hm
      · exact hdigits hw hm
      · rcases List.mem_cons.mp hm with he | hm
        · exact absurd he (by decide)
        · exact hdigits hf hm
  | name hc hmore =>
    rcases List.mem_cons.mp hm with rfl | hm
    · exact absurd hc (by decide +kernel)
    · rw [hmore _ hm] at hword
      cases hword
  | string hq _ hnewline =>
    rcases List.mem_cons.mp hm with rfl | hm
    · exact absurd hq (by decide)
    · rcases List.mem_append.mp hm with hm | hm
      · exact hnewline hm
      · obtain rfl := List.mem_singleton.mp hm
        exact absurd hq (by decide)
  | double he =>
    have hall : ∀ entry ∈ doubleOperators, '\n' ∉ [entry.1.1, entry.1.2] := by decide
    exact hall _ he hm
  | single he =>
    have hall : ∀ entry ∈ singleOperators, '\n' ∉ [entry.1] := by decide
    exact hall _ he hm

/-- Nothing spells the end of input. -/
theorem kind_ne_endOfInput {kind : TokenKind} {text : List Char} (h : Spells kind text) :
    kind ≠ .endOfInput := by
  cases h with
  | numeral | string => decide
  | @name c more => exact ne_of_mem_of_not_mem (nameKind_mem (c :: more)) (by decide)
  | double hm => exact ne_of_mem_of_not_mem (mem_operatorKinds_of_double hm) (by decide)
  | single hm => exact ne_of_mem_of_not_mem (mem_operatorKinds_of_single hm) (by decide)

/-- **A spelling is read back**, if what follows it ends it. -/
theorem read?_of_spells {kind : TokenKind} {c : Char} {more after : List Char}
    (h : Spells kind (c :: more)) (ha : Ends kind after.head?) :
    read? c (more ++ after) = some ⟨kind, c, more⟩ := by
  have hoperator : c ∈ operatorStarts → read? c (more ++ after) = operator? c (more ++ after) := by
    intro hc
    obtain ⟨hd, hn, hq⟩ := plain_of_operatorStart hc
    rw [read?, if_neg (by rw [hd]; decide), if_neg (by rw [hn]; decide), if_neg hq]
  generalize htext : c :: more = text at h
  cases h with
  | numeral hp =>
    subst htext
    have hc : Text.isDecimalDigit c = true := hp.head? c rfl
    rw [read?, if_pos hc, numeralTail_of_plain hp ha]
  | @name c more hc hmore =>
    obtain ⟨rfl, rfl⟩ := List.cons.inj htext
    have hstop := (ends_name (nameKind_mem _) _).mp ha
    rw [read?, if_neg (by rw [isDecimalDigit_of_isNameStart hc]; decide), if_pos hc,
      (takeWhile_append_stop hmore hstop).1]
  | @string quote content hq hquote hnewline =>
    obtain ⟨rfl, rfl⟩ := List.cons.inj htext
    obtain ⟨hd, hn⟩ := plain_of_quote hq
    rw [read?, if_neg (by rw [hd]; decide), if_neg (by rw [hn]; decide), if_pos hq,
      stringTail?_of_content hquote hnewline]
    rfl
  | double hm =>
    obtain ⟨rfl, rfl⟩ := List.cons.inj htext
    rw [hoperator (mem_operatorStarts_of_double hm)]
    exact operator?_of_double hm after
  | single hm =>
    obtain ⟨rfl, rfl⟩ := List.cons.inj htext
    rw [hoperator (mem_operatorStarts_of_single hm)]
    exact operator?_of_single hm ha

/-- **What is read is a spelling**, and what follows ends it, unless that is a point. -/
theorem spells_of_read? {c : Char} {rest : List Char} {l : Lexeme} (h : read? c rest = some l) :
    Spells l.kind l.spelling ∧ l.first = c ∧ ∃ after, rest = l.more ++ after ∧
      (after.head? ≠ some '.' → Ends l.kind after.head?) := by
  rw [read?] at h
  split at h
  next hc =>
    cases h
    obtain ⟨hp, after, hsplit, hstop⟩ := plain_numeralTail hc
    refine ⟨.numeral hp, rfl, after, hsplit, fun hpoint d hd => ⟨hstop d hd, ?_⟩⟩
    rintro rfl
    exact hpoint hd
  next =>
    split at h
    next hc =>
      cases h
      refine ⟨.name hc fun d hd => mem_takeWhile hd, rfl, rest.dropWhile Text.isWord, ?_, fun _ => ?_⟩
      · exact List.takeWhile_append_dropWhile.symm
      · exact (ends_name (nameKind_mem _) _).mpr head?_dropWhile
    next =>
      split at h
      next hq =>
        obtain ⟨more, hm, he⟩ := Option.map_eq_some_iff.mp h
        subst he
        obtain ⟨content, after, rfl, hsplit, hquote, hnewline⟩ := content_of_stringTail? hm
        exact ⟨.string hq hquote hnewline, rfl, after, hsplit, fun _ => trivial⟩
      next =>
        obtain ⟨hs, hf, after, hsplit, hends⟩ := spells_of_operator? h
        exact ⟨hs, hf, after, hsplit, fun _ => hends⟩

end Lexeme
end HangulScript
