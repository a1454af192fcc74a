import HangulScript.Proofs.Scanning.Stream
import HangulScript.Proofs.Source.Windows

/-!
# Segments of a scanned text

`Scans p text tokens` says how a text without a fault is made of gaps and spellings.  It is
the scanner once more, but with the text taken apart, so that one can go along it with an
induction and cut it where one likes.

A text can be cut in front of any of its tokens (`Scans.exists_front`).  It can also be cut
behind any of them, if only gaps follow the cut: a gap ends every token
(`Scans.exists_back`).  So what a window from one token to another shows is scanned to just
the tokens between them (`Scans.window`).
-/

namespace HangulScript

namespace TokenStream

/-- How a text that begins at a position is made of gaps and spellings, and its tokens. -/
inductive Scans : Position → List Char → List Token → Prop
  | finish {p : Position} : Scans p [] [Token.endAt p]
  | gap {p : Position} {c : Char} {text : List Char} {tokens : List Token} :
      Text.isGap c = true → Scans (p.next c) text tokens → Scans p (c :: text) tokens
  | spelling {p : Position} {kind : TokenKind} {c : Char} {more text : List Char}
      {tokens : List Token} : Lexeme.Spells kind (c :: more) → Lexeme.Ends kind text.head? →
      Scans (p.after (c :: more)) text tokens →
      Scans p (c :: more ++ text) (tokenAt p ⟨kind, c, more⟩ :: tokens)

theorem after_of_spells {kind : TokenKind} {text : List Char} (h : Lexeme.Spells kind text)
    (p : Position) : p.after text = p.right text.length :=
  Position.after_of_newline_not_mem (Lexeme.newline_not_mem_of_spells h) p

theorem scanFrom_of_scans {p : Position} {text : List Char} {tokens : List Token}
    (h : Scans p text tokens) : scanFrom p text = ⟨tokens, none⟩ := by
  induction h with
  | finish => rw [scanFrom]
  | gap hc _ ih => rw [scanFrom, if_pos hc, ih]
  | spelling hs he _ ih =>
    rw [scanFrom_spelling hs he, ← after_of_spells hs, ih]
    rfl

/-- A point begins no token. -/
theorem head?_ne_point {p : Position} {text : List Char} {tokens : List Token}
    (h : scanFrom p text = ⟨tokens, none⟩) : text.head? ≠ some '.' := by
  intro hpoint
  cases text with
  | nil => cases hpoint
  | cons c rest =>
    obtain rfl : c = '.' := Option.some.inj hpoint
    have hgap : Text.isGap '.' = false := by decide
    rw [scanFrom, hgap, if_neg (by decide)] at h
    cases hr : Lexeme.read? '.' rest with
    | none =>
      rw [hr] at h
      cases h
    | some l =>
      obtain ⟨hs, hfirst, -⟩ := Lexeme.spells_of_read? hr
      rw [Lexeme.spelling, hfirst] at hs
      exact Lexeme.not_spells (by decide +kernel) hs

theorem scans_of_scanFrom {p : Position} {text : List Char} {tokens : List Token}
    (h : scanFrom p text = ⟨tokens, none⟩) : Scans p text tokens := by
  fun_induction scanFrom p text generalizing tokens with
  | case1 p =>
    cases h
    exact .finish
  | case2 p c rest hc ih => exact .gap hc (ih h)
  | case3 p c rest => cases h
  | case4 p c rest _ l hl ih =>
    obtain ⟨hs, rfl, after, rfl, hends⟩ := Lexeme.spells_of_read? hl
    rw [List.drop_left] at h ih
    obtain ⟨htokens, hfault⟩ := TokenStream.mk.inj h
    have hrest : scanFrom (p.right l.spelling.length) after =
        ⟨(scanFrom (p.right l.spelling.length) after).tokens, none⟩ := by
      rw [← hfault]
    rw [← htokens]
    have hplace : p.right l.spelling.length = p.after l.spelling := (after_of_spells hs p).symm
    have hback := ih hrest
    generalize (scanFrom (p.right l.spelling.length) after).tokens = tokens' at hback ⊢
    rw [hplace] at hback
    exact .spelling hs (hends (head?_ne_point hrest)) hback

theorem scans_iff {p : Position} {text : List Char} {tokens : List Token} :
    Scans p text tokens ↔ scanFrom p text = ⟨tokens, none⟩ :=
  ⟨scanFrom_of_scans, scans_of_scanFrom⟩

/-! ## Cutting -/

/-- Gaps in front of a text. -/
theorem Scans.behind_gap {p : Position} {gap text : List Char} {tokens : List Token}
    (hgap : ∀ c ∈ gap, Text.isGap c = true) (h : Scans (p.after gap) text tokens) :
    Scans p (gap ++ text) tokens := by
  induction gap generalizing p with
  | nil => exact h
  | cons c gap ih =>
    refine .gap (hgap c (List.mem_cons_self ..)) (ih ?_ h)
    exact fun d hd => hgap d (List.mem_cons_of_mem c hd)

/-- Nothing but gaps. -/
theorem scans_gap {gap : List Char} (hgap : ∀ c ∈ gap, Text.isGap c = true) (p : Position) :
    Scans p gap [Token.endAt (p.after gap)] := by
  have h := Scans.behind_gap hgap (Scans.finish (p := p.after gap))
  rwa [List.append_nil] at h

/-- A text is cut in front of a token. -/
theorem Scans.exists_front {p : Position} {text : List Char} {before behind : List Token}
    {t : Token} (h : Scans p text (before ++ t :: behind)) (hb : behind ≠ []) :
    ∃ front back, text = front ++ back ∧ p.after front = t.range.first ∧
      Scans (p.after front) back (t :: behind) := by
  generalize htokens : before ++ t :: behind = tokens at h
  induction h generalizing before with
  | finish =>
    cases before with
    | nil =>
      obtain ⟨-, rfl⟩ := List.cons.inj htokens
      exact absurd rfl hb
    | cons u before => cases before <;> cases htokens
  | @gap p c text tokens hc _ ih =>
    obtain ⟨front, back, rfl, hfirst, hback⟩ := ih htokens
    exact ⟨c :: front, back, rfl, hfirst, hback⟩
  | @spelling p kind c more text tokens hs he hrest ih =>
    cases before with
    | nil =>
      obtain ⟨rfl, rfl⟩ := List.cons.inj htokens
      exact ⟨[], c :: more ++ text, rfl, rfl, .spelling hs he hrest⟩
    | cons u before =>
      obtain ⟨-, htokens⟩ := List.cons.inj htokens
      obtain ⟨front, back, rfl, hfirst, hback⟩ := ih htokens
      rw [← Position.after_append] at hfirst hback
      exact ⟨c :: more ++ front, back, (List.append_assoc ..).symm, hfirst, hback⟩

/-- What is spelled has a last character, and its place is where the token ends. -/
theorem exists_last_of_spells {kind : TokenKind} {d : Char} {more : List Char}
    (h : Lexeme.Spells kind (d :: more)) (p : Position) :
    ∃ front c, d :: more = front ++ [c] ∧
      p.after front = (tokenAt p ⟨kind, d, more⟩).range.last := by
  have hsplit := List.dropLast_concat_getLast (List.cons_ne_nil d more)
  refine ⟨_, _, hsplit.symm, ?_⟩
  have hnewline : '\n' ∉ (d :: more).dropLast := fun hm =>
    Lexeme.newline_not_mem_of_spells h (List.dropLast_subset _ hm)
  rw [Position.after_of_newline_not_mem hnewline, List.length_dropLast]
  rfl

/-- A text is cut behind a token, and gaps are put in place of what followed. -/
theorem Scans.exists_back {p : Position} {text : List Char} {before behind : List Token}
    {t : Token} (h : Scans p text (before ++ t :: behind)) (hb : behind ≠ []) :
    ∃ front c back, text = front ++ c :: back ∧ p.after front = t.range.last ∧
      ∀ gap, (∀ d ∈ gap, Text.isGap d = true) →
        ∃ final, final.kind = .endOfInput ∧ Scans p (front ++ c :: gap) (before ++ [t, final]) := by
  generalize htokens : before ++ t :: behind = tokens at h
  induction h generalizing before with
  | finish =>
    cases before with
    | nil =>
      obtain ⟨-, rfl⟩ := List.cons.inj htokens
      exact absurd rfl hb
    | cons u before => cases before <;> cases htokens
  | @gap p d text tokens hd _ ih =>
    obtain ⟨front, c, back, rfl, hlast, hcut⟩ := ih htokens
    refine ⟨d :: front, c, back, rfl, hlast, fun gap hgap => ?_⟩
    obtain ⟨final, hfinal, hscans⟩ := hcut gap hgap
    exact ⟨final, hfinal, .gap hd hscans⟩
  | @spelling p kind d more text tokens hs he hrest ih =>
    cases before with
    | nil =>
      obtain ⟨rfl, rfl⟩ := List.cons.inj htokens
      obtain ⟨front, c, hsplit, hlast⟩ := exists_last_of_spells hs p
      refine ⟨front, c, text, ?_, hlast, fun gap hgap => ?_⟩
      · rw [hsplit, List.append_assoc]
        rfl
      · refine ⟨Token.endAt ((p.after (d :: more)).after gap), rfl, ?_⟩
        have hends : Lexeme.Ends kind gap.head? :=
          Lexeme.ends_of_gap fun c hc => hgap c (List.mem_of_head? hc)
        have hscans := Scans.spelling hs hends (scans_gap hgap (p.after (d :: more)))
        rwa [hsplit, List.append_assoc, ← hsplit] at hscans
    | cons u before =>
      obtain ⟨rfl, hmore⟩ := List.cons.inj htokens
      obtain ⟨front, c, back, rfl, hlast, hcut⟩ := ih hmore
      rw [← Position.after_append] at hlast
      refine ⟨d :: more ++ front, c, back, (List.append_assoc ..).symm, hlast, fun gap hgap => ?_⟩
      obtain ⟨final, hfinal, hscans⟩ := hcut gap hgap
      have hhead : (front ++ c :: gap).head? = (front ++ c :: back).head? := by
        cases front <;> rfl
      rw [List.append_assoc]
      exact ⟨final, hfinal, .spelling hs (hhead ▸ he) hscans⟩

/-- **A window shows its tokens.** -/
theorem Scans.window {p : Position} {text : List Char} {before tokens behind : List Token}
    {t u : Token} (h : Scans p text (before ++ (tokens ++ behind))) (hb : behind ≠ [])
    (hfirst : tokens.head? = some t) (hlast : tokens.getLast? = some u) :
    ∃ final, final.kind = .endOfInput ∧
      Scans p (Source.windowFrom (t.range.span u.range) p text) (tokens ++ [final]) := by
  obtain ⟨others, rfl⟩ := List.head?_eq_some_iff.mp hfirst
  obtain ⟨init, hinit⟩ := List.getLast?_eq_some_iff.mp hlast
  have hothers : others ++ behind ≠ [] := fun he => hb (List.append_eq_nil_iff.mp he).2
  obtain ⟨front, back, rfl, hplace, hback⟩ := Scans.exists_front h hothers
  have htokens : t :: (others ++ behind) = init ++ u :: behind := by
    rw [← List.cons_append, hinit, List.append_assoc]
    rfl
  have hback' : Scans (p.after front) back (init ++ u :: behind) := by
    rw [← htokens]
    exact hback
  obtain ⟨middle, c, rest, rfl, hend, hcut⟩ := Scans.exists_back hback' hb
  obtain ⟨final, hfinal, hscans⟩ := hcut (rest.map Source.blanked) Source.isGap_of_mem_map_blanked
  refine ⟨final, hfinal, ?_⟩
  rw [Source.windowFrom_split (r := t.range.span u.range) c rest hplace (hplace ▸ hend)]
  refine Scans.behind_gap Source.isGap_of_mem_map_blanked ?_
  rw [Source.after_map_blanked, hinit, List.append_assoc]
  exact hscans

end TokenStream
end HangulScript
