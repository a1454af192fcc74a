import HangulScript.Proofs.Grammar.Sources
import HangulScript.Proofs.Reading.Positions
import HangulScript.Proofs.Scanning.Segments

/-!
# Two programs, one below the other

The text of a program, a newline and the text of another program are the text of a program
again.  Its statements are those of the first and then those of the second, further down by as
many rows as the first text and the newline take.

A newline ends whatever token stands before it, so the joined text is scanned to the tokens of
both (`Scans.join`), and a token that begins a row knows nothing of the rows above it but how
many they are (`Scans.down`).

Statements are not separated by anything.  The second program may begin with a token that the
last expression of the first one takes, and then two statements become one.  That is excluded
here, and it is the only thing that can go wrong at the seam: the first program must be empty,
or end with a branch, or else the second must not begin with a parenthesis or a sign
(`Derives.append`).
-/

namespace HangulScript

/-- The position a number of rows further down. -/
def Position.down (rows : Nat) (p : Position) : Position := ⟨p.row + rows, p.column⟩

/-- How many rows further down a text begins that is put on a new row below another. -/
def Source.rowsOf (text : List Char) : Nat := text.count '\n' + 1

namespace Position

theorem down_next (rows : Nat) (p : Position) (c : Char) :
    (p.next c).down rows = (p.down rows).next c := by
  unfold next
  split
  · simp only [down, Position.mk.injEq, and_true]
    omega
  · rfl

theorem down_after (rows : Nat) (p : Position) (text : List Char) :
    (p.after text).down rows = (p.down rows).after text := by
  induction text generalizing p with
  | nil => rfl
  | cons c text ih => rw [after_cons, after_cons, ih, down_next]

theorem row_after (p : Position) (text : List Char) :
    (p.after text).row = p.row + text.count '\n' := by
  induction text generalizing p with
  | nil => simp
  | cons c text ih =>
    rw [after_cons, ih, List.count_cons, next]
    by_cases h : c = '\n'
    · simp only [h, if_true, beq_self_eq_true]
      omega
    · simp [h]

/-- The first position of the row below a text. -/
theorem next_after_newline (text : List Char) :
    (origin.after text).next '\n' = origin.down (Source.rowsOf text) := by
  simp only [next, if_true, down, row_after, origin, Source.rowsOf, Position.mk.injEq, and_true]
  omega

end Position

/-! ## Tokens -/

namespace TokenStream

/-- A token further down. -/
abbrev tokenDown (rows : Nat) : Token → Token := Token.mapRange (Range.mapEnds (Position.down rows))

/-- **Further down.**  A text that begins further down is scanned to the same tokens, further
down. -/
theorem Scans.down {p : Position} {text : List Char} {tokens : List Token}
    (h : Scans p text tokens) (rows : Nat) :
    Scans (p.down rows) text (tokens.map (tokenDown rows)) := by
  induction h with
  | finish => exact .finish
  | gap hc _ ih => exact .gap hc (Position.down_next rows _ _ ▸ ih)
  | spelling hs he _ ih => exact .spelling hs he (Position.down_after rows _ _ ▸ ih)

/-- **One below the other.**  A text, a newline and a further text are scanned to the tokens of
the first, without its end, and then those of the second. -/
theorem Scans.join {p : Position} {text : List Char} {tokens : List Token}
    (h : Scans p text tokens) {text' : List Char} {tokens' : List Token}
    (h' : Scans ((p.after text).next '\n') text' tokens') :
    ∃ body final, tokens = body ++ [final] ∧ Scans p (text ++ '\n' :: text') (body ++ tokens') := by
  induction h with
  | finish => exact ⟨[], _, rfl, .gap (by decide) h'⟩
  | gap hc _ ih =>
    obtain ⟨body, final, rfl, hjoin⟩ := ih h'
    exact ⟨body, final, rfl, .gap hc hjoin⟩
  | @spelling p kind c more text tokens hs he _ ih =>
    rw [Position.after_append] at h'
    obtain ⟨body, final, rfl, hjoin⟩ := ih h'
    refine ⟨_ :: body, final, rfl, ?_⟩
    rw [List.append_assoc]
    refine .spelling hs ?_ hjoin
    cases text with
    | nil => exact Lexeme.ends_of_gap (by intro d hd; cases hd; decide)
    | cons d text => exact he

/-- The tokens of a source without a fault. -/
theorem scans_of_fault {source : String} (h : (scan source).fault = none) :
    Scans Position.origin source.toList (scan source).tokens := by
  refine scans_of_scanFrom ?_
  rw [← h]
  rfl

/-- Two sources without a fault, one below the other. -/
theorem scan_join {a b : String} (ha : (scan a).fault = none) (hb : (scan b).fault = none) :
    ∃ body final, (scan a).tokens = body ++ [final] ∧
      scan (a ++ "\n" ++ b) =
        ⟨body ++ (scan b).tokens.map (tokenDown (Source.rowsOf a.toList)), none⟩ := by
  have hdown := (scans_of_fault hb).down (Source.rowsOf a.toList)
  rw [← Position.next_after_newline] at hdown
  obtain ⟨body, final, htokens, hjoin⟩ := (scans_of_fault ha).join hdown
  refine ⟨body, final, htokens, ?_⟩
  have htext : (a ++ "\n" ++ b).toList = a.toList ++ '\n' :: b.toList := by simp
  rw [scan, htext]
  exact scanFrom_of_scans hjoin

end TokenStream

namespace Grammar

/-! ## Statements -/

/-- Statements are not derived from nothing. -/
theorem Derives.eq_nil {depth : Nat} {trees : List Node} {ts : List Token}
    (h : Derives depth (.statements trees) ts) (hts : ts = []) : trees = [] := by
  cases h with
  | noStatements => rfl
  | statements hfirst _ _ =>
    obtain ⟨t, rest, rfl, -⟩ := hfirst.beginsWell
    cases hts

/-- **At the seam.**  Statements and further statements are statements, unless the last of the
first ends in an expression that the further ones would be taken into. -/
theorem Derives.append {depth : Nat} {trees trees' : List Node} {ts us : List Token}
    (h : Derives depth (.statements trees) ts) (h' : Derives depth (.statements trees') us)
    (hseam : ∀ last ∈ trees.getLast?, endsInExpression last = true →
      ∀ t ∈ us.head?, t.kind ∉ joiners) :
    Derives depth (.statements (trees ++ trees')) (ts ++ us) := by
  induction trees generalizing ts with
  | nil =>
    cases h
    exact h'
  | cons first others ih =>
    cases h with
    | @statements _ _ _ ts vs hfirst hothers hjoiners =>
      rw [List.append_assoc]
      refine .statements hfirst (ih hothers ?_) ?_
      · intro last hlast
        refine hseam last ?_
        cases others with
        | nil => cases hlast
        | cons second others => exact hlast
      · cases vs with
        | nil =>
          obtain rfl := hothers.eq_nil rfl
          exact fun he => hseam first rfl he
        | cons v vs => exact hjoiners

/-- What a program is derived from: its statements and an end of input. -/
theorem derives_program_iff {depth : Nat} {r : Range} {inner : List Node} {ts : List Token} :
    Derives depth (.program (.program r inner)) ts ↔
      ∃ body final, ts = body ++ [final] ∧ final.kind = .endOfInput ∧
        Derives depth (.statements inner) body ∧ r = programRange final inner := by
  constructor
  · intro h
    cases h with
    | program hs hk => exact ⟨_, _, rfl, hk, hs, rfl⟩
  · rintro ⟨body, final, rfl, hk, hs, rfl⟩
    exact .program hs hk

/-! ## Programs -/

/-- The statements of a source are derived further down from its tokens further down. -/
theorem derives_down {limit : Nat} {source : String} {r : Range} {inner : List Node}
    (h : program limit (TokenStream.scan source) = .ok (.program r inner)) (rows : Nat) :
    ∃ body final, (TokenStream.scan source).tokens.map (TokenStream.tokenDown rows) =
        body ++ [final] ∧ final.kind = .endOfInput ∧
      Derives limit (.statements (Node.mapRangesAll (Range.mapEnds (Position.down rows)) inner))
        body := by
  obtain ⟨hfault, hderives⟩ := (program_scan_eq_ok_iff _ _ _).mp h
  have hne : (TokenStream.scan source).tokens ≠ [] := by
    obtain ⟨body, final, htokens, -⟩ := derives_program_iff.mp hderives
    rw [htokens]
    exact List.append_ne_nil_of_right_ne_nil _ (List.cons_ne_nil _ _)
  have hscan : TokenStream.scanFrom (Position.origin.down rows) source.toList =
      ⟨(TokenStream.scan source).tokens.map (TokenStream.tokenDown rows), none⟩ :=
    TokenStream.scanFrom_of_scans ((TokenStream.scans_of_fault hfault).down rows)
  have hcomplete : TokenStream.complete
      ((TokenStream.scan source).tokens.map (TokenStream.tokenDown rows)) =
        (TokenStream.scan source).tokens.map (TokenStream.tokenDown rows) := by
    have hended := TokenStream.ended_scanFrom (Position.origin.down rows) source.toList
      Position.origin (by rw [hscan])
    rwa [hscan] at hended
  have hdown := program_mapPositions (Position.down rows) limit _ (Or.inl hne)
  rw [h, TokenStream.mapPositions, hfault] at hdown
  have hread := (program_eq_ok_iff _ _ _).mp hdown
  rw [hcomplete] at hread
  obtain ⟨body, final, htokens, hk, hstatements, -⟩ := derives_program_iff.mp hread
  exact ⟨body, final, htokens, hk, hstatements⟩

/-- **Two programs, one below the other.**  If the seam is sound, a source that holds a program,
a newline and a second source that holds one hold the program with the statements of both, those
of the second further down by the rows of the first. -/
theorem program_join {limit : Nat} {a b : String} {r r' : Range} {inner inner' : List Node}
    (ha : program limit (TokenStream.scan a) = .ok (.program r inner))
    (hb : program limit (TokenStream.scan b) = .ok (.program r' inner'))
    (hseam : ∀ last ∈ inner.getLast?, endsInExpression last = true →
      ∀ t ∈ (TokenStream.scan b).tokens.head?, t.kind ∉ joiners) :
    ∃ r'', program limit (TokenStream.scan (a ++ "\n" ++ b)) = .ok (.program r'' (inner ++
      Node.mapRangesAll (Range.mapEnds (Position.down (Source.rowsOf a.toList))) inner')) := by
  obtain ⟨hfault, hderives⟩ := (program_scan_eq_ok_iff _ _ _).mp ha
  obtain ⟨hfault', -⟩ := (program_scan_eq_ok_iff _ _ _).mp hb
  obtain ⟨body, final, htokens, hjoin⟩ := TokenStream.scan_join hfault hfault'
  obtain ⟨body₁, final₁, htokens₁, -, hstatements, -⟩ := derives_program_iff.mp hderives
  obtain ⟨body', final', htokens', hk', hstatements'⟩ :=
    derives_down hb (Source.rowsOf a.toList)
  obtain ⟨rfl, -⟩ := List.append_inj' (htokens.symm.trans htokens₁) rfl
  refine ⟨programRange final' (inner ++
      Node.mapRangesAll (Range.mapEnds (Position.down (Source.rowsOf a.toList))) inner'),
    (program_scan_eq_ok_iff _ _ _).mpr ⟨by rw [hjoin], ?_⟩⟩
  rw [hjoin, htokens', ← List.append_assoc]
  refine .program (hstatements.append hstatements' fun last hlast he t ht => ?_) hk'
  -- The first token of the statements is the first token of the source, further down.
  have hhead : ((TokenStream.scan b).tokens.map
      (TokenStream.tokenDown (Source.rowsOf a.toList))).head? = some t := by
    rw [htokens', List.head?_append, Option.mem_def.mp ht]
    rfl
  rw [List.head?_map] at hhead
  obtain ⟨u, hu, rfl⟩ := Option.map_eq_some_iff.mp hhead
  exact hseam last hlast he u hu

end Grammar
end HangulScript
