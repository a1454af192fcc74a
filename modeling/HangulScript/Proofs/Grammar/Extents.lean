import HangulScript.Proofs.Grammar.Faults
import HangulScript.Proofs.Grammar.Parts
import HangulScript.Proofs.Source.Lines

/-!
# Where ranges lie

Every token stands on a line of its source, and so what goes from one token to another begins and
ends at characters of the source (`Tile.Laid.liesIn`).  This is all that is needed of the
scanner; the rest is which tokens a range goes between.

* An expression or a statement of a program covers the tokens that it is derived from, and so
  does the body of a function.
* A program covers its statements.  Only a program without any is ranged elsewhere, at the end of
  the source.
* An error that is found while reading is at a token, at the character that begins none, or at
  the end of the source.
-/

namespace HangulScript

/-! ## Stretches of tiles -/

namespace Tile

/-- Every tile fits between those before and those behind it. -/
theorem Laid.fits {before : List Char} {xs ys : List Tile} {t : Tile} {behind : List Char}
    (h : Laid before (xs ++ t :: ys) behind) :
    t.Fits (before ++ xs.flatMap written) (ys.flatMap written ++ behind) := by
  induction xs generalizing before with
  | nil => simpa using h.1
  | cons x xs ih =>
    rw [List.flatMap_cons, ← List.append_assoc]
    exact ih h.2

variable {before behind : List Char} {t : Tile}

theorem Fits.slice_ne_nil (h : t.Fits before behind) : t.slice ≠ [] := by
  obtain ⟨kind, hs⟩ := h.longest.terminal.exists_spells
  obtain ⟨c, more, he⟩ := exists_cons_of_spells hs
  rw [he]
  exact List.cons_ne_nil c more

theorem Fits.newline_not_mem (h : t.Fits before behind) : '\n' ∉ t.slice := by
  obtain ⟨kind, hs⟩ := h.longest.terminal.exists_spells
  exact Lexeme.newline_not_mem_of_spells hs

/-- A token begins at a character. -/
theorem Fits.holds_first (h : t.Fits before behind) :
    Source.Holds (before ++ (t.written ++ behind)) t.token.range.first := by
  obtain ⟨c, more, he⟩ := List.exists_cons_of_ne_nil h.slice_ne_nil
  refine ⟨before ++ t.gap, c, more ++ behind, by simp [written, he], ?_, h.first⟩
  rintro rfl
  exact h.newline_not_mem (by simp [he])

/-- A token ends at a character. -/
theorem Fits.holds_last (h : t.Fits before behind) :
    Source.Holds (before ++ (t.written ++ behind)) t.token.range.last := by
  have he := List.dropLast_concat_getLast h.slice_ne_nil
  refine ⟨before ++ t.gap ++ t.slice.dropLast, t.slice.getLast h.slice_ne_nil, behind, ?_, ?_,
    h.last⟩
  · rw [written]
    nth_rewrite 1 [← he]
    simp
  · intro hc
    exact h.newline_not_mem (hc ▸ List.getLast_mem h.slice_ne_nil)

/-- **What goes from one token to another lies in the text.** -/
theorem Laid.liesIn {tiles : List Tile} (h : Laid before tiles behind) {us : List Token}
    {r : Range} (hus : us <:+: tiles.map Tile.token) (hr : Grammar.Covers r us) :
    r.LiesIn (before ++ (tiles.flatMap written ++ behind)) := by
  obtain ⟨as, bs, hsplit⟩ := hus
  obtain ⟨front, ys, rfl, hfront, -⟩ := List.map_eq_append_iff.mp hsplit.symm
  obtain ⟨xs, middle, rfl, -, rfl⟩ := List.map_eq_append_iff.mp hfront
  obtain ⟨⟨t, ht, hfirst⟩, ⟨u, hu, hlast⟩⟩ := hr
  rw [List.head?_map, Option.map_eq_some_iff] at ht
  rw [List.getLast?_map, Option.map_eq_some_iff] at hu
  obtain ⟨t, ht, rfl⟩ := ht
  obtain ⟨u, hu, rfl⟩ := hu
  obtain ⟨more, hmore⟩ := List.head?_eq_some_iff.mp ht
  obtain ⟨init, hinit⟩ := List.getLast?_eq_some_iff.mp hu
  have htfits : t.Fits (before ++ xs.flatMap written)
      ((more ++ ys).flatMap written ++ behind) := by
    refine Laid.fits ?_
    rwa [hmore, List.append_assoc] at h
  have hufits : u.Fits (before ++ (xs ++ init).flatMap written)
      (ys.flatMap written ++ behind) := by
    refine Laid.fits ?_
    rwa [hinit, ← List.append_assoc, List.append_assoc _ [u]] at h
  -- what is between is covered by the tiles from the first to the last
  have hall : before ++ ((xs ++ middle ++ ys).flatMap written ++ behind) =
      before ++ xs.flatMap written ++ (t.written ++ ((more ++ ys).flatMap written ++ behind)) := by
    rw [hmore]
    simp
  have hall' : before ++ ((xs ++ middle ++ ys).flatMap written ++ behind) =
      before ++ (xs ++ init).flatMap written ++ (u.written ++ (ys.flatMap written ++ behind)) := by
    rw [hinit]
    simp
  refine ⟨?_, ?_, ?_⟩
  · rw [← hfirst, hall]
    exact htfits.holds_first
  · rw [← hlast, hall']
    exact hufits.holds_last
  · rw [← hfirst, ← hlast, htfits.first, hufits.last]
    refine Source.notAfter_place_of_prefix ?_
    rw [hmore] at hinit
    cases init with
    | nil =>
      obtain ⟨rfl, -⟩ := List.cons.inj hinit
      simp only [List.append_nil]
      exact List.prefix_append ..
    | cons first rest =>
      obtain ⟨rfl, -⟩ := List.cons.inj hinit
      exact ⟨t.slice ++ rest.flatMap written ++ u.gap ++ u.slice.dropLast, by simp [written]⟩

end Tile

/-! ## Where scanning ends -/

/-- What a scan found in a source. -/
theorem exists_tiled_scan (source : String) :
    ∃ tiles gap rest, Tiled [] source.toList (TokenStream.scan source) tiles gap rest :=
  exists_tiled_scanFrom [] source.toList rfl

namespace Tiled

variable {text : List Char} {stream : TokenStream} {tiles : List Tile} {gap rest : List Char}

/-- A range that goes from one token of a source to another lies in it. -/
theorem liesIn (h : Tiled [] text stream tiles gap rest) {us : List Token} {r : Range}
    (hus : us <:+: tiles.map Tile.token) (hr : Grammar.Covers r us) : r.LiesIn text := by
  have hlies := h.laid.liesIn hus hr
  rwa [List.nil_append, ← h.text_eq] at hlies

/-- A scan without a fault ends with an end of input, just past the source. -/
theorem tokens_eq (h : Tiled [] text stream tiles gap rest) (hf : stream.fault = none) :
    stream.tokens = tiles.map Tile.token ++ [Token.endAt (Source.place text)] := by
  have hends := h.ends
  rw [TokenStream.EndsAt, hf] at hends
  obtain ⟨rfl, htokens⟩ := hends
  rw [h.text_eq, htokens, List.append_nil]
  rfl

/-- A scan with a fault has the tokens before it, and the fault is at a character. -/
theorem tokens_eq_of_fault (h : Tiled [] text stream tiles gap rest) {fault : ScanFault}
    (hf : stream.fault = some fault) :
    stream.tokens = tiles.map Tile.token ∧ fault.error.range.LiesIn text := by
  have hends := h.ends
  rw [TokenStream.EndsAt, hf] at hends
  obtain ⟨htokens, hrest, hwhite, -, herror⟩ := hends
  obtain ⟨more, rfl⟩ := List.head?_eq_some_iff.mp hrest
  have hholds : Source.Holds text (Source.place ([] ++ tiles.flatMap Tile.written ++ gap)) := by
    refine ⟨tiles.flatMap Tile.written ++ gap, fault.character, more, by simp [h.text_eq], ?_, rfl⟩
    intro hnewline
    exact hwhite (by rw [hnewline]; decide)
  rw [herror]
  exact ⟨htokens, hholds, hholds, Position.notAfter_after _ []⟩

end Tiled

namespace Grammar

open Node

/-! ## What is read -/

/-- The body of a function is derived from a stretch of what the function is. -/
theorem exists_body_of_derives {depth : Nat} {s : Stratum} {r : Range} {params : List Node}
    {body : Node} {ts : List Token}
    (h : Derives depth (.expression s (.function r params body)) ts) :
    ∃ depth us, us <:+: ts ∧ Derives depth (.block body) us := by
  generalize hp : Phrase.expression s (.function r params body) = phrase at h
  induction h generalizing s r with
  | @function depth keyword opening closing _ _ ts us _ _ _ _ hb =>
    cases hp
    exact ⟨depth, us, ⟨keyword :: opening :: ts ++ [closing], [], by simp⟩, hb⟩
  | @grouping _ opening closing inner ts _ _ _ ih =>
    obtain ⟨-, hinner⟩ := Phrase.expression.inj hp
    obtain ⟨own, rfl⟩ : ∃ own, inner = .function own params body := by
      cases inner <;> cases hinner
      exact ⟨_, rfl⟩
    obtain ⟨depth, us, hus, hd⟩ := ih rfl
    exact ⟨depth, us, hus.trans ⟨[opening], [closing], by simp⟩, hd⟩
  | looser _ _ ih =>
    cases hp
    exact ih rfl
  | @binary _ op _ left right =>
    obtain ⟨-, hjoined⟩ := Phrase.expression.inj hp
    unfold joined at hjoined
    split at hjoined <;> cases hjoined
  | _ => cases hp

/-- An expression that is a statement is derived as one of the loosest stratum. -/
theorem derives_of_expressionStatement {depth : Nat} {r : Range} {e : Node} {ts : List Token}
    (h : Derives depth (.statement (.expressionStatement r e)) ts) :
    Derives depth (.expression .assignment e) ts := by
  generalize hp : Phrase.statement (.expressionStatement r e) = phrase at h
  cases h with
  | expressionStatement he =>
    cases hp
    exact he.succ
  | _ => cases hp

/-- Statements begin where the first of them does and end where the last does. -/
theorem covers_statements {depth : Nat} {inner : List Node} {ts : List Token}
    (h : Derives depth (.statements inner) ts) :
    (∀ first ∈ inner.head?, BeginAt first.range.first ts) ∧
      ∀ last ∈ inner.getLast?, EndAt last.range.last ts := by
  generalize hp : Phrase.statements inner = phrase at h
  induction h generalizing inner with
  | noStatements =>
    cases hp
    simp
  | @statements _ first others ts us hd _ _ _ ih =>
    cases hp
    have hcovers : Grammar.Covers first.range ts := covers_of_derives hd
    constructor
    · rintro n hn
      cases hn
      exact hcovers.begins.append us
    · intro n hn
      cases others with
      | nil =>
        cases hn
        cases ‹Derives _ (.statements []) us›
        simpa using hcovers.ends
      | cons second more =>
        rw [List.getLast?_cons_cons] at hn
        exact ((ih rfl).2 n hn).append ts
  | _ => cases hp

/-- A program that has statements covers their tokens. -/
theorem covers_programRange {depth : Nat} {inner : List Node} {ts : List Token} {final : Token}
    (h : Derives depth (.statements inner) ts) (hne : inner ≠ []) :
    Grammar.Covers (programRange final inner) ts := by
  obtain ⟨hbegins, hends⟩ := covers_statements h
  obtain ⟨first, more, rfl⟩ := List.exists_cons_of_ne_nil hne
  have hlast := List.getLast?_eq_some_getLast hne
  rw [programRange, List.head?_cons, hlast]
  exact ⟨hbegins first rfl, hends _ hlast⟩

variable {limit : Nat} {source : String} {tree n : Node}

/-- A program is read from the tokens before the end of input. -/
theorem derives_statements_of_tiled {tiles : List Tile} {gap rest : List Char}
    (h : program limit (TokenStream.scan source) = .ok tree)
    (ht : Tiled [] source.toList (TokenStream.scan source) tiles gap rest) :
    ∃ final inner, tree = .program (programRange final inner) inner ∧
      Derives limit (.statements inner) (tiles.map Tile.token) := by
  obtain ⟨hfault, hd⟩ := (program_scan_eq_ok_iff limit source tree).mp h
  rw [ht.tokens_eq hfault] at hd
  generalize hts : tiles.map Tile.token ++ [Token.endAt (Source.place source.toList)] = ts at hd
  cases hd with
  | @program _ final inner ts hs _ =>
    obtain ⟨rfl, -⟩ := List.append_inj' hts rfl
    exact ⟨final, inner, rfl, hs⟩

/-- **What stands in a program lies in its source**, and so does the body of a function. -/
theorem liesIn_of_isPartOf (h : program limit (TokenStream.scan source) = .ok tree)
    (hn : n.IsPartOf tree) (ha : n.standsAlone = true) :
    n.range.LiesIn source.toList ∧
      ∀ r params body, n = .function r params body → body.range.LiesIn source.toList := by
  obtain ⟨tiles, gap, rest, ht⟩ := exists_tiled_scan source
  obtain ⟨final, inner, rfl, hs⟩ := derives_statements_of_tiled h ht
  have hparts : Parts limit inner (tiles.map Tile.token) := parts_of_derives hs
  obtain ⟨us, hus, hd⟩ : ReadAlone limit n (tiles.map Tile.token) := by
    rcases isPartOf_iff.mp hn with rfl | ⟨m, hm, hn⟩
    · cases ha
    · exact hparts m hm n hn ha
  have hcovers : Grammar.Covers n.asStatement.range us := covers_of_derives hd
  rw [range_asStatement] at hcovers
  refine ⟨ht.liesIn hus hcovers, ?_⟩
  rintro r params body rfl
  obtain ⟨depth, vs, hvs, hb⟩ := exists_body_of_derives (derives_of_expressionStatement hd)
  have hbody : Grammar.Covers body.range vs := covers_of_derives hb
  exact ht.liesIn (hvs.trans hus) hbody

/-- A program lies in its source, if it has any statements. -/
theorem liesIn_program (h : program limit (TokenStream.scan source) = .ok tree)
    (hne : tree.statements? ≠ some []) : tree.range.LiesIn source.toList := by
  obtain ⟨tiles, gap, rest, ht⟩ := exists_tiled_scan source
  obtain ⟨final, inner, rfl, hs⟩ := derives_statements_of_tiled h ht
  have hinner : inner ≠ [] := by
    rintro rfl
    exact hne rfl
  exact ht.liesIn List.infix_rfl (covers_programRange hs hinner)

end Grammar

/-! ## What is not read -/

/-- Whether a cause is a token that ends the input. -/
def Cause.isEndOfInput : Cause → Bool
  | unexpectedToken t | mismatchedToken _ t => t.kind == .endOfInput
  | _ => false

/-- An error points into a text: at characters of it, or just past the last of them if the end of
the input is what is wrong. -/
def Error.PointsInto (e : Error) (text : List Char) : Prop :=
  if e.cause.isEndOfInput then e.range = Range.point (Source.place text) else e.range.LiesIn text

/-- An error that carries a token is at its range, and is one of the end of input if the token
is. -/
theorem Error.Blames.range_eq {e : Error} {t : Token} (h : e.Blames t) :
    e.range = t.range ∧ e.cause.isEndOfInput = (t.kind == .endOfInput) := by
  rcases h with rfl | ⟨kind, rfl⟩ <;> exact ⟨rfl, rfl⟩

/-- **Errors of reading point into the source.** -/
theorem Grammar.pointsInto_of_program {limit : Nat} {source : String} {e : Error}
    (h : program limit (TokenStream.scan source) = .error (.error e))
    (hc : e.cause ≠ .nestedTooDeeply) : e.PointsInto source.toList := by
  obtain ⟨tiles, gap, rest, ht⟩ := exists_tiled_scan source
  have hlies : ∀ t ∈ tiles.map Tile.token, e.Blames t → e.PointsInto source.toList := by
    intro t hm hb
    obtain ⟨hrange, hend⟩ := hb.range_eq
    obtain ⟨tile, htile, rfl⟩ := List.mem_map.mp hm
    have hk := ht.laid.kind_ne tile htile
    obtain ⟨as, bs, hsplit⟩ := List.append_of_mem hm
    have hinfix : [tile.token] <:+: tiles.map Tile.token := ⟨as, bs, by simp [hsplit]⟩
    rw [Error.PointsInto, hend, hrange, if_neg (by simpa using hk)]
    exact ht.liesIn hinfix ⟨beginAt_cons _ _, endAt_singleton _⟩
  obtain ⟨_, he, hcases⟩ := exists_foundAt_of_program h
  cases he
  rcases hcases with ⟨fault, hf, rfl⟩ | ⟨t, hm, hat⟩
  · exact (ht.tokens_eq_of_fault hf).2
  · have hb := hat.resolve_right fun hdeep => hc (congrArg Error.cause hdeep)
    cases hf : (TokenStream.scan source).fault with
    | some fault =>
      rw [(ht.tokens_eq_of_fault hf).1] at hm
      exact hlies t hm hb
    | none =>
      rw [ht.tokens_eq hf] at hm
      rcases List.mem_append.mp hm with hm | hm
      · exact hlies t hm hb
      · obtain rfl := List.mem_singleton.mp hm
        obtain ⟨hrange, hend⟩ := hb.range_eq
        rw [Error.PointsInto, hend, if_pos (by rfl), hrange]
        rfl

end HangulScript
