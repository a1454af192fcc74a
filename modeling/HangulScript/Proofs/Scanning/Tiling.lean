import HangulScript.Proofs.Scanning.Terminals
import HangulScript.Tree.Cursor

/-!
# The scanner tiles the source

A tile is a token together with the characters it was read from and the white space in front of
them.  Laid one after the other, the tiles of a source cover it without a hole and without an
overlap, up to white space at the end or up to the character that begins no token.

Three things are said of every tile at once.  What it covers is the longest match of any terminal
at its offset, so that the cut is the only one there can be.  Its token has the kind of that
terminal, and the text that is covered, a string the text between its quotes.  And the range of
the token is the place of the first and of the last character covered.

Places are counted here as one counts them by hand: the row is the number of newlines before, the
column the number of characters since the last of them (`Source.place`).  The scanner moves a
position from character to character and over a whole token at once; that this comes to the same
is `Source.place_append`, together with the fact that no token goes over the end of a line.
-/

namespace HangulScript

/-! ## Places -/

namespace Source

/-- The characters that may stand between tokens. -/
def whiteSpace : List Char := [' ', '\t', '\x0c', '\r', '\n']

/-- The place behind some characters at the beginning of a source: its row is the number of
newlines among them, its column the number of characters after the last newline. -/
def place (before : List Char) : Position :=
  ⟨before.count '\n', (before.reverse.takeWhile fun c => c != '\n').length⟩

theorem mem_whiteSpace_iff {c : Char} : c ∈ whiteSpace ↔ Text.isGap c = true := by
  simp [whiteSpace, Text.isGap, or_assoc]

/-- One character further. -/
theorem place_concat (before : List Char) (c : Char) :
    place (before ++ [c]) = (place before).next c := by
  unfold place Position.next
  rw [List.count_append, List.reverse_append, List.reverse_singleton, List.singleton_append,
    List.takeWhile_cons]
  by_cases hc : c = '\n'
  · subst hc
    simp
  · simp [hc]

/-- The place behind further characters. -/
theorem place_append (before text : List Char) :
    place (before ++ text) = (place before).after text := by
  induction text generalizing before with
  | nil => rw [List.append_nil, Position.after_nil]
  | cons c text ih => rw [List.append_cons, ih, place_concat, Position.after_cons]

end Source

/-! ## Tiles -/

/-- A token with the characters it was read from and the white space in front of them. -/
structure Tile where
  gap : List Char
  slice : List Char
  token : Token

namespace Tile

/-- All the characters a tile covers. -/
def written (t : Tile) : List Char := t.gap ++ t.slice

/-- A tile fits between what stands before and behind it. -/
structure Fits (before : List Char) (t : Tile) (behind : List Char) : Prop where
  gap : ∀ c ∈ t.gap, c ∈ Source.whiteSpace
  longest : LongestMatch t.token.kind t.slice (t.slice ++ behind)
  text : if t.token.kind = .string then
      ∃ quote, t.slice = quote :: (t.token.text.toList ++ [quote])
    else t.slice = t.token.text.toList
  first : t.token.range.first = Source.place (before ++ t.gap)
  last : t.token.range.last = Source.place (before ++ t.gap ++ t.slice.dropLast)

/-- Tiles lie one after the other between what stands before and behind them all. -/
def Laid (before : List Char) : List Tile → List Char → Prop
  | [], _ => True
  | t :: ts, behind =>
    t.Fits before (ts.flatMap written ++ behind) ∧ Laid (before ++ t.written) ts behind

end Tile

/-- How a scan ends behind its tiles, at a place: at the end of the source with the one end of
input, or at a character at which no terminal matches. -/
def TokenStream.EndsAt (stream : TokenStream) (tiles : List Tile) (rest : List Char)
    (p : Position) : Prop :=
  match stream.fault with
  | none => rest = [] ∧ stream.tokens = tiles.map Tile.token ++ [⟨.endOfInput, "", Range.point p⟩]
  | some fault => stream.tokens = tiles.map Tile.token ∧ rest.head? = some fault.character ∧
      fault.character ∉ Source.whiteSpace ∧
      (∀ kind slice, Terminal kind slice → ¬ slice <+: rest) ∧
      fault.error = ⟨.unexpectedCharacter fault.character, Range.point p⟩

/-- A stream is made of a text behind some characters, with these tiles, this white space after
them and this rest. -/
structure Tiled (before text : List Char) (stream : TokenStream) (tiles : List Tile)
    (gap rest : List Char) : Prop where
  text_eq : text = tiles.flatMap Tile.written ++ (gap ++ rest)
  gap_mem : ∀ c ∈ gap, c ∈ Source.whiteSpace
  laid : Tile.Laid before tiles (gap ++ rest)
  ends : stream.EndsAt tiles rest (Source.place (before ++ tiles.flatMap Tile.written ++ gap))

/-! ## Scanning lays tiles -/

variable {before text : List Char} {stream : TokenStream} {tiles : List Tile} {gap rest : List Char}

/-- White space in front of a text goes into the first tile, or into the white space at the end
if there is no tile. -/
theorem Tiled.behind_gap {c : Char} (hc : Text.isGap c = true)
    (h : Tiled (before ++ [c]) text stream tiles gap rest) :
    ∃ tiles gap rest, Tiled before (c :: text) stream tiles gap rest := by
  have hmem := Source.mem_whiteSpace_iff.mpr hc
  obtain ⟨rfl, hgap, hlaid, hends⟩ := h
  cases tiles with
  | nil =>
    refine ⟨[], c :: gap, rest, rfl, List.forall_mem_cons.mpr ⟨hmem, hgap⟩, trivial, ?_⟩
    simpa using hends
  | cons t ts =>
    obtain ⟨hfits, hmore⟩ := hlaid
    refine ⟨⟨c :: t.gap, t.slice, t.token⟩ :: ts, gap, rest, rfl, hgap, ⟨?_, ?_⟩, ?_⟩
    · refine ⟨List.forall_mem_cons.mpr ⟨hmem, hfits.gap⟩, hfits.longest, hfits.text, ?_, ?_⟩
      · simpa using hfits.first
      · simpa using hfits.last
    · simpa [Tile.written] using hmore
    · simpa [Tile.written, TokenStream.EndsAt] using hends

/-- A tile in front of a text. -/
theorem Tiled.behind_tile {t : Tile} (ht : t.Fits before text)
    (h : Tiled (before ++ t.written) text stream tiles gap rest) :
    Tiled before (t.written ++ text) (TokenStream.cons t.token stream) (t :: tiles) gap rest := by
  obtain ⟨htext, hgap, hlaid, hends⟩ := h
  refine ⟨by rw [htext]; simp, hgap, ⟨by rwa [← htext], hlaid⟩, ?_⟩
  rw [List.flatMap_cons, ← List.append_assoc before]
  revert hends
  unfold TokenStream.EndsAt TokenStream.cons
  cases stream.fault with
  | none =>
    rintro ⟨hrest, htokens⟩
    exact ⟨hrest, by rw [htokens]; rfl⟩
  | some fault =>
    rintro ⟨htokens, hstop⟩
    exact ⟨by rw [htokens]; rfl, hstop⟩

/-- The tile of a lexeme that is read at the beginning of a text. -/
theorem fits_of_read? {c : Char} {behind : List Char} {l : Lexeme}
    (h : Lexeme.read? c (l.more ++ behind) = some l) (hc : l.first = c) (before : List Char) :
    Tile.Fits before ⟨[], l.spelling, TokenStream.tokenAt (Source.place before) l⟩ behind := by
  subst hc
  obtain ⟨hs, -⟩ := Lexeme.spells_of_read? h
  refine ⟨by simp, longestMatch_of_read? h, ?_, ?_, ?_⟩
  · show if l.kind = .string then _ else _
    split
    next hk =>
      rw [hk] at hs
      obtain ⟨quote, content, htext, -⟩ := content_of_spells hs
      obtain ⟨-, hmore⟩ := List.cons.inj htext
      refine ⟨quote, ?_⟩
      show l.spelling = quote :: ((String.ofList l.text).toList ++ [quote])
      rw [String.toList_ofList, Lexeme.text, if_pos hk, hmore, List.dropLast_concat, htext]
    next hk => exact (TokenStream.toList_text_tokenAt hk _).symm
  · rw [List.append_nil]
    rfl
  · rw [List.append_nil, Source.place_append]
    have hnewline : '\n' ∉ l.spelling.dropLast := fun hm =>
      Lexeme.newline_not_mem_of_spells hs (List.dropLast_subset _ hm)
    rw [Position.after_of_newline_not_mem hnewline, List.length_dropLast]
    rfl

/-- **Scanning lays tiles**, from any place in a source on. -/
theorem exists_tiled_scanFrom (before text : List Char) {p : Position}
    (hp : p = Source.place before) :
    ∃ tiles gap rest, Tiled before text (TokenStream.scanFrom p text) tiles gap rest := by
  fun_induction TokenStream.scanFrom p text generalizing before with
  | case1 p =>
    -- the end of the source
    refine ⟨[], [], [], rfl, by simp, trivial, rfl, ?_⟩
    simp [hp, Token.endAt]
  | case2 p c rest hc ih =>
    -- white space, which belongs to the tile behind it
    obtain ⟨tiles, gap, rest', h⟩ := ih (before ++ [c]) (by rw [Source.place_concat, hp])
    exact h.behind_gap hc
  | case3 p c rest hc hread =>
    -- a character that begins no token
    refine ⟨[], [], c :: rest, rfl, by simp, trivial, rfl, rfl, ?_, ?_, ?_⟩
    · exact fun hm => hc (Source.mem_whiteSpace_iff.mp hm)
    · exact fun kind slice ht => not_terminal_of_read? hread ht
    · simp [ScanFault.error, hp]
  | case4 p c rest _ l hread ih =>
    -- a lexeme, which ends on the row it begins on
    obtain ⟨hs, hfirst, after, rfl, -⟩ := Lexeme.spells_of_read? hread
    have hplace : p.right l.spelling.length = Source.place (before ++ l.spelling) := by
      rw [Source.place_append, ← hp]
      exact (Position.after_of_newline_not_mem (Lexeme.newline_not_mem_of_spells hs) p).symm
    obtain ⟨tiles, gap, rest', h⟩ := ih _ hplace
    rw [List.drop_left] at h ⊢
    subst hp hfirst
    exact ⟨_, gap, rest', h.behind_tile (fits_of_read? hread rfl before)⟩

/-- The tokens of tiles are none of the end of input. -/
theorem Tile.Laid.kind_ne {before : List Char} {tiles : List Tile} {behind : List Char}
    (h : Laid before tiles behind) : ∀ t ∈ tiles, t.token.kind ≠ .endOfInput := by
  induction tiles generalizing before with
  | nil => simp
  | cons t ts ih =>
    obtain ⟨hfits, hmore⟩ := h
    refine List.forall_mem_cons.mpr ⟨?_, ih hmore⟩
    exact hfits.longest.terminal.kind_ne

/-- **The scanner tiles the source.**  The slices that the tokens were read from, in their order
and with white space between them, are the source; or, if the scanner was stopped, what stands
before the character that stopped it, at which no terminal matches.  Every slice is the longest
match of any terminal at its offset and has its kind, a keyword's exactly when it is that keyword;
the range of its token is the place of its first and last character.  A source that is scanned to
its end has one end of input, behind all other tokens and at the place behind the whole source. -/
theorem scan_tiles (source : String) :
    ∃ (tiles : List Tile) (gap rest : List Char),
      source.toList = tiles.flatMap Tile.written ++ (gap ++ rest) ∧
      (∀ c ∈ gap, c ∈ Source.whiteSpace) ∧
      Tile.Laid [] tiles (gap ++ rest) ∧
      (∀ t ∈ tiles, t.token.kind ≠ .endOfInput) ∧
      (TokenStream.scan source).EndsAt tiles rest
        (Source.place (tiles.flatMap Tile.written ++ gap)) ∧
      TokenStream.endOfInput source = Range.point (Source.place source.toList) := by
  have horigin : Position.origin = Source.place [] := rfl
  obtain ⟨tiles, gap, rest, htext, hgap, hlaid, hends⟩ :=
    exists_tiled_scanFrom [] source.toList horigin
  refine ⟨tiles, gap, rest, htext, hgap, hlaid, hlaid.kind_ne, hends, ?_⟩
  rw [TokenStream.endOfInput, horigin, ← Source.place_append, List.nil_append]

end HangulScript
