import HangulScript.Proofs.Grammar.Completeness
import HangulScript.Proofs.Grammar.Regrouping
import HangulScript.Proofs.Grammar.Soundness
import HangulScript.Proofs.Reading.Limits

/-!
# The parser is exact

For every list of tokens, whatever its kinds, texts and ranges, reading a program with a
nesting limit gives the tree that the stratified grammar derives at that depth, and fails if
there is none (`program_eq_ok_iff`).

The depth is no part of the language.  Once it is left out, what remains is the statement one
wants of a parser: it accepts the sentences of the loose grammar, the one without precedence,
and of all their readings it takes the one of the strata, which is unique
(`program_exact`).  That no sentence is lost by reading greedily is what `Regrouping` is for;
that the limit does not decide between readings is what `Limits` is for.
-/

namespace HangulScript
namespace Grammar

/-- A program is ranged alike by the first token and by the end of input: by neither if it has
statements, and otherwise they are the same token. -/
theorem programRange_eq_of_passes {depth : Nat} {inner : List Node} {ts : List Token}
    {c d : Cursor} (h : Derives depth (.statements inner) ts) (hp : c.Passes ts d) :
    programRange c.current inner = programRange d.current inner := by
  cases h with
  | noStatements =>
    obtain rfl := hp
    rfl
  | statements => simp [programRange, List.getLast?_cons]

/-- A program is read from a cursor when the tokens up to an end of input derive statements. -/
theorem programFrom_eq_ok {limit : Nat} {c : Cursor} {tree : Node} :
    programFrom limit c = .ok tree ↔
      ∃ d ts inner, c.Passes ts d ∧ d.current.kind = .endOfInput ∧
        Derives limit (.statements inner) ts ∧
        .program (programRange d.current inner) inner = tree := by
  rw [programFrom]
  constructor
  · intro h
    obtain ⟨⟨inner, d⟩, hs, he⟩ := except_bind_eq_ok.mp h
    cases he
    obtain ⟨⟨ts, hts, hdt⟩, hk⟩ := spans_statementsUpTo (sound_levels limit) hs
    rw [programRange_eq_of_passes hdt hts]
    exact ⟨d, ts, inner, hts, hk, hdt, rfl⟩
  · rintro ⟨d, ts, inner, hts, hk, hdt, rfl⟩
    have hs : Grammar.statements (levels limit) d.current.kind c = .ok (inner, d) :=
      hdt.readBy hts (Or.inl hk)
    rw [hk] at hs
    refine except_bind_eq_ok.mpr ⟨(inner, d), hs, ?_⟩
    show Except.ok (Node.program (programRange c.current inner) inner) = _
    rw [programRange_eq_of_passes hdt hts]

theorem program_eq_ok {limit : Nat} {stream : TokenStream} {tree : Node} :
    program limit stream = .ok tree ↔
      ∃ c, Cursor.start stream = .ok c ∧ programFrom limit c = .ok tree := by
  have hmap : ∀ x : Except ReadingFailure Node, x.mapError reported = .ok tree ↔ x = .ok tree := by
    intro x
    cases x with
    | ok n => exact Iff.rfl
    | error e => constructor <;> intro h <;> cases h
  simp only [program, except_bind_eq_ok, hmap]

/-- **What is read with a limit is what is derived at that depth.** -/
theorem program_eq_ok_iff (limit : Nat) (tokens : List Token) (tree : Node) :
    program limit ⟨tokens, none⟩ = .ok tree ↔
      Derives limit (.program tree) (TokenStream.complete tokens) := by
  obtain ⟨c, d, body, hc, hp, hd, hcomplete⟩ := TokenStream.exists_passes_of_start tokens
  rw [program_eq_ok, hcomplete]
  constructor
  · rintro ⟨c', hc', h⟩
    rw [hc] at hc'
    cases hc'
    obtain ⟨e, ts, inner, hts, hk, hdt, rfl⟩ := programFrom_eq_ok.mp h
    obtain ⟨rfl, rfl⟩ := hts.unique hp hk hd
    exact .program hdt hk
  · intro h
    generalize hts : body ++ [d.current] = ts at h
    cases h with
    | @program _ final inner ts hdt hk =>
      obtain ⟨rfl, hfinal⟩ := List.append_inj' hts rfl
      cases hfinal
      exact ⟨c, hc, programFrom_eq_ok.mpr ⟨d, body, inner, hp, hd, hdt, rfl⟩⟩

/-- The tokens before the first end of input, and that, are among those of the list, or the
end of input was supplied. -/
theorem mem_complete {tokens : List Token} {t : Token} (h : t ∈ TokenStream.complete tokens) :
    t ∈ tokens ∨ t.kind = .endOfInput := by
  unfold TokenStream.complete at h
  generalize Position.origin = dry at h
  induction tokens generalizing dry with
  | nil =>
    obtain rfl := List.mem_singleton.mp h
    exact Or.inr rfl
  | cons u tokens ih =>
    rw [TokenStream.ended] at h
    split at h
    · exact Or.inl (List.mem_singleton.mp h ▸ List.mem_cons_self ..)
    · rcases List.mem_cons.mp h with rfl | h
      · exact Or.inl (List.mem_cons_self ..)
      · exact (ih _ h).imp_left (List.mem_cons_of_mem u)

/-- A tree that the strata give to tokens is the one that is read from them, if they are not
nested too deeply. -/
theorem program_eq_ok_of_stratified {limit : Nat} {tokens : List Token} {tree : Node}
    (hl : ¬ TooDeep limit ⟨tokens, none⟩) (h : Stratified (TokenStream.complete tokens) tree) :
    program limit ⟨tokens, none⟩ = .ok tree := by
  obtain ⟨depth, hd⟩ := h
  have hdeep := (program_eq_ok_iff _ _ _).mpr (hd.deeper (Nat.le_max_left depth limit))
  rwa [program_eq_of_le hl (Nat.le_max_right depth limit)] at hdeep

/-- **The parser is exact.**  Take tokens of the kinds and texts that the scanner makes, cut
behind the first end of input or with one supplied, and not nested too deeply.  They are read
as a program exactly when they are a sentence of the grammar without precedence; and the tree
that is read is the only one that the stratified grammar gives to them. -/
theorem program_exact (limit : Nat) (tokens : List Token) (hs : ∀ t ∈ tokens, t.Scannable)
    (hl : ¬ TooDeep limit ⟨tokens, none⟩) :
    ((∃ tree, program limit ⟨tokens, none⟩ = .ok tree) ↔
      Sentence ((TokenStream.complete tokens).map Token.kind)) ∧
    ∀ tree, program limit ⟨tokens, none⟩ = .ok tree →
      ∀ other, Stratified (TokenStream.complete tokens) other ↔ other = tree := by
  constructor
  · constructor
    · rintro ⟨tree, h⟩
      exact ((program_eq_ok_iff _ _ _).mp h).reads
    · intro h
      have hv : ∀ t ∈ TokenStream.complete tokens, t.Valued := by
        intro t ht hk
        rcases mem_complete ht with ht | ht
        · exact (hs t ht).valued hk
        · rw [hk] at ht
          cases ht
      obtain ⟨depth, tree, hd⟩ := derived_of_reads h ⟨rfl, hv⟩
      exact ⟨tree, program_eq_ok_of_stratified hl ⟨depth, hd⟩⟩
  · intro tree h other
    constructor
    · intro ho
      have := program_eq_ok_of_stratified hl ho
      rw [h] at this
      exact (Except.ok.inj this).symm
    · rintro rfl
      exact ⟨limit, (program_eq_ok_iff _ _ _).mp h⟩

/-- One statement, though there are two ways to cut it into more: before `(` and before `-`. -/
theorem program_exact_sum :
    let source := "ㄱ = 1 + 2 * 3 (ㄴ) - 4"
    let tokens := (TokenStream.scan source).tokens
    (∀ t ∈ tokens, t.Scannable) ∧ ¬ TooDeep 40 ⟨tokens, none⟩ ∧
      Sentence ((TokenStream.complete tokens).map Token.kind) ∧
      ∃ tree, program 40 ⟨tokens, none⟩ = .ok tree ∧
        ∀ other, Stratified (TokenStream.complete tokens) other ↔ other = tree := by
  intro source tokens
  have hs : ∀ t ∈ tokens, t.Scannable := fun t ht => ⟨source, t, ht, rfl, rfl⟩
  have hl : ¬ TooDeep 40 ⟨tokens, none⟩ := not_tooDeep_of_length (by decide +kernel)
  obtain ⟨hsentence, hunique⟩ := program_exact 40 tokens hs hl
  have hok : (program 40 ⟨tokens, none⟩).isOk = true := by decide +kernel
  cases htree : program 40 ⟨tokens, none⟩ with
  | error e =>
    rw [htree] at hok
    cases hok
  | ok tree => exact ⟨hs, hl, hsentence.mp ⟨tree, htree⟩, tree, rfl, hunique tree htree⟩

end Grammar
end HangulScript
