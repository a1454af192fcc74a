import HangulScript.Proofs.Reading.Steps

/-!
# Passing over tokens

A cursor *passes* a list of tokens on its way to another cursor when advancing takes them
one after the other and none of them is the end of input.  This is how the readings, which
go from cursor to cursor, are tied to the grammar, which speaks of lists of tokens: what a
reading consumes is the list that is passed between its two cursors.

The notion does not look into the stream.  It is the same for a stream that lacks an end of
input, goes on behind one or is cut short by a fault.
-/

namespace HangulScript
namespace Cursor

/-- Advancing from one cursor to another takes exactly these tokens, none of them an end of
input. -/
def Passes : Cursor → List Token → Cursor → Prop
  | c, [], d => c = d
  | c, t :: ts, d =>
    c.current = t ∧ t.kind ≠ .endOfInput ∧ ∃ e, c.advance = .ok e ∧ Passes e ts d

theorem passes_nil {c d : Cursor} : c.Passes [] d ↔ c = d := Iff.rfl

theorem passes_cons {c d : Cursor} {t : Token} {ts : List Token} :
    c.Passes (t :: ts) d ↔
      c.current = t ∧ t.kind ≠ .endOfInput ∧ ∃ e, c.advance = .ok e ∧ e.Passes ts d := Iff.rfl

/-- One token is passed by advancing from it. -/
theorem passes_current {c d : Cursor} (h : c.advance = .ok d)
    (hk : c.current.kind ≠ .endOfInput) : c.Passes [c.current] d :=
  ⟨rfl, hk, d, h, rfl⟩

theorem passes_append {c d : Cursor} {ts us : List Token} :
    c.Passes (ts ++ us) d ↔ ∃ e, c.Passes ts e ∧ e.Passes us d := by
  induction ts generalizing c with
  | nil =>
    constructor
    · intro h
      exact ⟨c, rfl, h⟩
    · rintro ⟨e, rfl, h⟩
      exact h
  | cons t ts ih =>
    simp only [List.cons_append, passes_cons, ih]
    constructor
    · rintro ⟨ht, hk, e, ha, f, h₁, h₂⟩
      exact ⟨f, ⟨ht, hk, e, ha, h₁⟩, h₂⟩
    · rintro ⟨f, ⟨ht, hk, e, ha, h₁⟩, h₂⟩
      exact ⟨ht, hk, e, ha, f, h₁, h₂⟩

theorem Passes.trans {c d e : Cursor} {ts us : List Token} (h : c.Passes ts d)
    (h' : d.Passes us e) : c.Passes (ts ++ us) e :=
  passes_append.mpr ⟨d, h, h'⟩

/-- The token in hand is the first of those passed. -/
theorem Passes.current_eq {c d : Cursor} {t : Token} {ts : List Token}
    (h : c.Passes (t :: ts) d) : c.current = t := h.1

/-- An end of input is reached in one way. -/
theorem Passes.unique {c d e : Cursor} {ts us : List Token} (h : c.Passes ts d)
    (h' : c.Passes us e) (hd : d.current.kind = .endOfInput) (he : e.current.kind = .endOfInput) :
    ts = us ∧ d = e := by
  induction ts generalizing c us with
  | nil =>
    cases us with
    | nil => exact ⟨rfl, h.symm.trans h'⟩
    | cons u us =>
      obtain ⟨hu, hk, -⟩ := passes_cons.mp h'
      rw [← hu, passes_nil.mp h] at hk
      exact absurd hd hk
  | cons t ts ih =>
    obtain ⟨ht, hk, f, ha, hf⟩ := passes_cons.mp h
    cases us with
    | nil =>
      rw [passes_nil.mp h'] at ht
      exact absurd (ht ▸ he) hk
    | cons u us =>
      obtain ⟨hu, -, g, hb, hg⟩ := passes_cons.mp h'
      rw [ha] at hb
      cases hb
      obtain ⟨rfl, rfl⟩ := ih hf hg
      exact ⟨by rw [← ht, ← hu], rfl⟩

end Cursor

/-! ## Streams without a fault -/

namespace TokenStream

/-- A list of tokens up to and with its first end of input.  If it has none, one is
supplied, ranged where the last token ends, or at the given position. -/
def ended (dry : Position) : List Token → List Token
  | [] => [Token.endAt dry]
  | t :: ts => if t.kind = .endOfInput then [t] else t :: ended t.range.last ts

/-- The tokens that the parser can meet in a list of tokens. -/
def complete (tokens : List Token) : List Token := ended Position.origin tokens

/-- A list of tokens can be passed up to its end of input. -/
theorem exists_passes_of_take (tokens : List Token) (dry : Position) :
    ∃ c d body, Cursor.take ⟨tokens, none⟩ dry = .ok c ∧ c.Passes body d ∧
      d.current.kind = .endOfInput ∧ ended dry tokens = body ++ [d.current] := by
  induction tokens generalizing dry with
  | nil => exact ⟨⟨Token.endAt dry, [], none⟩, _, [], rfl, rfl, rfl, rfl⟩
  | cons t ts ih =>
    by_cases hk : t.kind = .endOfInput
    · exact ⟨⟨t, ts, none⟩, _, [], rfl, rfl, hk, by simp [ended, hk]⟩
    · obtain ⟨c, d, body, hc, hp, hd, he⟩ := ih t.range.last
      refine ⟨⟨t, ts, none⟩, d, t :: body, rfl, ⟨rfl, hk, c, ?_, hp⟩, hd, ?_⟩
      · simp only [Cursor.advance, hk, if_false]
        exact hc
      · simp only [ended, hk, if_false, he, List.cons_append]

/-- The first cursor of a list of tokens passes all of them up to the end of input. -/
theorem exists_passes_of_start (tokens : List Token) :
    ∃ c d body, Cursor.start ⟨tokens, none⟩ = .ok c ∧ c.Passes body d ∧
      d.current.kind = .endOfInput ∧ complete tokens = body ++ [d.current] :=
  exists_passes_of_take tokens Position.origin

end TokenStream
end HangulScript
