import HangulScript.Proofs.Grammar.Exactness

/-!
# Programs in source texts

A source text without a fault is scanned to tokens that end with the only end of input among
them, so nothing has to be cut or supplied.  A source text with a fault has no end of input,
and a program is never read to its end there.

Together with `program_eq_ok_iff` this gives what the rest of the theory uses: a source holds
a program exactly when it has no fault and its tokens derive the tree.
-/

namespace HangulScript
namespace TokenStream

/-- A source without a fault is scanned to a list that is complete already. -/
theorem ended_scanFrom (p : Position) (text : List Char) (dry : Position)
    (h : (scanFrom p text).fault = none) :
    ended dry (scanFrom p text).tokens = (scanFrom p text).tokens := by
  fun_induction scanFrom p text generalizing dry with
  | case1 p => rfl
  | case2 p c rest _ ih => exact ih dry h
  | case3 p c rest => cases h
  | case4 p c rest _ l hl ih =>
    have hkind : (tokenAt p l).kind ≠ .endOfInput :=
      Lexeme.kind_ne_endOfInput (Lexeme.spells_of_read? hl).1
    show ended dry (tokenAt p l :: _) = tokenAt p l :: _
    rw [ended, if_neg hkind, ih _ h]

/-- A source with a fault is scanned to no end of input. -/
theorem kind_ne_endOfInput_of_fault {p : Position} {text : List Char}
    (h : (scanFrom p text).fault ≠ none) : ∀ t ∈ (scanFrom p text).tokens, t.kind ≠ .endOfInput := by
  fun_induction scanFrom p text with
  | case1 p => exact absurd rfl h
  | case2 p c rest _ ih => exact ih h
  | case3 p c rest =>
    intro t ht
    cases ht
  | case4 p c rest _ l hl ih =>
    intro t ht
    rcases List.mem_cons.mp ht with rfl | ht
    · exact Lexeme.kind_ne_endOfInput (Lexeme.spells_of_read? hl).1
    · exact ih h t ht

end TokenStream

namespace Cursor

/-- No end of input is reached in a stream that has a fault and no end of input. -/
theorem Passes.kind_ne_endOfInput {c d : Cursor} {ts : List Token} (h : c.Passes ts d)
    (hf : c.fault ≠ none) (hc : ∀ t ∈ c.current :: c.rest, t.kind ≠ .endOfInput) :
    d.current.kind ≠ .endOfInput := by
  induction ts generalizing c with
  | nil =>
    obtain rfl := h
    exact hc _ (List.mem_cons_self ..)
  | cons t ts ih =>
    obtain ⟨-, -, e, ha, he⟩ := passes_cons.mp h
    have hk := hc _ (List.mem_cons_self ..)
    obtain ⟨current, rest, fault⟩ := c
    simp only [advance, hk, if_false] at ha
    cases rest with
    | nil =>
      cases fault with
      | none => exact absurd rfl hf
      | some fault => cases ha
    | cons u rest =>
      cases ha
      exact ih he hf fun t ht => hc t (List.mem_cons_of_mem _ ht)

end Cursor

namespace Grammar

/-- A program that is read has no fault in its source. -/
theorem fault_eq_none_of_program {limit : Nat} {source : String} {tree : Node}
    (h : program limit (TokenStream.scan source) = .ok tree) :
    (TokenStream.scan source).fault = none := by
  by_cases hf : (TokenStream.scan source).fault = none
  · exact hf
  · have hkinds : ∀ t ∈ (TokenStream.scan source).tokens, t.kind ≠ .endOfInput :=
      TokenStream.kind_ne_endOfInput_of_fault hf
    obtain ⟨c, hc, hprogram⟩ := program_eq_ok.mp h
    obtain ⟨d, ts, inner, hts, hd, -, -⟩ := programFrom_eq_ok.mp hprogram
    generalize TokenStream.scan source = stream at hf hkinds hc
    obtain ⟨tokens, fault⟩ := stream
    cases tokens with
    | nil =>
      cases fault with
      | none => exact absurd rfl hf
      | some fault => cases hc
    | cons t rest =>
      cases hc
      exact absurd hd (hts.kind_ne_endOfInput hf hkinds)

/-- **What a source holds.**  A program is read from a source text exactly when that has no
fault and its tokens derive the tree. -/
theorem program_scan_eq_ok_iff (limit : Nat) (source : String) (tree : Node) :
    program limit (TokenStream.scan source) = .ok tree ↔
      (TokenStream.scan source).fault = none ∧
        Derives limit (.program tree) (TokenStream.scan source).tokens := by
  have heta : (TokenStream.scan source).fault = none →
      TokenStream.scan source = ⟨(TokenStream.scan source).tokens, none⟩ := by
    intro hf
    rw [← hf]
  have hcomplete : (TokenStream.scan source).fault = none →
      TokenStream.complete (TokenStream.scan source).tokens = (TokenStream.scan source).tokens :=
    TokenStream.ended_scanFrom _ _ _
  constructor
  · intro h
    have hf := fault_eq_none_of_program h
    rw [heta hf, program_eq_ok_iff, hcomplete hf] at h
    exact ⟨hf, h⟩
  · rintro ⟨hf, h⟩
    rw [heta hf, program_eq_ok_iff, hcomplete hf]
    exact h

end Grammar
end HangulScript
