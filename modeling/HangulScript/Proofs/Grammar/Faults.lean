import HangulScript.Proofs.Grammar.EarliestErrors

/-!
# Sources with a fault

The parser pulls its tokens one at a time, so a fault of the source is met only by a parser that
gets so far.  This is compared with scanning first: the tokens before the fault are collected, an
end of input is put behind them, and the list is read.

Both readings go through the same tokens.  If one of those is a token at which a program is
refused, it settles both outcomes, because nothing behind it has any influence
(`Refused.outcome`).  If none is, the reading of the list gets to its end of input, whatever it
makes of that, and the reading of the source asks for the token that is not there
(`refused_or_fault`).  No rule of the grammar has to be looked at again.

A refusal is not always an error that carries a token.  Where the nesting limit is reached, a
program is refused at the token in hand like anywhere else, and the fault behind it is not met.
-/

namespace HangulScript

/-- An error is found at a token: it carries the token, or it reports the nesting limit and
carries the range of the token. -/
def Error.FoundAt (e : Error) (t : Token) : Prop := e.Blames t ∨ e = ⟨.nestedTooDeeply, t.range⟩

/-- The error that carries a token says nothing about the nesting limit. -/
theorem Error.Blames.cause_ne {e : Error} {t : Token} (h : e.Blames t) :
    e.cause ≠ .nestedTooDeeply := by
  rcases h with rfl | ⟨kind, rfl⟩ <;> rintro ⟨⟩

/-- An error that carries a token is found at no other. -/
theorem Error.Blames.eq_of_foundAt {e : Error} {t u : Token} (h : e.Blames t)
    (h' : e.FoundAt u) : t = u := by
  rcases h' with h' | rfl
  · exact h.unique h'
  · exact absurd rfl h.cause_ne

/-- What is found at a token is reported as an error found there. -/
theorem ReadingFailure.At.reported {failure : ReadingFailure} {t : Token} (h : failure.At t) :
    ∃ e, Grammar.reported failure = .error e ∧ e.FoundAt t := by
  cases failure with
  | error e => exact ⟨e, rfl, Or.inl h⟩
  | limit reached => exact ⟨⟨.nestedTooDeeply, reached⟩, rfl, Or.inr (congrArg _ h)⟩
  | notNumeral text => exact h.elim

namespace Grammar

variable (limit : Nat) {tokens : List Token}

/-- The error of a source that holds no program is that of its fault or is found at one of its
tokens. -/
theorem exists_foundAt_of_program {limit : Nat} {source : String} {failure : ReadingFailure}
    (h : program limit (TokenStream.scan source) = .error failure) :
    ∃ e, failure = .error e ∧
      ((∃ fault, (TokenStream.scan source).fault = some fault ∧ e = fault.error) ∨
        ∃ t ∈ (TokenStream.scan source).tokens, e.FoundAt t) := by
  have hvalued : ∀ t ∈ (TokenStream.scan source).tokens, t.Valued := fun t hm =>
    Token.Scannable.valued ⟨source, t, hm, rfl, rfl⟩
  have hcomplete := TokenStream.ended_scanFrom Position.origin source.toList Position.origin
  rw [← TokenStream.scan] at hcomplete
  generalize TokenStream.scan source = stream at h hvalued hcomplete
  obtain ⟨tokens, fault⟩ := stream
  cases hc : Cursor.start ⟨tokens, fault⟩ with
  | error found =>
    rw [program, hc] at h
    cases h
    obtain ⟨fault, hfault, rfl⟩ := Cursor.take_eq_error hc
    exact ⟨_, rfl, Or.inl ⟨fault, hfault, rfl⟩⟩
  | ok c =>
    obtain ⟨hcv, hcf⟩ := Cursor.valued_of_take hc hvalued
    rcases refused_of_error hc hcv h with ⟨fault, hfault, rfl⟩ | ⟨ts, d, found, hp, hr, rfl⟩
    · exact ⟨_, rfl, Or.inl ⟨fault, hcf.symm.trans hfault, rfl⟩⟩
    · obtain ⟨e, he, hat⟩ := hr.found.reported
      refine ⟨e, he, Or.inr ⟨d.current, ?_, hat⟩⟩
      cases fault with
      | some fault =>
        obtain ⟨vs, hvs⟩ := hp.exists_tokens hc
        exact hvs ▸ by simp
      | none =>
        obtain ⟨c', last, body, hc', hbody, hlast, htokens⟩ :=
          TokenStream.exists_passes_of_start tokens
        rw [hc] at hc'
        cases hc'
        obtain ⟨vs, hvs⟩ := hp.exists_append hbody hlast
        have hmem : d.current ∈ TokenStream.complete tokens := by
          rw [htokens, hvs]
          simp
        rwa [TokenStream.complete, hcomplete rfl] at hmem

/-- A source that holds no program has an error: that of its fault, or one found at a token. -/
theorem exists_error_of_program {limit : Nat} {source : String} {failure : ReadingFailure}
    (h : program limit (TokenStream.scan source) = .error failure) :
    ∃ e, failure = .error e ∧ ((∃ fault : ScanFault, e = fault.error) ∨ ∃ t, e.FoundAt t) := by
  obtain ⟨e, he, hcases⟩ := exists_foundAt_of_program h
  rcases hcases with ⟨fault, -, hfault⟩ | ⟨t, -, hat⟩
  · exact ⟨e, he, Or.inl ⟨fault, hfault⟩⟩
  · exact ⟨e, he, Or.inr ⟨t, hat⟩⟩

/-- A list of tokens with an end of input behind them is read, or refused at one of them or at
the end of input. -/
theorem refused_of_end (hk : ∀ t ∈ tokens, t.kind ≠ .endOfInput) (hv : ∀ t ∈ tokens, t.Valued)
    {final : Token} (hf : final.kind = .endOfInput) :
    (∃ tree, program limit ⟨tokens ++ [final], none⟩ = .ok tree) ∨
      ∃ ts t vs found, tokens ++ [final] = ts ++ t :: vs ∧ Refused limit ts t found := by
  cases hp : program limit ⟨tokens ++ [final], none⟩ with
  | ok tree => exact Or.inl ⟨tree, rfl⟩
  | error failure =>
    have hvalued : ∀ t ∈ tokens ++ [final], t.Valued := by
      intro t ht hnumber
      rcases List.mem_append.mp ht with ht | ht
      · exact hv t ht hnumber
      · rw [List.mem_singleton.mp ht, hf] at hnumber
        cases hnumber
    obtain ⟨c, last, body, hc, hbody, hlast, hcomplete⟩ :=
      TokenStream.exists_passes_of_start (tokens ++ [final])
    obtain ⟨hcv, hfault⟩ := Cursor.valued_of_take hc hvalued
    rcases refused_of_error hc hcv hp with ⟨fault, hsome, -⟩ | ⟨ts, d, found, hpass, hr, -⟩
    · rw [hfault] at hsome
      cases hsome
    · obtain ⟨vs, hvs⟩ := hpass.exists_append hbody hlast
      have hself : TokenStream.complete (tokens ++ [final]) = tokens ++ [final] := by
        have hkinds : (tokens ++ [final]).map Token.kind =
            tokens.map Token.kind ++ [.endOfInput] := by
          rw [List.map_append, List.map_singleton, hf]
        refine ended_eq_self _ hkinds fun hm => ?_
        obtain ⟨t, ht, hkind⟩ := List.mem_map.mp hm
        exact hk t ht hkind
      exact Or.inr ⟨ts, d.current, vs, found, hself.symm.trans (hcomplete.trans hvs), hr⟩

/-- **A refusal or the fault.**  Either one of the tokens before the fault settles both readings
with a failure found at it, or the source ends with its fault and the list is read to its end of
input. -/
theorem refused_or_fault (hk : ∀ t ∈ tokens, t.kind ≠ .endOfInput) (hv : ∀ t ∈ tokens, t.Valued)
    (fault : ScanFault) {final : Token} (hf : final.kind = .endOfInput) :
    (∃ e, ∃ t ∈ tokens, e.FoundAt t ∧
        program limit ⟨tokens ++ [final], none⟩ = .error (.error e) ∧
        program limit ⟨tokens, some fault⟩ = .error (.error e)) ∨
      (((∃ tree, program limit ⟨tokens ++ [final], none⟩ = .ok tree) ∨
          ∃ e, e.FoundAt final ∧ program limit ⟨tokens ++ [final], none⟩ = .error (.error e)) ∧
        program limit ⟨tokens, some fault⟩ = .error (.error fault.error)) := by
  have hsettled : ∀ {ts t vs found}, tokens = ts ++ t :: vs → Refused limit ts t found →
      ∃ e, ∃ t ∈ tokens, e.FoundAt t ∧
        program limit ⟨tokens ++ [final], none⟩ = .error (.error e) ∧
        program limit ⟨tokens, some fault⟩ = .error (.error e) := by
    rintro ts t vs found rfl hr
    obtain ⟨e, he, hat⟩ := hr.found.reported
    refine ⟨e, t, by simp, hat, ?_, ?_⟩
    · rw [List.append_assoc, List.cons_append, hr.outcome, he]
    · rw [hr.outcome, he]
  rcases refused_of_fault hk hv fault with ⟨ts, t, vs, found, htokens, hr⟩ | hfault
  · exact Or.inl (hsettled htokens hr)
  rcases refused_of_end limit hk hv hf with hread | ⟨ts, t, vs, found, htokens, hr⟩
  · exact Or.inr ⟨Or.inl hread, hfault⟩
  -- A refusal with nothing behind it is at the end of input; any other is at a token of the source.
  · rcases List.eq_nil_or_concat vs with rfl | ⟨vs, last, rfl⟩
    · obtain ⟨rfl, hfinal⟩ := List.append_inj' htokens rfl
      obtain rfl := List.singleton_inj.mp hfinal
      obtain ⟨e, he, hat⟩ := hr.found.reported
      exact Or.inr ⟨Or.inr ⟨e, hat, (hr.outcome [] none).trans (congrArg _ he)⟩, hfault⟩
    · rw [List.concat_eq_append, ← List.cons_append, ← List.append_assoc] at htokens
      exact Or.inl (hsettled (List.append_inj' htokens rfl).1 hr)

/-- **Scanning on demand agrees with scanning first.**  A source without a fault is read like
the list of its tokens.  A source with a fault is never read to a tree; compare it with the
tokens before the fault and an end of input behind them.  The list is read, or fails with an
error found at one of its tokens.  An error that carries a token before the fault is the error
of the source, and so is the nesting limit reached at such a token.  In all other cases the
source ends with its fault. -/
theorem program_on_demand (limit : Nat) (source : String) :
    ((TokenStream.scan source).fault = none → program limit (TokenStream.scan source) =
      program limit ⟨(TokenStream.scan source).tokens, none⟩) ∧
    let stream := TokenStream.scan source
    ∀ fault, stream.fault = some fault →
      (∀ tree, program limit stream ≠ .ok tree) ∧
      ∀ final : Token, final.kind = .endOfInput →
        let upFront := program limit ⟨stream.tokens ++ [final], none⟩
        ((∃ tree, upFront = .ok tree) ∨
          ∃ e, ∃ t ∈ stream.tokens ++ [final], upFront = .error (.error e) ∧ e.FoundAt t) ∧
        (∀ e, ∀ t ∈ stream.tokens, upFront = .error (.error e) → e.Blames t →
          program limit stream = .error (.error e)) ∧
        (∀ t ∈ stream.tokens, t.range ≠ final.range →
          upFront = .error (.error ⟨.nestedTooDeeply, t.range⟩) →
          program limit stream = .error (.error ⟨.nestedTooDeeply, t.range⟩)) ∧
        ((∀ e, ∀ t ∈ stream.tokens, upFront = .error (.error e) → ¬ e.FoundAt t) →
          program limit stream = .error (.error fault.error)) := by
  have heta : ∀ {stream : TokenStream} {fault}, stream.fault = fault →
      stream = ⟨stream.tokens, fault⟩ := by
    rintro stream fault rfl
    rfl
  refine ⟨fun hnone => congrArg (program limit) (heta hnone), ?_⟩
  intro stream fault hsome
  have hne : stream.fault ≠ none := by
    rw [hsome]
    exact Option.some_ne_none fault
  refine ⟨fun tree hp => hne (fault_eq_none_of_program hp), fun final hf => ?_⟩
  have hk : ∀ t ∈ stream.tokens, t.kind ≠ .endOfInput :=
    TokenStream.kind_ne_endOfInput_of_fault hne
  have hv : ∀ t ∈ stream.tokens, t.Valued := fun t ht =>
    Token.Scannable.valued ⟨source, t, ht, rfl, rfl⟩
  intro upFront
  have hcases := refused_or_fault limit hk hv fault hf
  rw [← heta hsome] at hcases
  rcases hcases with ⟨e, t, ht, hat, hup, hlazy⟩ | ⟨hup, hlazy⟩
  · have hsame : ∀ {e'}, upFront = .error (.error e') →
        program limit stream = .error (.error e') := fun h => hlazy.trans (hup.symm.trans h)
    exact ⟨Or.inr ⟨e, t, List.mem_append_left _ ht, hup, hat⟩, fun _ _ _ h _ => hsame h,
      fun _ _ _ h => hsame h, fun h => absurd hat (h e t ht hup)⟩
  -- An error at the end of input carries no token of the source: none of those ends the input.
  · have hfinal : ∀ {e}, upFront = .error (.error e) → e.FoundAt final := by
      intro e he
      rcases hup with ⟨tree, hup⟩ | ⟨e', hat, hup⟩
      · cases hup.symm.trans he
      · cases hup.symm.trans he
        exact hat
    refine ⟨hup.imp_right fun ⟨e, hat, he⟩ => ⟨e, final, by simp, he, hat⟩, ?_, ?_, fun _ => hlazy⟩
    · intro e t ht he hb
      obtain rfl := hb.eq_of_foundAt (hfinal he)
      exact absurd hf (hk t ht)
    · intro t _ hrange he
      rcases hfinal he with hb | hr
      · exact absurd rfl hb.cause_ne
      · exact absurd (congrArg Error.range hr) hrange

/-- A parenthesis that closes nothing is reported before the fault behind it; a parenthesis that
nothing closes is not, because it is only missed at the end of input. -/
theorem program_on_demand_parentheses :
    (let stream := TokenStream.scan ") #"
     stream.fault = some ⟨'#', ⟨0, 2⟩⟩ ∧
      program nestingLimit stream =
        .error (.error (Error.unexpectedToken ⟨.rightParenthesis, ")", ⟨⟨0, 0⟩, ⟨0, 0⟩⟩⟩))) ∧
    (let stream := TokenStream.scan "( #"
     stream.fault = some ⟨'#', ⟨0, 2⟩⟩ ∧
      program nestingLimit stream =
        .error (.error (ScanFault.error ⟨'#', ⟨0, 2⟩⟩))) := by
  let closing : Token := ⟨.rightParenthesis, ")", ⟨⟨0, 0⟩, ⟨0, 0⟩⟩⟩
  let opening : Token := ⟨.leftParenthesis, "(", ⟨⟨0, 0⟩, ⟨0, 0⟩⟩⟩
  let final : Token := Token.endAt ⟨0, 3⟩
  have hclosing : TokenStream.scan ") #" = ⟨[closing], some ⟨'#', ⟨0, 2⟩⟩⟩ := by decide +kernel
  have hopening : TokenStream.scan "( #" = ⟨[opening], some ⟨'#', ⟨0, 2⟩⟩⟩ := by decide +kernel
  obtain ⟨-, hfault⟩ := program_on_demand nestingLimit ") #"
  obtain ⟨-, hfault'⟩ := program_on_demand nestingLimit "( #"
  rw [hclosing] at hfault ⊢
  rw [hopening] at hfault' ⊢
  refine ⟨⟨rfl, ?_⟩, rfl, ?_⟩
  · obtain ⟨-, hcases⟩ := hfault _ rfl
    obtain ⟨-, hcarried, -⟩ := hcases final rfl
    exact hcarried _ closing (List.mem_singleton_self _) rfl (Or.inl rfl)
  · obtain ⟨-, hcases⟩ := hfault' _ rfl
    obtain ⟨-, -, -, hotherwise⟩ := hcases final rfl
    refine hotherwise fun e t ht he hat => ?_
    have hend : program nestingLimit ⟨[opening] ++ [final], none⟩ =
        .error (.error (Error.unexpectedToken final)) := rfl
    cases hend.symm.trans he
    have hblames : (Error.unexpectedToken final).Blames final := Or.inl rfl
    have heq : final = opening := (hblames.eq_of_foundAt hat).trans (List.mem_singleton.mp ht)
    exact absurd heq (by decide)

/-! ## The nesting limit -/

/-- So many parentheses that open are not read with so few levels. -/
theorem exhausted_leftParentheses {limit : Nat} (minimum : Int) {t : Token}
    {opening : List Token} (others : List Token) (fault : Option ScanFault)
    (ht : t.kind = .leftParenthesis) (ho : ∀ u ∈ opening, u.kind = .leftParenthesis)
    (hl : limit ≤ opening.length) :
    ∃ reached, (levels limit).expression minimum ⟨t, opening ++ others, fault⟩ =
      .error (.limit reached) := by
  induction limit generalizing minimum t opening with
  | zero => exact ⟨t.range, rfl⟩
  | succ limit ih =>
    cases opening with
    | nil => cases hl
    | cons u opening =>
      obtain ⟨reached, hreached⟩ := ih 0 (ho u (List.mem_cons_self ..))
        (fun v hv => ho v (List.mem_cons_of_mem u hv)) (Nat.le_of_succ_le_succ hl)
      refine ⟨reached, ?_⟩
      show expression (levels limit) minimum _ = _
      simp [expression, operand, grouping, Cursor.consume, Cursor.advance, Cursor.take, ht,
        hreached, bind, Except.bind, pure, Except.pure]

/-- A program that begins so is nested too deeply. -/
theorem tooDeep_leftParentheses {limit : Nat} {opening others : List Token}
    {fault : Option ScanFault} (ho : ∀ t ∈ opening, t.kind = .leftParenthesis)
    (hl : limit < opening.length) : TooDeep limit ⟨opening ++ others, fault⟩ := by
  cases opening with
  | nil => cases hl
  | cons t opening =>
    have ht := ho t (List.mem_cons_self ..)
    have hs : ∃ reached, (levels limit).statement ⟨t, opening ++ others, fault⟩ =
        .error (.limit reached) := by
      cases limit with
      | zero => exact ⟨t.range, rfl⟩
      | succ limit =>
        obtain ⟨reached, hreached⟩ := exhausted_leftParentheses 0 others fault ht
          (fun u hu => ho u (List.mem_cons_of_mem t hu)) (Nat.le_of_lt (Nat.lt_of_succ_lt_succ hl))
        refine ⟨reached, ?_⟩
        show statement (levels limit) _ = _
        simp [statement, Cursor.holds, ht, hreached, bind, Except.bind]
    obtain ⟨reached, hreached⟩ := hs
    have hc : Cursor.start ⟨t :: opening ++ others, fault⟩ =
        .ok ⟨t, opening ++ others, fault⟩ := rfl
    refine ⟨reached, ?_⟩
    have hfrom : programFrom limit ⟨t, opening ++ others, fault⟩ = .error (.limit reached) := by
      simp [programFrom, statements, statementsUpTo, Cursor.holds, ht, hreached, bind, Except.bind]
    rw [program_of_start hc, hfrom]
    rfl

/-- Parentheses are scanned one by one. -/
theorem exists_scanFrom_leftParentheses (count : Nat) (p : Position) (rest : List Char) :
    ∃ opening q, opening.length = count ∧ (∀ t ∈ opening, t.kind = .leftParenthesis) ∧
      TokenStream.scanFrom p (List.replicate count '(' ++ rest) =
        ⟨opening ++ (TokenStream.scanFrom q rest).tokens, (TokenStream.scanFrom q rest).fault⟩ := by
  induction count generalizing p with
  | zero => exact ⟨[], p, rfl, by simp, rfl⟩
  | succ count ih =>
    obtain ⟨opening, q, hlength, hkinds, hscan⟩ := ih (p.right 1)
    let first := TokenStream.tokenAt p ⟨.leftParenthesis, '(', []⟩
    have hspells : Lexeme.Spells .leftParenthesis ['('] := .single (by decide)
    have hfirst : TokenStream.scanFrom p (List.replicate (count + 1) '(' ++ rest) =
        TokenStream.cons first
          (TokenStream.scanFrom (p.right 1) (List.replicate count '(' ++ rest)) :=
      TokenStream.scanFrom_spelling hspells trivial p
    refine ⟨first :: opening, q, by simp [hlength], ?_, ?_⟩
    · intro t ht
      rcases List.mem_cons.mp ht with rfl | ht
      · rfl
      · exact hkinds t ht
    · rw [hfirst, hscan]
      rfl

/-- Parentheses that open, and then a character that begins no token. -/
def openedOnly (count : Nat) : String := String.ofList (List.replicate count '(' ++ ['#'])

/-- Of five thousand parentheses and a character that begins no token, the tokens before that
character are read to no error that carries one of them, and yet the source does not end with
its fault: the nesting limit is reached first. -/
theorem nesting_hides_fault :
    ∃ fault, (TokenStream.scan (openedOnly 5000)).fault = some fault ∧
      (∀ final : Token, final.kind = .endOfInput → ∀ e,
        program nestingLimit ⟨(TokenStream.scan (openedOnly 5000)).tokens ++ [final], none⟩ =
          .error (.error e) → ∀ t ∈ (TokenStream.scan (openedOnly 5000)).tokens, ¬ e.Blames t) ∧
      programOf (openedOnly 5000) ≠ .error (.error fault.error) := by
  obtain ⟨opening, q, hlength, hkinds, hscan⟩ :=
    exists_scanFrom_leftParentheses 5000 Position.origin ['#']
  have hstream : TokenStream.scan (openedOnly 5000) = ⟨opening, some ⟨'#', q⟩⟩ := by
    have hfault : TokenStream.scanFrom q ['#'] = ⟨[], some ⟨'#', q⟩⟩ := by
      have hread : Lexeme.read? '#' [] = none := by decide +kernel
      rw [TokenStream.scanFrom, if_neg (by decide), hread]
    rw [hfault, List.append_nil] at hscan
    show TokenStream.scanFrom Position.origin (openedOnly 5000).toList = _
    rw [openedOnly, String.toList_ofList, hscan]
  have hl : nestingLimit < opening.length := by
    rw [hlength]
    decide
  have hdeep : ∀ others fault, TooDeep nestingLimit ⟨opening ++ others, fault⟩ := fun _ _ =>
    tooDeep_leftParentheses hkinds hl
  refine ⟨⟨'#', q⟩, congrArg TokenStream.fault hstream, ?_, ?_⟩
  · intro final hf e he t ht hb
    obtain ⟨reached, hreached⟩ := hdeep [final] none
    rw [hstream] at he
    cases hreached.symm.trans he
    exact hb.cause_ne rfl
  · obtain ⟨reached, hreached⟩ := hdeep [] (some ⟨'#', q⟩)
    rw [List.append_nil] at hreached
    rw [programOf, hstream, hreached]
    rintro ⟨⟩

end Grammar
end HangulScript
