import HangulScript.Proofs.Reading.Passage
import HangulScript.Proofs.Scanning.Stream

/-!
# Readings that follow a language

A reading *follows* a language of token kinds if what it has passed is, at every moment,
the beginning of some member of the language: when it succeeds it has passed a member, and
when it fails it has passed the beginning of one and names the token in hand.  Both outcomes
are *settled* by what was passed and the token in hand; whatever stands behind that token was
not looked at.

Three things about a failure come together here because they need each other.  That the
tokens before it can be completed is shown where the failure arises.  That no completion goes
through the token in hand is then for free: with any other tokens behind it, the reading
would fail in the same way.  And that is also what it means that no further token was pulled.

Following is kept by reading one part and then another (`Follows.bind`), if every member of
the first language can be completed to a member of the whole.  The language of what comes
next is the whole language with the beginning cut off, so every rule of a grammar is proved in
the order in which it reads.
-/

namespace HangulScript

/-! ## Failures at a token -/

/-- The two errors of the grammar that carry a token. -/
def Error.Blames (e : Error) (t : Token) : Prop :=
  e = Error.unexpectedToken t ∨ ∃ kind, e = Error.mismatchedToken kind t

/-- An error carries one token. -/
theorem Error.Blames.unique {e : Error} {t u : Token} (h : e.Blames t) (h' : e.Blames u) :
    t = u := by
  rcases h with rfl | ⟨kind, rfl⟩ <;> rcases h' with h' | ⟨kind', h'⟩ <;> cases h' <;> rfl

namespace ReadingFailure

/-- A failure that is found with a token in hand: it carries the token, or it is the nesting
limit and carries the range of the token. -/
def At : ReadingFailure → Token → Prop
  | .error e, t => e.Blames t
  | .limit reached, t => reached = t.range
  | .notNumeral _, _ => False

/-- A failure that stands behind the tokens of a stream. -/
def OfFault (f : ReadingFailure) (fault : Option ScanFault) : Prop :=
  ∃ x, fault = some x ∧ f = .error x.error

end ReadingFailure

namespace Cursor

variable {c d c' d' : Cursor} {ts : List Token}

/-- Every number token from a cursor on is a numeral. -/
def Valued (c : Cursor) : Prop := ∀ t ∈ c.current :: c.rest, t.Valued

/-- Advancing goes on in the stream, or stays at its end. -/
theorem advance_eq_ok (h : c.advance = .ok d) :
    (∀ t ∈ d.current :: d.rest, t ∈ c.current :: c.rest ∨ t.kind = .endOfInput) ∧
      d.fault = c.fault := by
  obtain ⟨current, rest, fault⟩ := c
  by_cases hk : current.kind = .endOfInput
  · simp only [advance, hk, if_true, Except.ok.injEq] at h
    exact h ▸ ⟨fun t ht => Or.inl ht, rfl⟩
  · simp only [advance, hk, if_false] at h
    cases rest with
    | cons u more =>
      cases h
      exact ⟨fun t ht => Or.inl (List.mem_cons_of_mem _ ht), rfl⟩
    | nil =>
      cases fault with
      | some fault => cases h
      | none =>
        cases h
        exact ⟨fun t ht => Or.inr (List.mem_singleton.mp ht ▸ rfl), rfl⟩

/-- There is no first token only if the fault stands there. -/
theorem take_eq_error {stream : TokenStream} {dry : Position} {f : ReadingFailure}
    (h : take stream dry = .error f) : f.OfFault stream.fault := by
  unfold take at h
  split at h
  next => cases h
  next fault _ hfault =>
    cases h
    exact ⟨fault, hfault, rfl⟩
  next => cases h

/-- Advancing fails only with the fault of the stream. -/
theorem advance_eq_error {f : ReadingFailure} (h : c.advance = .error f) : f.OfFault c.fault := by
  unfold advance at h
  split at h
  · cases h
  · exact take_eq_error h

theorem Valued.advance (hv : c.Valued) (h : c.advance = .ok d) : d.Valued := by
  intro t ht hk
  rcases (advance_eq_ok h).1 t ht with hm | he
  · exact hv t hm hk
  · rw [hk] at he
    cases he

/-- The first cursor of a stream holds its tokens, or an end of input, and its fault. -/
theorem valued_of_take {tokens : List Token} {fault : Option ScanFault} {dry : Position}
    (h : take ⟨tokens, fault⟩ dry = .ok c) (hv : ∀ t ∈ tokens, t.Valued) :
    c.Valued ∧ c.fault = fault := by
  cases tokens with
  | cons t rest =>
    cases h
    exact ⟨hv, rfl⟩
  | nil =>
    cases fault with
    | some fault => cases h
    | none =>
      cases h
      refine ⟨fun t ht hk => ?_, rfl⟩
      rw [List.mem_singleton.mp ht] at hk
      cases hk

theorem Passes.valued (h : c.Passes ts d) (hv : c.Valued) : d.Valued := by
  induction ts generalizing c with
  | nil => exact passes_nil.mp h ▸ hv
  | cons t ts ih =>
    obtain ⟨-, -, e, ha, he⟩ := passes_cons.mp h
    exact ih he (hv.advance ha)

theorem Passes.fault_eq (h : c.Passes ts d) : d.fault = c.fault := by
  induction ts generalizing c with
  | nil => exact passes_nil.mp h ▸ rfl
  | cons t ts ih =>
    obtain ⟨-, -, e, ha, he⟩ := passes_cons.mp h
    exact (ih he).trans (advance_eq_ok ha).2

/-- Two cursors that pass the same tokens to the same token have the same in hand. -/
theorem Passes.current_congr (h : c.Passes ts d) (h' : c'.Passes ts d')
    (hd : d'.current = d.current) : c'.current = c.current := by
  cases ts with
  | nil => rwa [passes_nil.mp h, passes_nil.mp h']
  | cons t ts => rw [h.current_eq, h'.current_eq]

/-- An end of input is not passed. -/
theorem Passes.kind_ne (h : c.Passes ts d) : ∀ t ∈ ts, t.kind ≠ .endOfInput := by
  induction ts generalizing c with
  | nil =>
    intro t ht
    cases ht
  | cons u ts ih =>
    obtain ⟨-, hk, e, -, he⟩ := passes_cons.mp h
    intro t ht
    rcases List.mem_cons.mp ht with rfl | ht
    · exact hk
    · exact ih he t ht

/-- What is passed on the way to the end of input begins with what is passed on the way to
anywhere, and the token in hand there comes next. -/
theorem Passes.exists_append {us : List Token} {e : Cursor} (h : c.Passes ts d)
    (h' : c.Passes us e) (he : e.current.kind = .endOfInput) :
    ∃ vs, us ++ [e.current] = ts ++ d.current :: vs := by
  induction ts generalizing c us with
  | nil =>
    obtain rfl := passes_nil.mp h
    cases us with
    | nil =>
      obtain rfl := passes_nil.mp h'
      exact ⟨[], rfl⟩
    | cons u us => exact ⟨us ++ [e.current], by rw [h'.current_eq]; rfl⟩
  | cons t ts ih =>
    obtain ⟨ht, hk, f, ha, hf⟩ := passes_cons.mp h
    cases us with
    | nil =>
      obtain rfl := passes_nil.mp h'
      exact absurd (ht ▸ he) hk
    | cons u us =>
      obtain ⟨hu, -, g, hb, hg⟩ := passes_cons.mp h'
      rw [ha] at hb
      cases hb
      obtain ⟨vs, hvs⟩ := ih hf hg
      exact ⟨vs, by rw [List.cons_append, List.cons_append, hvs, ← ht, ← hu]⟩

/-- In a stream that is cut short, the token in hand is always one of its own. -/
theorem Passes.exists_tokens {tokens : List Token} {fault : ScanFault} {dry : Position}
    (h : c.Passes ts d) (hc : take ⟨tokens, some fault⟩ dry = .ok c) :
    ∃ vs, tokens = ts ++ d.current :: vs := by
  induction ts generalizing c tokens dry with
  | nil =>
    obtain rfl := passes_nil.mp h
    cases tokens with
    | nil => cases hc
    | cons u us =>
      cases hc
      exact ⟨us, rfl⟩
  | cons t ts ih =>
    obtain ⟨rfl, hk, e, ha, he⟩ := passes_cons.mp h
    cases tokens with
    | nil => cases hc
    | cons u us =>
      cases hc
      simp only [advance, hk, if_false] at ha
      obtain ⟨vs, rfl⟩ := ih he ha
      exact ⟨vs, rfl⟩

/-- A stream that begins with some tokens and another one is read from a cursor that passes
the former to the latter. -/
theorem exists_passes_of_append {t : Token} (more : List Token) (fault : Option ScanFault)
    (dry : Position) (h : ∀ u ∈ ts, u.kind ≠ .endOfInput) :
    ∃ c d, take ⟨ts ++ t :: more, fault⟩ dry = .ok c ∧ c.Passes ts d ∧ d.current = t := by
  induction ts generalizing dry with
  | nil => exact ⟨⟨t, more, fault⟩, _, rfl, rfl, rfl⟩
  | cons u ts ih =>
    obtain ⟨c, d, hc, hp, hd⟩ := ih u.range.last fun v hv => h v (List.mem_cons_of_mem u hv)
    have hk := h u (List.mem_cons_self ..)
    refine ⟨⟨u, ts ++ t :: more, fault⟩, d, rfl, ⟨rfl, hk, c, ?_, hp⟩, hd⟩
    simp only [advance, hk, if_false]
    exact hc

end Cursor

namespace Grammar

variable {α β : Type} {c d e : Cursor} {ts us : List Token} {t u : Token}

/-! ## Settled outcomes -/

/-- Wherever a reading passes these tokens and then has this one in hand, it ends there, with
this outcome. -/
def Settles (reading : Reading α) (ts : List Token) (t : Token)
    (outcome : Cursor → Except ReadingFailure (α × Cursor)) : Prop :=
  ∀ c d : Cursor, c.Passes ts d → d.current = t → reading c = outcome d

/-- A reading that looks at the token in hand only is settled there. -/
theorem settles_nil {reading : Reading α}
    {outcome : Cursor → Except ReadingFailure (α × Cursor)}
    (h : ∀ c : Cursor, c.current = t → reading c = outcome c) : Settles reading [] t outcome := by
  intro c d hp hd
  obtain rfl := Cursor.passes_nil.mp hp
  exact h c hd

/-- What comes second settles the outcome of both, if the first was settled. -/
theorem Settles.bind {x : Reading α} {f : α × Cursor → Except ReadingFailure (β × Cursor)} {a : α}
    {outcome : Cursor → Except ReadingFailure (β × Cursor)}
    (hx : Settles x ts d.current fun e => .ok (a, e)) (hp : d.Passes us e)
    (hf : Settles (fun d => f (a, d)) us e.current outcome) :
    Settles (fun c => x c >>= f) (ts ++ us) e.current outcome := by
  intro c' e' hp' he
  obtain ⟨d', h₁, h₂⟩ := Cursor.passes_append.mp hp'
  have hx' : x c' = .ok (a, d') := hx c' d' h₁ (hp.current_congr h₂ he)
  show x c' >>= f = outcome e'
  rw [hx']
  exact hf d' e' h₂ he

/-! ## Following -/

/-- These kinds begin a member of a language. -/
def Begins (language : List TokenKind → Prop) (kinds : List TokenKind) : Prop :=
  ∃ rest, language (kinds ++ rest)

/-- The beginning of a beginning is a beginning. -/
theorem Begins.of_append {language : List TokenKind → Prop} {kinds more : List TokenKind}
    (h : Begins language (kinds ++ more)) : Begins language kinds := by
  obtain ⟨rest, h⟩ := h
  exact ⟨more ++ rest, by rwa [← List.append_assoc]⟩

/-- A reading passes a member of a language, or the beginning of one and fails at the token in
hand, or meets the fault of its stream; and nothing behind the token in hand was looked at. -/
structure Follows (language : List TokenKind → Prop) (reading : Reading α) (c : Cursor) :
    Prop where
  ok : c.Valued → ∀ {a : α} {d : Cursor}, reading c = .ok (a, d) →
    ∃ ts, c.Passes ts d ∧ language (ts.map Token.kind) ∧
      Settles reading ts d.current fun e => .ok (a, e)
  error : c.Valued → ∀ {f : ReadingFailure}, reading c = .error f →
    f.OfFault c.fault ∨ ∃ ts d, c.Passes ts d ∧ f.At d.current ∧
      Begins language (ts.map Token.kind) ∧ Settles reading ts d.current fun _ => .error f

namespace Follows

variable {language first whole : List TokenKind → Prop}

theorem of_valued {reading : Reading α} (h : c.Valued → Follows language reading c) :
    Follows language reading c :=
  ⟨fun hv => (h hv).ok hv, fun hv => (h hv).error hv⟩

/-- Reading nothing follows a language of which nothing is a member. -/
theorem pure {a : α} (h : language []) : Follows language (fun c => .ok (a, c)) c := by
  refine ⟨?_, ?_⟩
  · rintro - a' d hr
    cases hr
    exact ⟨[], rfl, h, settles_nil fun c _ => rfl⟩
  · rintro - f hr
    cases hr

/-- Failing at the token in hand follows every language that has a member. -/
theorem fail {reading : Reading α} {f : ReadingFailure} (h : ∃ ks, language ks)
    (hf : f.At c.current) (hr : ∀ c' : Cursor, c'.current = c.current → reading c' = .error f) :
    Follows language reading c := by
  refine ⟨?_, ?_⟩
  · rintro - a d he
    rw [hr c rfl] at he
    cases he
  · rintro - g he
    rw [hr c rfl] at he
    cases he
    exact Or.inr ⟨[], c, rfl, hf, h, settles_nil hr⟩

/-- The token in hand decides which reading it is. -/
theorem of_current {reading other : Reading α} (h : Follows language other c)
    (hr : ∀ c' : Cursor, c'.current = c.current → reading c' = other c') :
    Follows language reading c := by
  have hs : ∀ {ts : List Token} {d : Cursor} {outcome}, c.Passes ts d →
      Settles other ts d.current outcome → Settles reading ts d.current outcome := by
    intro ts d outcome hp hs c' d' hp' hd
    rw [hr c' (hp.current_congr hp' hd)]
    exact hs c' d' hp' hd
  refine ⟨?_, ?_⟩
  · intro hv a d he
    rw [hr c rfl] at he
    obtain ⟨ts, hp, hl, hso⟩ := h.ok hv he
    exact ⟨ts, hp, hl, hs hp hso⟩
  · intro hv f he
    rw [hr c rfl] at he
    refine (h.error hv he).imp_right ?_
    rintro ⟨ts, d, hp, hat, hb, hso⟩
    exact ⟨ts, d, hp, hat, hb, hs hp hso⟩

/-- A test of the token in hand is part of what is settled. -/
theorem ite {p : Cursor → Prop} [DecidablePred p] {yes no : Reading α}
    (hp : ∀ c' : Cursor, c'.current = c.current → (p c' ↔ p c))
    (hy : p c → Follows language yes c) (hn : ¬ p c → Follows language no c) :
    Follows language (fun c => if p c then yes c else no c) c := by
  by_cases h : p c
  · exact (hy h).of_current fun c' hc => if_pos ((hp c' hc).mpr h)
  · exact (hn h).of_current fun c' hc => if_neg fun h' => h ((hp c' hc).mp h')

/-- **One part after another.**  The first language is that of the first part, and every
member of it begins a member of the whole; what the second part has to follow is what is
left. -/
theorem bind {x : Reading α} {f : α × Cursor → Except ReadingFailure (β × Cursor)}
    (hx : Follows first x c) (hw : ∀ ks, first ks → Begins whole ks)
    (hf : ∀ a d ks, x c = .ok (a, d) → first ks →
      Follows (fun ls => whole (ks ++ ls)) (fun d => f (a, d)) d) :
    Follows whole (fun c => x c >>= f) c := by
  refine ⟨?_, ?_⟩
  · intro hv b e hr
    obtain ⟨⟨a, d⟩, ha, hb⟩ := except_bind_eq_ok.mp hr
    obtain ⟨ts, hts, hl, hs⟩ := hx.ok hv ha
    obtain ⟨us, hus, hl', hs'⟩ := (hf a d _ ha hl).ok (hts.valued hv) hb
    exact ⟨ts ++ us, hts.trans hus, by rwa [List.map_append], hs.bind hus hs'⟩
  · intro hv g hr
    cases ha : x c with
    | error g' =>
      obtain rfl : g' = g := by
        rw [ha] at hr
        exact Except.error.inj hr
      refine (hx.error hv ha).imp_right ?_
      rintro ⟨ts, d, hp, hat, ⟨rest, hrest⟩, hs⟩
      refine ⟨ts, d, hp, hat, (hw _ hrest).of_append, ?_⟩
      intro c' d' hp' hd
      show x c' >>= f = _
      rw [hs c' d' hp' hd]
      rfl
    | ok r =>
      obtain ⟨a, d⟩ := r
      rw [ha] at hr
      obtain ⟨ts, hts, hl, hs⟩ := hx.ok hv ha
      rw [← hts.fault_eq]
      refine ((hf a d _ ha hl).error (hts.valued hv) hr).imp_right ?_
      rintro ⟨us, e, hus, hat, ⟨rest, hrest⟩, hs'⟩
      refine ⟨ts ++ us, e, hts.trans hus, hat, ⟨rest, ?_⟩, hs.bind hus hs'⟩
      rwa [List.map_append, List.append_assoc]

/-- The same language, written in another way. -/
theorem mono {reading : Reading α} (h : Follows first reading c)
    (hl : ∀ ks, first ks → whole ks) : Follows whole reading c := by
  refine ⟨?_, ?_⟩
  · intro hv a d hr
    obtain ⟨ts, hp, hm, hs⟩ := h.ok hv hr
    exact ⟨ts, hp, hl _ hm, hs⟩
  · intro hv f hr
    refine (h.error hv hr).imp_right ?_
    rintro ⟨ts, d, hp, hat, ⟨rest, hm⟩, hs⟩
    exact ⟨ts, d, hp, hat, ⟨rest, hl _ hm⟩, hs⟩

/-! ## Steps over one token -/

/-- Going on behind the token in hand. -/
theorem advance {f : Cursor → Except ReadingFailure (β × Cursor)}
    (hk : c.current.kind ≠ .endOfInput) (hw : Begins whole [c.current.kind])
    (hf : ∀ d, c.advance = .ok d → Follows (fun ls => whole (c.current.kind :: ls)) f d) :
    Follows whole (fun c => c.advance >>= f) c := by
  have hx : Follows (· = [c.current.kind]) (fun c => c.advance.map fun d => ((), d)) c := by
    refine ⟨?_, ?_⟩
    · rintro - a d hr
      cases ha : c.advance with
      | error g =>
        rw [ha] at hr
        cases hr
      | ok d' =>
        rw [ha] at hr
        cases hr
        refine ⟨[c.current], Cursor.passes_current ha hk, rfl, ?_⟩
        intro c' d' hp hd
        obtain ⟨-, -, e, he, rfl⟩ := Cursor.passes_cons.mp hp
        show c'.advance.map _ = _
        rw [he]
        rfl
    · rintro - g hr
      cases ha : c.advance with
      | error g' =>
        rw [ha] at hr
        cases hr
        exact Or.inl (Cursor.advance_eq_error ha)
      | ok d' =>
        rw [ha] at hr
        cases hr
  refine (hx.bind (f := fun r => f r.2) (fun ks hks => hks ▸ hw) ?_).of_current ?_
  · rintro a d ks hr rfl
    refine hf d ?_
    cases ha : c.advance with
    | error g =>
      rw [ha] at hr
      cases hr
    | ok d' =>
      rw [ha] at hr
      cases hr
      rfl
  · intro c' _
    cases c'.advance <;> rfl

/-- Going on behind a token of a kind. -/
theorem consume {kind : TokenKind} {f : Token × Cursor → Except ReadingFailure (β × Cursor)}
    (he : kind ≠ .endOfInput) (hw : Begins whole [kind])
    (hf : ∀ t d, c.current.kind = kind → c.advance = .ok d →
      Follows (fun ls => whole (kind :: ls)) (fun d => f (t, d)) d) :
    Follows whole (fun c => c.consume kind >>= f) c := by
  by_cases hk : c.current.kind = kind
  · subst hk
    refine (advance he hw (hf c.current · rfl)).of_current fun c' hc => ?_
    simp only [Cursor.consume, hc, if_true]
    cases c'.advance <;> rfl
  · obtain ⟨rest, hr⟩ := hw
    refine fail (f := .error (Error.mismatchedToken kind c.current)) ⟨_, hr⟩
      (Or.inr ⟨kind, rfl⟩) fun c' hc => ?_
    simp only [Cursor.consume, hc, hk, if_false]
    rfl

end Follows
end Grammar
end HangulScript
