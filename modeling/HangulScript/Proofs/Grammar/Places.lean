import HangulScript.Proofs.Grammar.EarliestErrors

/-!
# Places in a list of tokens

The parser goes through a list of tokens and never through anything else.  What it can meet is
the list up to and with its first end of input, or with one supplied (`TokenStream.complete`);
a *place* is an index into that, and a cursor stands at the place up to which it was advanced.

Reading takes a cursor from one place to a later one, and what is between the two places is
what was passed (`standsAt_of_passes`).  That there is something between them is what the loops
need to end, and it was shown where their bounds were taken away (`consuming_levels`).

## Why nothing behind the end of input matters

An outcome is settled by the tokens that were passed and the one in hand (`Follows`).  Two lists
that are completed to the same have the same tokens at the same places, so a reading that is
settled at a place of one list is settled in the same way at that place of the other.  No rule
is gone through again.
-/

namespace HangulScript

/-! ## Cursors at places -/

namespace Cursor

variable {tokens other : List Token} {i j : Nat} {c d : Cursor} {ts : List Token}

/-- Passing the same tokens leads to one cursor. -/
theorem Passes.right_unique (h : c.Passes ts d) {e : Cursor} (h' : c.Passes ts e) : d = e := by
  induction ts generalizing c with
  | nil => exact (passes_nil.mp h).symm.trans (passes_nil.mp h')
  | cons t ts ih =>
    obtain ⟨-, -, f, hf, hd⟩ := passes_cons.mp h
    obtain ⟨-, -, g, hg, he⟩ := passes_cons.mp h'
    rw [hf] at hg
    cases hg
    exact ih hd he

/-- Every token that is passed is one less to consume. -/
theorem Passes.remaining_add_le (h : c.Passes ts d) : d.remaining + ts.length ≤ c.remaining := by
  induction ts generalizing c with
  | nil => exact passes_nil.mp h ▸ Nat.le_refl _
  | cons t ts ih =>
    obtain ⟨rfl, hk, e, ha, he⟩ := passes_cons.mp h
    have h₁ := ih he
    have h₂ := remaining_advance_lt ha hk
    rw [List.length_cons]
    omega

/-- A cursor stands at a place of a list of tokens: it is reached from the beginning by passing
the tokens before the place, and the token there is in hand. -/
def StandsAt (tokens : List Token) (i : Nat) (c : Cursor) : Prop :=
  ∃ first, start ⟨tokens, none⟩ = .ok first ∧
    first.Passes ((TokenStream.complete tokens).take i) c ∧
    (TokenStream.complete tokens)[i]? = some c.current

/-- One cursor stands at every place up to the end of input, and it goes on to all later
places. -/
theorem exists_standsAt (tokens : List Token) {i : Nat}
    (hi : i < (TokenStream.complete tokens).length) : ∃ c, StandsAt tokens i c := by
  obtain ⟨first, last, body, hc, hp, -, hcomplete⟩ := TokenStream.exists_passes_of_start tokens
  have hlen : i ≤ body.length := by
    rw [hcomplete, List.length_append] at hi
    exact Nat.le_of_lt_succ hi
  rw [← List.take_append_drop i body] at hp
  obtain ⟨c, h₁, h₂⟩ := passes_append.mp hp
  refine ⟨c, first, hc, ?_, ?_⟩
  · rwa [hcomplete, List.take_append_of_le_length hlen]
  · rw [hcomplete, List.getElem?_append, ← List.head?_drop]
    cases hdrop : body.drop i with
    | nil =>
      have hi' : i = body.length := Nat.le_antisymm hlen (List.drop_eq_nil_iff.mp hdrop)
      rw [hdrop] at h₂
      rw [passes_nil.mp h₂, if_neg (by omega), hi', Nat.sub_self]
      rfl
    | cons t ts =>
      have hi' : i < body.length := by
        refine Nat.lt_of_not_le fun h => ?_
        rw [List.drop_eq_nil_iff.mpr h] at hdrop
        cases hdrop
      rw [hdrop] at h₂
      rw [if_pos hi', h₂.current_eq]
      rfl

/-- The first place is where a list begins. -/
theorem exists_start (tokens : List Token) :
    ∃ c, start ⟨tokens, none⟩ = .ok c ∧ StandsAt tokens 0 c := by
  obtain ⟨_, _, _, -, -, -, hcomplete⟩ := TokenStream.exists_passes_of_start tokens
  obtain ⟨c, first, hf, hp, hc⟩ := exists_standsAt tokens (i := 0) (by rw [hcomplete]; simp)
  cases passes_nil.mp hp
  exact ⟨c, hf, c, hf, hp, hc⟩

theorem StandsAt.lt_length (h : StandsAt tokens i c) : i < (TokenStream.complete tokens).length := by
  obtain ⟨-, -, -, hi⟩ := h
  exact (List.getElem?_eq_some_iff.mp hi).1

/-- What is passed from a place on is what the list has between that place and the one that it
leads to. -/
theorem standsAt_of_passes (h : StandsAt tokens i c) (hp : c.Passes ts d) :
    StandsAt tokens (i + ts.length) d ∧ ts = ((TokenStream.complete tokens).drop i).take ts.length := by
  have hlen := h.lt_length
  obtain ⟨first, hf, hfirst, -⟩ := h
  obtain ⟨first', last, body, hf', hbody, hlast, hcomplete⟩ :=
    TokenStream.exists_passes_of_start tokens
  rw [hf] at hf'
  cases hf'
  have hall := hfirst.trans hp
  obtain ⟨vs, hvs⟩ := hall.exists_append hbody hlast
  rw [← hcomplete] at hvs
  have hi : ((TokenStream.complete tokens).take i).length = i :=
    List.length_take_of_le (Nat.le_of_lt hlen)
  have hdrop : (TokenStream.complete tokens).drop i = ts ++ d.current :: vs := by
    have hsplit := List.take_append_drop i (TokenStream.complete tokens)
    rw [List.append_assoc] at hvs
    exact List.append_cancel_left (hsplit.trans hvs)
  refine ⟨⟨first, hf, ?_, ?_⟩, ?_⟩
  · rwa [List.take_add, hdrop, List.take_left]
  · rw [← List.getElem?_drop, hdrop, List.getElem?_append_right (Nat.le_refl _), Nat.sub_self]
    rfl
  · rw [hdrop, List.take_left]

/-- From a place one goes on to every later one. -/
theorem StandsAt.exists_passes (h : StandsAt tokens i c) (hd : StandsAt tokens j d) (hij : i ≤ j) :
    c.Passes (((TokenStream.complete tokens).drop i).take (j - i)) d := by
  obtain ⟨first, hf, hc, -⟩ := h
  obtain ⟨first', hf', hd, -⟩ := hd
  rw [hf] at hf'
  cases hf'
  obtain ⟨k, rfl⟩ := Nat.exists_eq_add_of_le hij
  rw [List.take_add] at hd
  obtain ⟨e, h₁, h₂⟩ := passes_append.mp hd
  rw [hc.right_unique h₁, Nat.add_sub_cancel_left]
  exact h₂

/-- A cursor stands at one place only. -/
theorem StandsAt.place_unique (h : StandsAt tokens i c) (h' : StandsAt tokens j c) : i = j := by
  have hle : ∀ {i j}, StandsAt tokens i c → StandsAt tokens j c → j ≤ i := by
    intro i j hi hj
    refine Nat.le_of_not_lt fun hij => ?_
    have hr := (hi.exists_passes hj (Nat.le_of_lt hij)).remaining_add_le
    have hj := hj.lt_length
    rw [List.length_take, List.length_drop] at hr
    omega
  exact Nat.le_antisymm (hle h' h) (hle h h')

/-- Lists that are completed to the same are passed in the same way. -/
theorem Passes.of_complete_eq (heq : TokenStream.complete tokens = TokenStream.complete other)
    (h : StandsAt tokens i c) {c' : Cursor} (h' : StandsAt other i c') (hp : c.Passes ts d) :
    ∃ d', c'.Passes ts d' ∧ d'.current = d.current ∧ StandsAt other (i + ts.length) d' := by
  obtain ⟨hd, hts⟩ := standsAt_of_passes h hp
  obtain ⟨d', hd'⟩ := exists_standsAt other (heq ▸ hd.lt_length)
  have hp' := h'.exists_passes hd' (Nat.le_add_right i ts.length)
  rw [Nat.add_sub_cancel_left, ← heq, ← hts] at hp'
  obtain ⟨-, -, -, hcur⟩ := hd
  obtain ⟨-, -, -, hcur'⟩ := id hd'
  rw [heq, hcur'] at hcur
  exact ⟨d', hp', Option.some.inj hcur, hd'⟩

theorem StandsAt.valued (h : StandsAt tokens i c) (hv : ∀ t ∈ tokens, t.Valued) :
    c.Valued ∧ c.fault = none := by
  obtain ⟨first, hf, hp, -⟩ := h
  obtain ⟨hvalued, hfault⟩ := valued_of_take hf hv
  exact ⟨hp.valued hvalued, hp.fault_eq.trans hfault⟩

theorem StandsAt.remaining_le (h : StandsAt tokens i c) : c.remaining ≤ tokens.length := by
  obtain ⟨first, hf, hp, -⟩ := h
  have h₁ := hp.remaining_add_le
  have h₂ : first.remaining ≤ tokens.length := Grammar.remaining_start_le hf
  omega

end Cursor

/-! ## What a list is completed to -/

namespace TokenStream

/-- Where the last token of a list ends, or the origin. -/
def lastEnd (tokens : List Token) : Position :=
  tokens.getLast?.elim Position.origin fun t => t.range.last

theorem ended_append {front : List Token} {eof : Token} (dry : Position) (more : List Token)
    (hf : ∀ t ∈ front, t.kind ≠ .endOfInput) (he : eof.kind = .endOfInput) :
    ended dry (front ++ eof :: more) = front ++ [eof] := by
  induction front generalizing dry with
  | nil => simp only [List.nil_append, ended, he, if_true]
  | cons t front ih =>
    simp only [List.cons_append, ended, hf t (List.mem_cons_self ..), if_false,
      ih _ fun u hu => hf u (List.mem_cons_of_mem t hu)]

theorem ended_of_forall {tokens : List Token} (dry : Position)
    (hk : ∀ t ∈ tokens, t.kind ≠ .endOfInput) :
    ended dry tokens = tokens ++ [Token.endAt (tokens.getLast?.elim dry fun t => t.range.last)] := by
  induction tokens generalizing dry with
  | nil => rfl
  | cons t tokens ih =>
    simp only [ended, hk t (List.mem_cons_self ..), if_false,
      ih _ fun u hu => hk u (List.mem_cons_of_mem t hu), List.cons_append]
    cases tokens <;> rfl

/-- Nothing behind the first end of input is met. -/
theorem complete_append {front : List Token} {eof : Token} (more : List Token)
    (hf : ∀ t ∈ front, t.kind ≠ .endOfInput) (he : eof.kind = .endOfInput) :
    complete (front ++ eof :: more) = front ++ [eof] := ended_append _ more hf he

/-- An end of input is supplied where the last token ended. -/
theorem complete_of_forall {tokens : List Token} (hk : ∀ t ∈ tokens, t.kind ≠ .endOfInput) :
    complete tokens = tokens ++ [Token.endAt (lastEnd tokens)] := ended_of_forall _ hk

end TokenStream

namespace Grammar

variable {tokens other : List Token} {i : Nat} {c c' d : Cursor} {limit : Nat}

/-! ## Outcomes at places -/

/-- Two outcomes, each in a list of its own, are the same failure, or give the same and lead to
the same place. -/
def SameOutcome {α : Type} (tokens other : List Token)
    (x y : Except ReadingFailure (α × Cursor)) : Prop :=
  (∀ failure, x = .error failure ↔ y = .error failure) ∧
    ∀ a j, (∃ d, x = .ok (a, d) ∧ d.StandsAt tokens j) ↔ ∃ d, y = .ok (a, d) ∧ d.StandsAt other j

/-- What a reading that follows a language does at a place of one list, it does at that place of
another that is completed to the same. -/
theorem Follows.carried {α : Type} {language : List TokenKind → Prop} {reading : Reading α}
    (h : Follows language reading c) (hv : ∀ t ∈ tokens, t.Valued)
    (heq : TokenStream.complete tokens = TokenStream.complete other)
    (hc : c.StandsAt tokens i) (hc' : c'.StandsAt other i) :
    (∀ failure, reading c = .error failure → reading c' = .error failure) ∧
      ∀ a d, reading c = .ok (a, d) →
        ∃ j d', reading c' = .ok (a, d') ∧ d.StandsAt tokens j ∧ d'.StandsAt other j := by
  obtain ⟨hvalued, hfault⟩ := hc.valued hv
  constructor
  · intro failure hr
    rcases h.error hvalued hr with ⟨fault, hf, -⟩ | ⟨ts, d, hp, -, -, hs⟩
    · rw [hfault] at hf
      cases hf
    · obtain ⟨d', hp', hcur, -⟩ := hp.of_complete_eq heq hc hc'
      exact hs c' d' hp' hcur
  · intro a d hr
    obtain ⟨ts, hp, -, hs⟩ := h.ok hvalued hr
    obtain ⟨d', hp', hcur, hd'⟩ := hp.of_complete_eq heq hc hc'
    exact ⟨_, d', hs c' d' hp' hcur, (Cursor.standsAt_of_passes hc hp).1, hd'⟩

/-- What follows a language at every place has the same outcomes in both lists. -/
theorem sameOutcome_of_follows {α : Type} {language : List TokenKind → Prop} {reading : Reading α}
    (h : ∀ c, Follows language reading c) (hv : ∀ t ∈ tokens, t.Valued)
    (hv' : ∀ t ∈ other, t.Valued)
    (heq : TokenStream.complete tokens = TokenStream.complete other)
    (hc : c.StandsAt tokens i) (hc' : c'.StandsAt other i) :
    SameOutcome tokens other (reading c) (reading c') := by
  obtain ⟨herror, hok⟩ := (h c).carried hv heq hc hc'
  obtain ⟨herror', hok'⟩ := (h c').carried hv' heq.symm hc' hc
  refine ⟨fun failure => ⟨herror failure, herror' failure⟩, fun a j => ⟨?_, ?_⟩⟩
  · rintro ⟨d, hr, hd⟩
    obtain ⟨k, d', hr', hk, hd'⟩ := hok a d hr
    exact ⟨d', hr', hd.place_unique hk ▸ hd'⟩
  · rintro ⟨d, hr, hd⟩
    obtain ⟨k, d', hr', hk, hd'⟩ := hok' a d hr
    exact ⟨d', hr', hd.place_unique hk ▸ hd'⟩

/-- Programs are read from the first places of their lists. -/
theorem program_eq_of_complete_eq (limit : Nat) (hv : ∀ t ∈ tokens, t.Valued)
    (heq : TokenStream.complete tokens = TokenStream.complete other) :
    program limit ⟨tokens, none⟩ = program limit ⟨other, none⟩ := by
  obtain ⟨c, hc, hs⟩ := Cursor.exists_start tokens
  obtain ⟨c', hc', hs'⟩ := Cursor.exists_start other
  have hfirst : c'.current = c.current := by
    obtain ⟨-, -, -, h⟩ := hs
    obtain ⟨-, -, -, h'⟩ := hs'
    rw [heq, h'] at h
    exact Option.some.inj h
  have hf := follows_statements (consuming_levels limit) (following_levels limit) .endOfInput c
  obtain ⟨herror, hok⟩ := hf.carried hv heq hs hs'
  rw [program_of_start hc, program_of_start hc', programFrom, programFrom, hfirst]
  cases hr : statements (levels limit) .endOfInput c with
  | error failure => rw [herror failure hr]
  | ok r =>
    obtain ⟨-, d', hr', -, -⟩ := hok r.1 r.2 hr
    rw [hr']
    rfl

/-! ## Fragments -/

/-- What can be asked for at a place. -/
inductive Fragment where
  | expression (minimum : Int)
  | statement
  | block

/-- The reading of a fragment at some level. -/
def Level.read (level : Level) : Fragment → Reading Node
  | .expression minimum => level.expression minimum
  | .statement => level.statement
  | .block => level.block

/-- Lists that are completed to the same have the same outcomes: of the whole as a program, and
of every fragment at every place. -/
def SameOutcomes (tokens other : List Token) : Prop :=
  ∀ limit, program limit ⟨tokens, none⟩ = program limit ⟨other, none⟩ ∧
    ∀ (fragment : Fragment) (i : Nat) (c c' : Cursor), c.StandsAt tokens i → c'.StandsAt other i →
      SameOutcome tokens other ((levels limit).read fragment c) ((levels limit).read fragment c')

theorem sameOutcomes_of_complete_eq (hv : ∀ t ∈ tokens, t.Valued) (hv' : ∀ t ∈ other, t.Valued)
    (heq : TokenStream.complete tokens = TokenStream.complete other) :
    SameOutcomes tokens other := by
  intro limit
  refine ⟨program_eq_of_complete_eq limit hv heq, fun fragment i c c' hc hc' => ?_⟩
  have hf := following_levels limit
  cases fragment with
  | expression minimum => exact sameOutcome_of_follows (hf.expression minimum) hv hv' heq hc hc'
  | statement => exact sameOutcome_of_follows hf.statement hv hv' heq hc hc'
  | block => exact sameOutcome_of_follows hf.block hv hv' heq hc hc'

/-- With enough levels for the length of a list, no fragment at any place of it reaches the
limit. -/
theorem unlimited_read (hl : 2 * tokens.length + 1 < limit) (hc : c.StandsAt tokens i)
    (fragment : Fragment) : Unlimited ((levels limit).read fragment c) := by
  have hr := hc.remaining_le
  have ha := ample_levels limit
  cases fragment with
  | expression minimum => exact ha.expression (by omega)
  | statement => exact ha.statement (by omega)
  | block => exact ha.block (by omega)

theorem Unlimited.ne_limit {α : Type} {x : Except ReadingFailure α} (h : Unlimited x)
    (reached : Range) : x ≠ .error (.limit reached) :=
  fun hx => h _ reached hx rfl

theorem approximates_read {limit' : Nat} (hl : limit ≤ limit') (fragment : Fragment) (c : Cursor) :
    Approximates ((levels limit).read fragment c) ((levels limit').read fragment c) := by
  have ha := approximates_levels hl
  cases fragment with
  | expression minimum => exact ha.expression minimum c
  | statement => exact ha.statement c
  | block => exact ha.block c

/-- A fragment that is read is passed, and it is not empty. -/
theorem exists_passes_of_read {fragment : Fragment} {n : Node}
    (h : (levels limit).read fragment c = .ok (n, d)) : ∃ ts, ts ≠ [] ∧ c.Passes ts d := by
  have hconsumes : Consumes ((levels limit).read fragment) := by
    cases fragment with
    | expression minimum => exact (consuming_levels limit).expression minimum
    | statement => exact (consuming_levels limit).statement
    | block => exact (consuming_levels limit).block
  have hpasses : ∃ ts, c.Passes ts d := by
    cases limit with
    | zero => cases fragment <;> cases h
    | succ limit =>
      have hs := sound_levels limit
      cases fragment with
      | expression minimum =>
        obtain ⟨⟨ts, hts, -⟩, -⟩ := spans_expression hs h
        exact ⟨ts, hts⟩
      | statement =>
        obtain ⟨⟨ts, hts, -⟩, -⟩ := spans_statement hs h
        exact ⟨ts, hts⟩
      | block =>
        obtain ⟨ts, hts, -⟩ := spans_block hs h
        exact ⟨ts, hts⟩
  obtain ⟨ts, hts⟩ := hpasses
  refine ⟨ts, ?_, hts⟩
  rintro rfl
  have hlt := hconsumes h
  rw [Cursor.passes_nil.mp hts] at hlt
  exact Nat.lt_irrefl _ hlt

/-- **Reading ends, goes forward and keeps its place.**  Take any list of tokens whose number
tokens are numerals.

With enough levels for its length, the outcome of the whole and of every fragment at every
place is no matter of the limit: it is the same with more levels, and the limit is not reached.
With any number of levels, a fragment that is read leads to a later place, and what was passed
are the tokens from the one place to the other, none of them an end of input.

Nothing behind the first end of input has any influence.  If there is none, the list is as good
as with one behind it that is ranged where the last token ended. -/
theorem reading_keeps_its_place (tokens : List Token) (hv : ∀ t ∈ tokens, t.Valued) :
    (∀ limit limit', 2 * tokens.length + 1 < limit → limit ≤ limit' →
      ¬ TooDeep limit ⟨tokens, none⟩ ∧
      program limit' ⟨tokens, none⟩ = program limit ⟨tokens, none⟩ ∧
      ∀ fragment i c, c.StandsAt tokens i →
        (∀ reached, (levels limit).read fragment c ≠ .error (.limit reached)) ∧
        (levels limit').read fragment c = (levels limit).read fragment c) ∧
    (∀ limit fragment i c n d, c.StandsAt tokens i → (levels limit).read fragment c = .ok (n, d) →
      ∃ j, i < j ∧ d.StandsAt tokens j ∧
        c.Passes (((TokenStream.complete tokens).drop i).take (j - i)) d) ∧
    (∀ front eof more, tokens = front ++ eof :: more → (∀ t ∈ front, t.kind ≠ .endOfInput) →
      eof.kind = .endOfInput → SameOutcomes tokens (front ++ [eof])) ∧
    ((∀ t ∈ tokens, t.kind ≠ .endOfInput) →
      SameOutcomes tokens (tokens ++ [Token.endAt (TokenStream.lastEnd tokens)])) := by
  refine ⟨fun limit limit' hl hle => ⟨?_, ?_, fun fragment i c hc => ⟨?_, ?_⟩⟩,
    fun limit fragment i c n d hc h => ?_, fun front eof more heq hk he => ?_, fun hk => ?_⟩
  · exact not_tooDeep_of_length hl
  · exact program_eq_of_le (not_tooDeep_of_length hl) hle
  · exact (unlimited_read hl hc fragment).ne_limit
  · rcases approximates_read hle fragment c with ⟨reached, hr⟩ | hr
    · exact absurd hr ((unlimited_read hl hc fragment).ne_limit reached)
    · exact hr.symm
  · obtain ⟨ts, hne, hp⟩ := exists_passes_of_read h
    obtain ⟨hd, hts⟩ := Cursor.standsAt_of_passes hc hp
    refine ⟨i + ts.length, ?_, hd, ?_⟩
    · have := List.length_pos_iff.mpr hne
      omega
    · rwa [Nat.add_sub_cancel_left, ← hts]
  · subst heq
    have hc := TokenStream.complete_append more hk he
    refine sameOutcomes_of_complete_eq hv (fun t ht => ?_) ?_
    · exact valued_of_mem_complete hv (hc ▸ ht)
    · rw [hc, TokenStream.complete_append [] hk he]
  · have hc := TokenStream.complete_of_forall hk
    refine sameOutcomes_of_complete_eq hv (fun t ht => ?_) ?_
    · exact valued_of_mem_complete hv (hc ▸ ht)
    · rw [hc, TokenStream.complete_append [] hk rfl]

/-- A call, the end of the input, and the same tokens once more.  What stands behind the end makes
no difference, a missing end is put where the last token ends, and an expression is read from the
first token to a later one. -/
theorem reading_keeps_its_place_call :
    let front : List Token := [⟨.identifier, "ㄱ", ⟨⟨0, 0⟩, ⟨0, 0⟩⟩⟩,
      ⟨.leftParenthesis, "(", ⟨⟨0, 1⟩, ⟨0, 1⟩⟩⟩, ⟨.rightParenthesis, ")", ⟨⟨0, 2⟩, ⟨0, 2⟩⟩⟩]
    let eof : Token := Token.endAt ⟨0, 7⟩
    let tokens := front ++ eof :: front
    (∀ t ∈ tokens, t.Valued) ∧ SameOutcomes tokens (front ++ [eof]) ∧
      (∀ t ∈ front, t.Valued) ∧ SameOutcomes front (front ++ [Token.endAt ⟨0, 2⟩]) ∧
      ¬ TooDeep 40 ⟨tokens, none⟩ ∧
      ∃ c n d j, c.StandsAt tokens 0 ∧ (levels 40).expression (-5) c = .ok (n, d) ∧ 0 < j ∧
        d.StandsAt tokens j := by
  intro front eof tokens
  have hv : ∀ t ∈ tokens, t.Valued := fun t ht hk =>
    absurd hk ((show ∀ t ∈ tokens, t.kind ≠ .number by decide) t ht)
  have hvf : ∀ t ∈ front, t.Valued := fun t ht hk =>
    absurd hk ((show ∀ t ∈ front, t.kind ≠ .number by decide) t ht)
  have hk : ∀ t ∈ front, t.kind ≠ .endOfInput := by decide
  obtain ⟨hends, hforward, hbehind, -⟩ := reading_keeps_its_place tokens hv
  have hwithout := (reading_keeps_its_place front hvf).2.2.2 hk
  obtain ⟨c, hc, hplace⟩ := Cursor.exists_start tokens
  have hok : (Cursor.start ⟨tokens, none⟩ >>= (levels 40).expression (-5)).isOk = true := by
    decide +kernel
  rw [hc] at hok
  cases hr : (levels 40).expression (-5) c with
  | error failure =>
    rw [show (Except.ok c >>= (levels 40).expression (-5)) = .error failure from hr] at hok
    cases hok
  | ok r =>
    obtain ⟨n, d⟩ := r
    obtain ⟨j, hj, hd, -⟩ := hforward 40 (.expression (-5)) 0 c n d hplace hr
    exact ⟨hv, hbehind front eof front rfl hk rfl, hvf, hwithout,
      (hends 40 40 (by decide) (by decide)).1, c, n, d, j, hplace, hr, hj, hd⟩

end Grammar
end HangulScript
