import HangulScript.Proofs.Tree.Ranges
import HangulScript.Tree.Grammar

/-!
# Reading does not look at positions

Let a function on positions be applied to both ends of the range of every token.  Then reading
gives the tree it gave before, or the error, with the function applied to both ends of every
range in it.

The ranges that reading makes are spans: they begin where one range begins and end where one
ends, so a function on positions passes through them, whatever it is.  It need not keep the
order of positions, nor tell them apart.

Two things have to be watched.  A stream that is dry from the beginning is ended at the origin,
and the origin is nobody's token; so the stream must have a token, or a fault, or the function
must leave the origin where it is.  And nothing is a node without a range, so the nodes that a
range is made of have to be there (`Moved`).
-/

namespace HangulScript

/-! ## Other positions -/

/-- The range with a function applied to both of its ends. -/
def Range.mapEnds (f : Position → Position) (r : Range) : Range := ⟨f r.first, f r.last⟩

/-- The token over another range. -/
def Token.mapRange (f : Range → Range) (t : Token) : Token := { t with range := f t.range }

/-- The cause with a function applied to the range of a token in it. -/
def Cause.mapRanges (f : Range → Range) : Cause → Cause
  | .unexpectedToken token => .unexpectedToken (token.mapRange f)
  | .mismatchedToken expected token => .mismatchedToken expected (token.mapRange f)
  | cause => cause

/-- Messages do not depend on ranges. -/
theorem Cause.message_mapRanges (f : Range → Range) (cause : Cause) :
    (cause.mapRanges f).message = cause.message := by
  cases cause <;> rfl

/-- The names of errors do not depend on ranges. -/
theorem Cause.label_mapRanges (f : Range → Range) (cause : Cause) :
    (cause.mapRanges f).label = cause.label := by
  cases cause with
  | reported family message => cases family <;> rfl
  | _ => rfl

/-- The error with a function applied to every range in it. -/
def Error.mapRanges (f : Range → Range) (e : Error) : Error := ⟨e.cause.mapRanges f, f e.range⟩

/-- The failure with a function applied to every range in it. -/
def ReadingFailure.mapRanges (f : Range → Range) : ReadingFailure → ReadingFailure
  | .error e => .error (e.mapRanges f)
  | .limit reached => .limit (f reached)
  | .notNumeral text => .notNumeral text

/-- The fault at another place. -/
def ScanFault.mapPlace (f : Position → Position) (x : ScanFault) : ScanFault :=
  { x with place := f x.place }

/-- The stream with a function applied to every position in it. -/
def TokenStream.mapPositions (f : Position → Position) (s : TokenStream) : TokenStream :=
  ⟨s.tokens.map (Token.mapRange (Range.mapEnds f)), s.fault.map (ScanFault.mapPlace f)⟩

namespace Cursor

/-- The cursor with a function applied to every position in it. -/
def mapPositions (f : Position → Position) (c : Cursor) : Cursor :=
  ⟨c.current.mapRange (Range.mapEnds f), c.rest.map (Token.mapRange (Range.mapEnds f)),
    c.fault.map (ScanFault.mapPlace f)⟩

variable (f : Position → Position) (c : Cursor)

theorem remaining_mapPositions : (c.mapPositions f).remaining = c.remaining := by
  simp only [remaining, mapPositions, Token.mapRange, List.length_map]

end Cursor

/-- **Outcomes carried over.**  The same result but for positions, or the same failure but for
positions. -/
inductive Carried (f : Position → Position) {α β : Type} (R : α → β → Prop) :
    Except ReadingFailure α → Except ReadingFailure β → Prop
  | ok {a : α} {b : β} : R a b → Carried f R (.ok a) (.ok b)
  | error (failure : ReadingFailure) :
      Carried f R (.error failure) (.error (failure.mapRanges (Range.mapEnds f)))

namespace Carried

variable {f : Position → Position} {α β γ δ : Type} {R : α → β → Prop} {S : γ → δ → Prop}
  {x : Except ReadingFailure α} {y : Except ReadingFailure β}

theorem ite {p : Prop} [Decidable p] {x' : Except ReadingFailure α} {y' : Except ReadingFailure β}
    (h : Carried f R x y) (h' : Carried f R x' y') :
    Carried f R (if p then x else x') (if p then y else y') := by
  split
  · exact h
  · exact h'

theorem bind {g : α → Except ReadingFailure γ} {h : β → Except ReadingFailure δ}
    (hx : Carried f R x y) (hg : ∀ a b, R a b → Carried f S (g a) (h b)) :
    Carried f S (x >>= g) (y >>= h) := by
  cases hx with
  | ok hr => exact hg _ _ hr
  | error failure => exact .error failure

end Carried

namespace Grammar

/-- A reading gives the same at other positions, but for positions. -/
def Carries (f : Position → Position) {α : Type} (R : α → α → Prop) (x : Reading α) : Prop :=
  ∀ c : Cursor, Carried f (fun p q => R p.1 q.1 ∧ q.2 = p.2.mapPositions f) (x c)
    (x (c.mapPositions f))

/-- A node, which is there, and the node with other positions. -/
def Moved (f : Position → Position) (n n' : Node) : Prop :=
  n.isAbsent = false ∧ n' = n.mapRanges (Range.mapEnds f)

/-- Nodes that are there, and the nodes with other positions. -/
def AllMoved (f : Position → Position) (ns ns' : List Node) : Prop :=
  (∀ n ∈ ns, n.isAbsent = false) ∧ ns' = Node.mapRangesAll (Range.mapEnds f) ns

variable {f : Position → Position}

theorem range_moved {n : Node} (h : n.isAbsent = false) :
    (n.mapRanges (Range.mapEnds f)).range = n.range.mapEnds f :=
  Node.range_mapRanges _ h

theorem AllMoved.nil : AllMoved f [] [] := by
  refine ⟨fun n hn => ?_, rfl⟩
  cases hn

theorem AllMoved.cons {n n' : Node} {ns ns' : List Node} (h : Moved f n n')
    (hs : AllMoved f ns ns') : AllMoved f (n :: ns) (n' :: ns') := by
  refine ⟨?_, by rw [h.2, hs.2, Node.mapRangesAll]⟩
  intro m hm
  rcases List.mem_cons.mp hm with rfl | hm
  · exact h.1
  · exact hs.1 m hm

/-! ## Cursors -/

theorem carried_take (f : Position → Position) (stream : TokenStream) {dry dry' : Position}
    (h : stream.tokens ≠ [] ∨ stream.fault ≠ none ∨ dry' = f dry) :
    Carried f (fun c d => d = c.mapPositions f) (Cursor.take stream dry)
      (Cursor.take (stream.mapPositions f) dry') := by
  obtain ⟨tokens, fault⟩ := stream
  cases tokens with
  | cons t rest => exact .ok rfl
  | nil =>
    cases fault with
    | some x => exact .error _
    | none =>
      rcases h with h | h | rfl
      · exact absurd rfl h
      · exact absurd rfl h
      · exact .ok rfl

theorem carried_advance (f : Position → Position) (c : Cursor) :
    Carried f (fun c d => d = c.mapPositions f) c.advance (c.mapPositions f).advance := by
  unfold Cursor.advance
  by_cases h : c.current.kind = .endOfInput
  · rw [if_pos h, if_pos (show (c.mapPositions f).current.kind = .endOfInput from h)]
    exact .ok rfl
  · rw [if_neg h, if_neg (show ¬ (c.mapPositions f).current.kind = .endOfInput from h)]
    exact carried_take f ⟨c.rest, c.fault⟩ (Or.inr (Or.inr rfl))

theorem carries_consume (f : Position → Position) (kind : TokenKind) :
    Carries f (fun t t' => t' = t.mapRange (Range.mapEnds f)) (Cursor.consume kind) := by
  intro c
  unfold Cursor.consume
  by_cases h : c.current.kind = kind
  · rw [if_pos h, if_pos (show (c.mapPositions f).current.kind = kind from h)]
    refine (carried_advance f c).bind fun d d' hd => ?_
    exact .ok ⟨rfl, hd⟩
  · rw [if_neg h, if_neg (show ¬ (c.mapPositions f).current.kind = kind from h)]
    exact .error _

/-- An operator between two operands. -/
theorem moved_joined (op : Token) {left left' right right' : Node} (hl : Moved f left left')
    (hr : Moved f right right') :
    Moved f (joined op left right) (joined (op.mapRange (Range.mapEnds f)) left' right') := by
  obtain ⟨hl, rfl⟩ := hl
  obtain ⟨hr, rfl⟩ := hr
  have hkind : (op.mapRange (Range.mapEnds f)).kind = op.kind := rfl
  simp only [joined, hkind, range_moved hl, range_moved hr]
  split <;> exact ⟨rfl, rfl⟩

/-! ## Lists -/

theorem carries_moreItems {item : Reading Node} (hi : Carries f (Moved f) item) (bound : Nat) :
    Carries f (AllMoved f) (moreItems item bound) := by
  induction bound with
  | zero => exact fun c => .error (.limit c.current.range)
  | succ bound ih =>
    refine fun c => .ite ?_ (.ok ⟨.nil, rfl⟩)
    refine (carries_consume f .comma c).bind ?_
    rintro ⟨_, d⟩ ⟨_, _⟩ ⟨-, rfl⟩
    refine (hi d).bind ?_
    rintro ⟨first, d⟩ ⟨_, _⟩ ⟨hfirst, rfl⟩
    refine (ih d).bind ?_
    rintro ⟨others, d⟩ ⟨_, _⟩ ⟨hothers, rfl⟩
    exact .ok ⟨.cons hfirst hothers, rfl⟩

theorem carries_items {item : Reading Node} (hi : Carries f (Moved f) item) :
    Carries f (AllMoved f) (items item) := by
  refine fun c => .ite (.ok ⟨.nil, rfl⟩) ?_
  refine (hi c).bind ?_
  rintro ⟨first, d⟩ ⟨_, _⟩ ⟨hfirst, rfl⟩
  show Carried f _ (moreItems item (d.remaining + 1) d >>= _)
    (moreItems item ((d.mapPositions f).remaining + 1) (d.mapPositions f) >>= _)
  rw [Cursor.remaining_mapPositions]
  refine (carries_moreItems hi _ d).bind ?_
  rintro ⟨others, d⟩ ⟨_, _⟩ ⟨hothers, rfl⟩
  exact .ok ⟨.cons hfirst hothers, rfl⟩

/-! ## Rules -/

/-- A level whose readings all give the same at other positions. -/
structure Level.Carries (f : Position → Position) (level : Level) : Prop where
  expression : ∀ minimum, Grammar.Carries f (Moved f) (level.expression minimum)
  statement : Grammar.Carries f (Moved f) level.statement
  block : Grammar.Carries f (Moved f) level.block

theorem carries_parameter : Carries f (Moved f) parameter := by
  intro c
  refine (carries_consume f .identifier c).bind ?_
  rintro ⟨name, d⟩ ⟨_, _⟩ ⟨rfl, rfl⟩
  exact .ok ⟨⟨rfl, rfl⟩, rfl⟩

theorem carries_literal {node node' : Node} (hn : Moved f node node') (c : Cursor) :
    Carried f (fun p q => Moved f p.1 q.1 ∧ q.2 = p.2.mapPositions f) (literal node c)
      (literal node' (c.mapPositions f)) := by
  refine (carried_advance f c).bind ?_
  rintro d _ rfl
  exact .ok ⟨hn, rfl⟩

theorem carries_numeral : Carries f (Moved f) numeral := by
  intro c
  have htext : (c.mapPositions f).current.text = c.current.text := rfl
  unfold numeral
  rw [htext]
  cases Numeral.value? c.current.text.toList with
  | some value =>
    refine (carried_advance f c).bind ?_
    rintro d _ rfl
    exact .ok ⟨⟨rfl, rfl⟩, rfl⟩
  | none =>
    refine (carried_advance f c).bind ?_
    rintro d _ rfl
    exact .error _

section Rules

variable {down : Level} (h : down.Carries f)

include h

theorem carries_statements (terminator : TokenKind) :
    Carries f (AllMoved f) (statements down terminator) := by
  intro c
  unfold statements
  rw [Cursor.remaining_mapPositions]
  generalize c.remaining + 1 = bound
  induction bound generalizing c with
  | zero => exact .error (.limit c.current.range)
  | succ bound ih =>
    refine .ite (.ok ⟨.nil, rfl⟩) (.ite (.error _) ?_)
    refine (h.statement c).bind ?_
    rintro ⟨first, d⟩ ⟨_, _⟩ ⟨hfirst, rfl⟩
    refine (ih d).bind ?_
    rintro ⟨others, d⟩ ⟨_, _⟩ ⟨hothers, rfl⟩
    exact .ok ⟨.cons hfirst hothers, rfl⟩

theorem carries_block : Carries f (Moved f) (block down) := by
  intro c
  refine (carries_consume f .leftBrace c).bind ?_
  rintro ⟨opening, d⟩ ⟨_, _⟩ ⟨rfl, rfl⟩
  refine (carries_statements h .rightBrace d).bind ?_
  rintro ⟨inner, d⟩ ⟨_, _⟩ ⟨⟨-, rfl⟩, rfl⟩
  refine (carries_consume f .rightBrace d).bind ?_
  rintro ⟨closing, d⟩ ⟨_, _⟩ ⟨rfl, rfl⟩
  exact .ok ⟨⟨rfl, rfl⟩, rfl⟩

theorem carries_returnStatement : Carries f (Moved f) (returnStatement down) := by
  intro c
  refine (carries_consume f .returnKeyword c).bind ?_
  rintro ⟨keyword, d⟩ ⟨_, _⟩ ⟨rfl, rfl⟩
  refine (h.expression 0 d).bind ?_
  rintro ⟨e, d⟩ ⟨_, _⟩ ⟨⟨he, rfl⟩, rfl⟩
  refine .ok ⟨⟨rfl, ?_⟩, rfl⟩
  simp only [range_moved he]
  rfl

theorem carries_branch : Carries f (Moved f) (branch down) := by
  intro c
  refine (carries_consume f .ifKeyword c).bind ?_
  rintro ⟨keyword, d⟩ ⟨_, _⟩ ⟨rfl, rfl⟩
  refine (h.expression 0 d).bind ?_
  rintro ⟨predicate, d⟩ ⟨_, _⟩ ⟨⟨-, rfl⟩, rfl⟩
  refine (h.block d).bind ?_
  rintro ⟨consequence, d⟩ ⟨_, _⟩ ⟨⟨hc, rfl⟩, rfl⟩
  refine .ite ?_ ?_
  · refine (carries_consume f .elseKeyword d).bind ?_
    rintro ⟨_, d⟩ ⟨_, _⟩ ⟨-, rfl⟩
    refine (h.block d).bind ?_
    rintro ⟨alternative, d⟩ ⟨_, _⟩ ⟨⟨ha, rfl⟩, rfl⟩
    refine .ok ⟨⟨rfl, ?_⟩, rfl⟩
    simp only [range_moved ha]
    rfl
  · refine .ok ⟨⟨rfl, ?_⟩, rfl⟩
    simp only [range_moved hc]
    rfl

theorem carries_statement : Carries f (Moved f) (statement down) := by
  refine fun c => .ite (carries_returnStatement h c) (.ite (carries_branch h c) ?_)
  refine (h.expression 0 c).bind ?_
  rintro ⟨e, d⟩ ⟨_, _⟩ ⟨⟨he, rfl⟩, rfl⟩
  refine .ok ⟨⟨rfl, ?_⟩, rfl⟩
  simp only [range_moved he]
  rfl

theorem carries_function : Carries f (Moved f) (function down) := by
  intro c
  refine (carries_consume f .functionKeyword c).bind ?_
  rintro ⟨keyword, d⟩ ⟨_, _⟩ ⟨rfl, rfl⟩
  refine (carries_consume f .leftParenthesis d).bind ?_
  rintro ⟨_, d⟩ ⟨_, _⟩ ⟨-, rfl⟩
  refine (carries_items carries_parameter d).bind ?_
  rintro ⟨params, d⟩ ⟨_, _⟩ ⟨⟨-, rfl⟩, rfl⟩
  refine (carries_consume f .rightParenthesis d).bind ?_
  rintro ⟨_, d⟩ ⟨_, _⟩ ⟨-, rfl⟩
  refine (h.block d).bind ?_
  rintro ⟨body, d⟩ ⟨_, _⟩ ⟨⟨hb, rfl⟩, rfl⟩
  refine .ok ⟨⟨rfl, ?_⟩, rfl⟩
  simp only [range_moved hb]
  rfl

theorem carries_call {callee callee' : Node} (hc : Moved f callee callee') (c : Cursor) :
    Carried f (fun p q => Moved f p.1 q.1 ∧ q.2 = p.2.mapPositions f) (call down callee c)
      (call down callee' (c.mapPositions f)) := by
  obtain ⟨hc, rfl⟩ := hc
  refine (carries_consume f .leftParenthesis c).bind ?_
  rintro ⟨_, d⟩ ⟨_, _⟩ ⟨-, rfl⟩
  refine (carries_items (h.expression 0) d).bind ?_
  rintro ⟨args, d⟩ ⟨_, _⟩ ⟨⟨-, rfl⟩, rfl⟩
  refine (carries_consume f .rightParenthesis d).bind ?_
  rintro ⟨closing, d⟩ ⟨_, _⟩ ⟨rfl, rfl⟩
  refine .ok ⟨⟨rfl, ?_⟩, rfl⟩
  simp only [range_moved hc]
  rfl

theorem carries_grouping : Carries f (Moved f) (grouping down) := by
  intro c
  refine (carries_consume f .leftParenthesis c).bind ?_
  rintro ⟨opening, d⟩ ⟨_, _⟩ ⟨rfl, rfl⟩
  refine (h.expression 0 d).bind ?_
  rintro ⟨inner, d⟩ ⟨_, _⟩ ⟨⟨hi, rfl⟩, rfl⟩
  refine (carries_consume f .rightParenthesis d).bind ?_
  rintro ⟨closing, d⟩ ⟨_, _⟩ ⟨rfl, rfl⟩
  refine .ok ⟨⟨?_, ?_⟩, rfl⟩
  · cases inner with
    | absent => cases hi
    | _ => rfl
  · exact (Node.mapRanges_withRange (Range.mapEnds f) (opening.range.span closing.range) inner).symm

theorem carries_unary : Carries f (Moved f) (unary down) := by
  intro c
  refine (carried_advance f c).bind ?_
  rintro d _ rfl
  refine (h.expression unaryPower d).bind ?_
  rintro ⟨operand, d⟩ ⟨_, _⟩ ⟨⟨ho, rfl⟩, rfl⟩
  refine .ok ⟨⟨rfl, ?_⟩, rfl⟩
  simp only [range_moved ho]
  rfl

theorem carries_operand : Carries f (Moved f) (operand down) := by
  intro c
  have hkind : (c.mapPositions f).current.kind = c.current.kind := rfl
  simp only [operand, hkind]
  split
  case h_1 | h_2 | h_3 => exact carries_unary h c
  case h_4 => exact carries_numeral c
  case h_9 => exact carries_function h c
  case h_10 => exact carries_grouping h c
  case h_11 => exact .error _
  all_goals exact carries_literal ⟨rfl, rfl⟩ c

theorem carries_operators (minimum : Int) {left left' : Node} (hleft : Moved f left left')
    (c : Cursor) :
    Carried f (fun p q => Moved f p.1 q.1 ∧ q.2 = p.2.mapPositions f)
      (operators down minimum left c) (operators down minimum left' (c.mapPositions f)) := by
  unfold operators
  rw [Cursor.remaining_mapPositions]
  generalize c.remaining + 1 = bound
  induction bound generalizing left left' c with
  | zero => exact .error (.limit c.current.range)
  | succ bound ih =>
    refine .ite ?_ ?_
    · refine (carries_call h hleft c).bind ?_
      rintro ⟨whole, d⟩ ⟨_, _⟩ ⟨hwhole, rfl⟩
      exact ih hwhole d
    · have hkind : (c.mapPositions f).current.kind = c.current.kind := rfl
      rw [hkind]
      cases hb : binding? c.current.kind with
      | none => exact .ok ⟨hleft, rfl⟩
      | some op =>
        obtain ⟨power, grouping⟩ := op
        refine .ite (.ok ⟨hleft, rfl⟩) ?_
        refine (carried_advance f c).bind ?_
        rintro further _ rfl
        refine (h.expression _ further).bind ?_
        rintro ⟨right, d⟩ ⟨_, _⟩ ⟨hright, rfl⟩
        exact ih (moved_joined c.current hleft hright) d

theorem carries_expression (minimum : Int) : Carries f (Moved f) (expression down minimum) := by
  intro c
  refine (carries_operand h c).bind ?_
  rintro ⟨left, d⟩ ⟨_, _⟩ ⟨hleft, rfl⟩
  exact carries_operators h minimum hleft d

end Rules

/-- **Every level reads the same at other positions.** -/
theorem carries_levels (f : Position → Position) (limit : Nat) : (levels limit).Carries f := by
  induction limit with
  | zero =>
    exact ⟨fun _ c => .error (.limit c.current.range), fun c => .error (.limit c.current.range),
      fun c => .error (.limit c.current.range)⟩
  | succ limit ih => exact ⟨carries_expression ih, carries_statement ih, carries_block ih⟩

/-! ## Programs -/

theorem programRange_moved (first : Token) {inner inner' : List Node}
    (h : AllMoved f inner inner') :
    programRange (first.mapRange (Range.mapEnds f)) inner' =
      (programRange first inner).mapEnds f := by
  obtain ⟨hthere, rfl⟩ := h
  cases inner with
  | nil => rfl
  | cons n ns =>
    have hn := range_moved (f := f) (hthere n (List.mem_cons_self ..))
    have hlast := range_moved (f := f) (hthere _ (List.getLast_mem (List.cons_ne_nil n ns)))
    simp only [programRange, Node.mapRangesAll_eq_map, List.getLast?_map, List.head?_map,
      List.getLast?_eq_some_getLast (List.cons_ne_nil n ns), List.head?_cons, Option.map_some, hn,
      hlast]
    rfl

/-- **Reading at other positions.**  The tree, or the failure, is the same but for positions. -/
theorem carried_program (f : Position → Position) (limit : Nat) (stream : TokenStream)
    (h : stream.tokens ≠ [] ∨ stream.fault ≠ none ∨ Position.origin = f Position.origin) :
    Carried f (Moved f) (program limit stream) (program limit (stream.mapPositions f)) := by
  refine (carried_take f stream h).bind ?_
  rintro c _ rfl
  have hfrom : Carried f (Moved f) (programFrom limit c)
      (programFrom limit (c.mapPositions f)) := by
    refine (carries_statements (carries_levels f limit) .endOfInput c).bind ?_
    rintro ⟨inner, d⟩ ⟨inner', _⟩ ⟨hinner, rfl⟩
    refine .ok ⟨rfl, ?_⟩
    have hrange := programRange_moved c.current hinner
    obtain ⟨-, rfl⟩ := hinner
    exact congrArg (Node.program · _) hrange
  show Carried f (Moved f) ((programFrom limit c).mapError reported)
    ((programFrom limit (c.mapPositions f)).mapError reported)
  generalize programFrom limit c = x at hfrom ⊢
  generalize programFrom limit (c.mapPositions f) = y at hfrom ⊢
  cases hfrom with
  | ok hr => exact .ok hr
  | error failure =>
    have hreported : reported (failure.mapRanges (Range.mapEnds f)) =
        (reported failure).mapRanges (Range.mapEnds f) := by
      cases failure <;> rfl
    show Carried f _ (.error (reported failure)) (.error (reported _))
    rw [hreported]
    exact .error _

/-- **Reading does not look at positions.**  From a stream in which a function was applied to
every position, one reads the tree with the function applied to both ends of every range, or
fails as before, with the function applied in the failure. -/
theorem program_mapPositions (f : Position → Position) (limit : Nat) (stream : TokenStream)
    (h : stream.tokens ≠ [] ∨ stream.fault ≠ none ∨ Position.origin = f Position.origin) :
    program limit (stream.mapPositions f) =
      ((program limit stream).map (Node.mapRanges (Range.mapEnds f))).mapError
        (ReadingFailure.mapRanges (Range.mapEnds f)) := by
  have hp := carried_program f limit stream h
  generalize program limit stream = x at hp
  generalize program limit (stream.mapPositions f) = y at hp
  cases hp with
  | ok hr => rw [hr.2]; rfl
  | error failure => rfl

end Grammar
end HangulScript
