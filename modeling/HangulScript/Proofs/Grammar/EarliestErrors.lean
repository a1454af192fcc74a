import HangulScript.Proofs.Grammar.Sources
import HangulScript.Proofs.Reading.Following

/-!
# Errors at the earliest token

Every reading follows the language of its category in the loose grammar, the one without
precedence.  Hence the parser never passes a token that no program could have at that place,
and the token it names is the first one of which this is not so.

## The two halves

*What was passed begins a sentence.*  When a rule fails, the rules around it have already read
something, and each of them can be completed in some way whatever comes next: a group by its
parenthesis, a branch by an empty block, a list by nothing.  `Follows` carries these completions
outwards (`follows_expression` and its like, then `refused_of_error`).  Statements stand side by
side without a separator, and the parser reads each of them as far as it goes.  The loose grammar
knows nothing of this and need not: its sentences are what the parser reads, so a completion in it
is a completion for the parser too.

*With the token it begins none.*  The failure was settled by the token in hand: it is the same
failure whatever stands behind that token.  If a sentence began so, the parser would read the
sentence, because it reads all of them (`Refused.not_begins`).  No site of an error has to be
looked at a second time.
-/

namespace HangulScript
namespace Grammar

variable {c : Cursor}

/-- A level all of whose readings follow the loose grammar. -/
structure Level.Following (level : Level) : Prop where
  expression : ∀ minimum c, Follows (Reads .expression) (level.expression minimum) c
  statement : ∀ c, Follows (Reads .statement) level.statement c
  block : ∀ c, Follows (Reads .block) level.block c

/-- Asking for a kind is asking about the token in hand. -/
theorem holds_congr {c' : Cursor} (kind : TokenKind) (h : c'.current = c.current) :
    c'.holds kind = true ↔ c.holds kind = true := by
  simp only [Cursor.holds, h]

/-- Nothing in braces is a block. -/
theorem reads_emptyBlock : Reads .block [.leftBrace, .rightBrace] := .block .noStatements

/-! ## Lists -/

section Lists

variable {item : Reading Node} {one more many : List TokenKind → Prop}
  (hc : Consumes item) (hi : ∀ c, Follows one item c) (hone : ∃ ks, one ks)
  (hlast : more []) (hmore : ∀ {a b}, one a → more b → more (.comma :: a ++ b))

include hc hi hone hlast hmore

/-- Further items follow a language of lists with a comma before each item. -/
theorem follows_furtherItems (c : Cursor) : Follows more (furtherItems item) c := by
  induction hn : c.remaining using Nat.strongRecOn generalizing c with
  | _ n ih =>
    subst hn
    obtain ⟨k, hk⟩ := hone
    rw [funext (furtherItems_eq hc)]
    refine .ite (fun c' h => holds_congr _ h) (fun hcomma => ?_) fun _ => .pure hlast
    refine .consume (by decide) ⟨_, (hmore hk hlast :)⟩ fun _ d hk ha => ?_
    have h₁ : d.remaining < c.remaining := remaining_lt_of_kind ha hk (by decide)
    refine (hi d).bind (fun ks h => ⟨[], hmore h hlast⟩) fun n e ks hr h => ?_
    have h₂ := hc hr
    have hf := ih e.remaining (by omega) e rfl
    refine hf.bind (fun ls h' => ⟨[], by simpa using hmore h h'⟩) fun ns f ls _ h' => ?_
    exact .pure (by simpa using hmore h h')

/-- A list follows its language. -/
theorem follows_items (hnone : many []) (hmany : ∀ {a b}, one a → more b → many (a ++ b))
    (c : Cursor) : Follows many (items item) c := by
  rw [funext (items_eq item)]
  refine .ite (fun c' h => holds_congr _ h) (fun _ => .pure hnone) fun _ => ?_
  refine (hi c).bind (fun ks h => ⟨[], by simpa using hmany h hlast⟩) fun n d ks _ h => ?_
  have hf := follows_furtherItems hc hi hone hlast hmore d
  refine hf.bind (fun ls h' => ⟨[], by simpa using hmany h h'⟩) fun ns e ls _ h' => ?_
  exact .pure (by simpa using hmany h h')

end Lists

theorem follows_parameter (c : Cursor) : Follows (· = [.identifier]) parameter c :=
  .consume (by decide) ⟨[], rfl⟩ fun _ _ _ _ => .pure rfl

/-- The parameters of a function. -/
theorem follows_parameters (c : Cursor) : Follows (Reads .parameters) (items parameter) c :=
  follows_items consumes_parameter follows_parameter ⟨_, rfl⟩ .lastParameter
    (fun h h' => h ▸ .furtherParameter h') .noParameters (fun h h' => h ▸ .parameters h') c

section Rules

variable {down : Level} (hc : down.Consuming) (hd : down.Following)

include hd

section Loops

include hc

/-- The arguments of a call. -/
theorem follows_arguments (c : Cursor) :
    Follows (Reads .arguments) (items (down.expression 0)) c :=
  follows_items (hc.expression 0) (hd.expression 0) ⟨_, .name⟩ .lastArgument .furtherArgument
    .noArguments .arguments c

/-- Statements up to whatever ends them. -/
theorem follows_statements (terminator : TokenKind) (c : Cursor) :
    Follows (Reads .statements) (statements down terminator) c := by
  induction hn : c.remaining using Nat.strongRecOn generalizing c with
  | _ n ih =>
    subst hn
    rw [funext (statements_eq hc.statement terminator)]
    refine .ite (fun c' h => holds_congr _ h) (fun _ => .pure .noStatements) fun _ => ?_
    refine .ite (fun c' h => holds_congr _ h) (fun _ => ?_) fun _ => ?_
    · refine .fail (f := .error (Error.mismatchedToken terminator c.current)) ⟨[], .noStatements⟩
        (Or.inr ⟨terminator, rfl⟩) fun c' h => ?_
      rw [h]
    · refine (hd.statement c).bind (fun ks h => ⟨[], .statements h .noStatements⟩)
        fun n d ks hr h => ?_
      have hf := ih d.remaining (hc.statement hr) d rfl
      refine hf.bind (fun ls h' => ⟨[], by simpa using .statements h h'⟩) fun ns e ls _ h' => ?_
      exact .pure (by simpa using .statements h h')

end Loops

/-! ## Blocks and statements -/

theorem follows_block (hc : down.Consuming) (c : Cursor) :
    Follows (Reads .block) (block down) c := by
  refine .consume (by decide) ⟨_, reads_emptyBlock⟩ fun _ d _ _ => ?_
  refine (follows_statements hc hd _ d).bind (fun ks h => ⟨[.rightBrace], .block h⟩)
    fun ns e ks _ h => ?_
  exact .consume (by decide) ⟨[], .block h⟩ fun _ _ _ _ => .pure (.block h)

theorem follows_returnStatement (c : Cursor) :
    Follows (Reads .statement) (returnStatement down) c := by
  refine .consume (by decide) ⟨_, .returnStatement .name⟩ fun _ d _ _ => ?_
  refine (hd.expression 0 d).bind (fun ks h => ⟨[], by simpa using .returnStatement h⟩)
    fun n e ks _ h => ?_
  exact .pure (by simpa using .returnStatement h)

theorem follows_branch (c : Cursor) : Follows (Reads .statement) (branch down) c := by
  refine .consume (by decide) ⟨_, (Reads.branch .name reads_emptyBlock :)⟩ fun _ d _ _ => ?_
  refine (hd.expression 0 d).bind (fun ks h => ⟨_, .branch h reads_emptyBlock⟩)
    fun predicate e ks _ h => ?_
  refine (hd.block e).bind (fun ls h' => ⟨[], by simpa using .branch h h'⟩)
    fun consequence f ls _ h' => ?_
  refine .ite (fun c' h => holds_congr _ h) (fun _ => ?_) fun _ =>
    .pure (by simpa using .branch h h')
  refine .consume (by decide) ⟨[.leftBrace, .rightBrace], ?_⟩ fun _ g _ _ => ?_
  · simpa using Reads.branchElse h h' reads_emptyBlock
  · refine (hd.block g).bind (fun ms h'' => ⟨[], by simpa using Reads.branchElse h h' h''⟩)
      fun alternative i ms _ h'' => ?_
    exact .pure (by simpa using Reads.branchElse h h' h'')

theorem follows_statement (c : Cursor) : Follows (Reads .statement) (statement down) c := by
  refine .ite (fun c' h => holds_congr _ h) (fun _ => follows_returnStatement hd c) fun _ => ?_
  refine .ite (fun c' h => holds_congr _ h) (fun _ => follows_branch hd c) fun _ => ?_
  refine (hd.expression 0 c).bind (fun ks h => ⟨[], by simpa using .expressionStatement h⟩)
    fun n d ks _ h => ?_
  exact .pure (by simpa using .expressionStatement h)

/-! ## Expressions -/

theorem follows_function (c : Cursor) : Follows (Reads .expression) (function down) c := by
  refine .consume (by decide) ⟨_, .function .noParameters reads_emptyBlock⟩ fun _ d _ _ => ?_
  refine .consume (by decide) ⟨_, .function .noParameters reads_emptyBlock⟩ fun _ e _ _ => ?_
  refine (follows_parameters e).bind (fun ks h => ⟨_, .function h reads_emptyBlock⟩)
    fun params f ks _ h => ?_
  refine .consume (by decide) ⟨_, .function h reads_emptyBlock⟩ fun _ g _ _ => ?_
  refine (hd.block g).bind (fun ls h' => ⟨[], by simpa using .function h h'⟩)
    fun body i ls _ h' => ?_
  exact .pure (by simpa using .function h h')

theorem follows_grouping (c : Cursor) : Follows (Reads .expression) (grouping down) c := by
  refine .consume (by decide) ⟨_, (Reads.grouping .name :)⟩ fun _ d _ _ => ?_
  refine (hd.expression 0 d).bind (fun ks h => ⟨[.rightParenthesis], .grouping h⟩)
    fun n e ks _ h => ?_
  exact .consume (by decide) ⟨[], .grouping h⟩ fun _ _ _ _ => .pure (.grouping h)

theorem follows_unary (hk : c.current.kind ∈ frontOperators) :
    Follows (Reads .expression) (unary down) c := by
  have he : c.current.kind ≠ .endOfInput := by
    intro he
    rw [he] at hk
    exact absurd hk (by decide)
  have h : Follows (Reads .expression) (fun c' => c'.advance >>= fun further =>
      down.expression unaryPower further >>= fun r =>
        .ok (Node.unary (c.current.range.span r.1.range) c.current.text r.1, r.2)) c := by
    refine .advance he ⟨_, .unary hk .name⟩ fun d _ => ?_
    refine (hd.expression unaryPower d).bind (fun ks h => ⟨[], by simpa using .unary hk h⟩)
      fun n e ks _ h => ?_
    show Follows _
      (fun d => .ok (Node.unary (c.current.range.span n.range) c.current.text n, d)) e
    exact .pure (by simpa using .unary hk h)
  refine h.of_current fun c' h => ?_
  simp only [unary, h]
  rfl

omit hd in
theorem follows_literal (node : Node) (he : c.current.kind ≠ .endOfInput)
    (h : Reads .expression [c.current.kind]) : Follows (Reads .expression) (literal node) c :=
  .advance he ⟨[], h⟩ fun _ _ => .pure h

omit hd in
theorem follows_numeral (hk : c.current.kind = .number) :
    Follows (Reads .expression) numeral c := by
  refine .of_valued fun hv => ?_
  obtain ⟨value, hvalue⟩ := hv c.current (List.mem_cons_self ..) hk
  have hl := follows_literal (.number c.current.range value) (c := c) (by rw [hk]; decide)
    (by rw [hk]; exact .literal (by decide))
  refine hl.of_current fun c' h => ?_
  simp only [numeral, literal, h, hvalue]

theorem follows_operand (c : Cursor) : Follows (Reads .expression) (operand down) c := by
  have hl : ∀ node, c.current.kind ∈ literals → Follows (Reads .expression) (literal node) c := by
    intro node hk
    refine follows_literal node (fun he => ?_) (.literal hk)
    rw [he] at hk
    exact absurd hk (by decide)
  cases hk : c.current.kind
  case plus | minus | bang =>
    exact (follows_unary hd (by rw [hk]; decide)).of_current
      fun c' h => by simp only [operand, h, hk]
  case number =>
    exact (follows_numeral hk).of_current fun c' h => by simp only [operand, h, hk]
  case string =>
    exact (hl (.string c.current.range c.current.text) (by rw [hk]; decide)).of_current
      fun c' h => by simp only [operand, h, hk]
  case trueKeyword =>
    exact (hl (.boolean c.current.range true) (by rw [hk]; decide)).of_current
      fun c' h => by simp only [operand, h, hk]
  case falseKeyword =>
    exact (hl (.boolean c.current.range false) (by rw [hk]; decide)).of_current
      fun c' h => by simp only [operand, h, hk]
  case identifier =>
    have hname := follows_literal (c := c) (.identifier c.current.range c.current.text)
      (by rw [hk]; decide) (by rw [hk]; exact .name)
    exact hname.of_current fun c' h => by simp only [operand, h, hk]
  case functionKeyword =>
    exact (follows_function hd c).of_current fun c' h => by simp only [operand, h, hk]
  case leftParenthesis =>
    exact (follows_grouping hd c).of_current fun c' h => by simp only [operand, h, hk]
  all_goals
    exact .fail (f := .error (Error.unexpectedToken c.current)) ⟨_, .name⟩ (Or.inl rfl)
      fun c' h => by simp only [operand, h, hk]

include hc

/-- What is called stands before the cursor. -/
theorem follows_call {before : List TokenKind} (hb : Reads .expression before) (callee : Node)
    (c : Cursor) : Follows (fun ks => Reads .expression (before ++ ks)) (call down callee) c := by
  have hcall : ∀ {args}, Reads .arguments args →
      Reads .expression (before ++ .leftParenthesis :: (args ++ [.rightParenthesis])) := by
    intro args h
    simpa using Reads.call hb h
  refine .consume (by decide) ⟨_, hcall .noArguments⟩ fun _ d _ _ => ?_
  refine (follows_arguments hc hd d).bind (fun ks h => ⟨[.rightParenthesis], hcall h⟩)
    fun ns e ks _ h => ?_
  exact .consume (by decide) ⟨[], hcall h⟩ fun _ _ _ _ => .pure (hcall h)

/-- The left operand stands before the cursor. -/
theorem follows_operators (minimum : Int) {before : List TokenKind} (hb : Reads .expression before)
    (left : Node) (c : Cursor) :
    Follows (fun ks => Reads .expression (before ++ ks)) (operators down minimum left) c := by
  induction hn : c.remaining using Nat.strongRecOn generalizing before left c with
  | _ n ih =>
    subst hn
    have hstop : Follows (fun ks => Reads .expression (before ++ ks)) (fun c => .ok (left, c)) c :=
      .pure (by simpa using hb)
    rw [funext (operators_eq hc minimum left)]
    refine .ite (fun c' h => and_congr_left' (holds_congr _ h)) (fun _ => ?_) fun _ => ?_
    · refine (follows_call hc hd hb left c).bind (fun ks h => ⟨[], by simpa using h⟩)
        fun whole d ks hr h => ?_
      exact (ih d.remaining (consumes_call hc left hr) h whole d rfl).mono fun ls h' => by
        rwa [List.append_assoc] at h'
    · cases hop : binding? c.current.kind with
      | none => exact hstop.of_current fun c' h => by simp only [h, hop]
      | some op =>
        obtain ⟨power, grouping⟩ := op
        by_cases hp : power ≤ minimum
        · exact hstop.of_current fun c' h => by simp only [h, hop, hp, if_true]
        · obtain ⟨tier, ht, -⟩ := exists_tier_of_binding hop
          have hwhole : ∀ {ks}, Reads .expression ks →
              Reads .expression (before ++ c.current.kind :: ks) :=
            fun h => .binary hb (mem_infixOperators_of_tier ht) h
          have he : c.current.kind ≠ .endOfInput := by
            intro he
            rw [he] at hop
            cases hop
          have hjoin : Follows (fun ks => Reads .expression (before ++ ks)) (fun c' =>
              c'.advance >>= fun further =>
                down.expression (rightMinimum power grouping) further >>= fun r =>
                  operators down minimum (joined c.current left r.1) r.2) c := by
            refine .advance he ⟨_, hwhole .name⟩ fun d ha => ?_
            refine (hd.expression _ d).bind (fun ks h => ⟨[], by simpa using hwhole h⟩)
              fun right e ks hr h => ?_
            have h₁ := Cursor.remaining_advance_lt ha he
            have h₂ := hc.expression _ hr
            have hi := ih e.remaining (by omega) (hwhole h) (joined c.current left right) e rfl
            exact hi.mono fun ls h' => by rwa [List.append_assoc] at h'
          exact hjoin.of_current fun c' h => by simp only [h, hop, hp, if_false]

theorem follows_expression (minimum : Int) (c : Cursor) :
    Follows (Reads .expression) (expression down minimum) c := by
  refine (follows_operand hd c).bind (fun ks h => ⟨[], by simpa using h⟩) fun left d ks _ h => ?_
  exact follows_operators hc hd minimum h left d

end Rules

/-- **Every level follows the loose grammar.** -/
theorem following_levels (limit : Nat) : (levels limit).Following := by
  have hlimit : ∀ {category kinds} (c : Cursor), Reads category kinds →
      Follows (Reads category) (exhausted : Reading Node) c :=
    fun c h => .fail (f := .limit c.current.range) ⟨_, h⟩ rfl fun c' h => by
      simp only [exhausted, h]
  induction limit with
  | zero =>
    exact ⟨fun _ c => hlimit c .name, fun c => hlimit c (.expressionStatement .name),
      fun c => hlimit c reads_emptyBlock⟩
  | succ limit ih =>
    have hc := consuming_levels limit
    exact ⟨fun minimum c => follows_expression hc ih minimum c, fun c => follows_statement ih c,
      fun c => follows_block ih hc c⟩

/-! ## Sentences -/

/-- Only a program has an end of input in it. -/
theorem endOfInput_not_mem_of_reads {category : Category} {kinds : List TokenKind}
    (h : Reads category kinds) (hp : category ≠ .program) : .endOfInput ∉ kinds := by
  have hinfix : .endOfInput ∉ infixOperators := by decide
  have hfront : .endOfInput ∉ frontOperators := by decide
  have hliteral : .endOfInput ∉ literals := by decide
  induction h with
  | program => exact absurd rfl hp
  | binary _ hk => grind
  | unary hk => grind
  | literal hk => grind
  | _ => simp_all

/-- Kinds that end with the only end of input among them are those of tokens that are complete
already. -/
theorem ended_eq_self {tokens : List Token} {body : List TokenKind} (dry : Position)
    (h : tokens.map Token.kind = body ++ [.endOfInput]) (hb : .endOfInput ∉ body) :
    TokenStream.ended dry tokens = tokens := by
  induction tokens generalizing dry body with
  | nil => cases body <;> cases h
  | cons t tokens ih =>
    cases body with
    | nil =>
      obtain ⟨hk, ht⟩ := List.cons.inj h
      obtain rfl := List.map_eq_nil_iff.mp ht
      rw [TokenStream.ended, if_pos hk]
    | cons k body =>
      obtain ⟨hk, ht⟩ := List.cons.inj h
      have hne : ¬ t.kind = .endOfInput := by
        intro he
        exact hb (List.mem_cons.mpr (Or.inl (he.symm.trans hk)))
      rw [TokenStream.ended, if_neg hne, ih _ ht fun hm => hb (List.mem_cons_of_mem k hm)]

/-- The tokens of a sentence are complete. -/
theorem Sentence.complete_eq {tokens : List Token} (h : Sentence (tokens.map Token.kind)) :
    TokenStream.complete tokens = tokens := by
  generalize hkinds : tokens.map Token.kind = kinds at h
  cases h with
  | program h =>
    exact ended_eq_self _ hkinds (endOfInput_not_mem_of_reads h (by decide))

/-! ## Refusals -/

/-- A program is refused with a failure found at a token, behind others that could have begun
one; and this is all that decides. -/
structure Refused (limit : Nat) (ts : List Token) (t : Token) (failure : ReadingFailure) :
    Prop where
  found : failure.At t
  begins : Begins Sentence (ts.map Token.kind)
  outcome : ∀ more fault, program limit ⟨ts ++ t :: more, fault⟩ = .error (reported failure)

/-- A program is refused at a token, or because of the fault of its stream. -/
theorem refused_of_error {limit : Nat} {stream : TokenStream} {failure : ReadingFailure} {c : Cursor}
    (hc : Cursor.start stream = .ok c) (hv : c.Valued)
    (h : program limit stream = .error failure) :
    failure.OfFault c.fault ∨ ∃ ts d found, c.Passes ts d ∧ Refused limit ts d.current found ∧
      failure = reported found := by
  have hf := follows_statements (consuming_levels limit) (following_levels limit) .endOfInput c
  rw [program_of_start hc] at h
  have hfrom : ∃ found, programFrom limit c = .error found ∧ failure = reported found := by
    cases hp : programFrom limit c with
    | ok tree =>
      rw [hp] at h
      cases h
    | error found =>
      rw [hp] at h
      exact ⟨found, rfl, (Except.error.inj h).symm⟩
  obtain ⟨found, hfound, rfl⟩ := hfrom
  have hs : statements (levels limit) .endOfInput c = .error found := by
    cases hs : statements (levels limit) .endOfInput c with
    | ok r =>
      rw [programFrom, hs] at hfound
      cases hfound
    | error other =>
      rw [programFrom, hs] at hfound
      exact congrArg Except.error (Except.error.inj hfound)
  rcases hf.error hv hs with ⟨fault, hfault, rfl⟩ | ⟨ts, d, hp, hat, ⟨rest, hrest⟩, hsettled⟩
  · exact Or.inl ⟨fault, hfault, rfl⟩
  · refine Or.inr ⟨ts, d, found, hp, ⟨hat, ⟨rest ++ [.endOfInput], ?_⟩, fun more fault => ?_⟩, rfl⟩
    · rw [← List.append_assoc]
      exact .program hrest
    · obtain ⟨c', d', hc', hp', hd'⟩ := Cursor.exists_passes_of_append (t := d.current) more fault
        Position.origin hp.kind_ne
      rw [program_of_start hc', programFrom, hsettled c' d' hp' hd']
      rfl

/-- An error that carries a token does not report the nesting limit. -/
theorem Refused.not_tooDeep {limit : Nat} {ts : List Token} {t : Token} {e : Error}
    (h : Refused limit ts t (.error e)) (more : List Token) (fault : Option ScanFault) :
    ¬ TooDeep limit ⟨ts ++ t :: more, fault⟩ := by
  rintro ⟨reached, hreached⟩
  rw [h.outcome more fault] at hreached
  cases hreached
  rcases h.found with he | ⟨kind, he⟩ <;> cases he

/-- **No sentence goes on through the token at which a program is refused.**  It would be read
as a program, and it is not. -/
theorem Refused.not_begins {limit : Nat} {ts : List Token} {t : Token} {e : Error}
    (h : Refused limit ts t (.error e)) (hv : ∀ u ∈ ts ++ [t], u.Valued) :
    ¬ Begins Sentence ((ts ++ [t]).map Token.kind) := by
  rintro ⟨rest, hs⟩
  have hdigits : "0".toList.all Text.isDecimalDigit = true := by decide +kernel
  have hzero : Numeral.Plain "0".toList := .whole ⟨by decide, List.all_eq_true.mp hdigits⟩
  obtain ⟨more, hmore, hmv⟩ : ∃ more : List Token, more.map Token.kind = rest ∧
      ∀ u ∈ more, u.Valued := by
    refine ⟨rest.map fun kind => ⟨kind, "0", t.range⟩, ?_, ?_⟩
    · rw [List.map_map]
      exact List.map_id rest
    · intro u hu
      obtain ⟨kind, -, rfl⟩ := List.mem_map.mp hu
      exact fun _ => hzero.exists_value
  have hsentence : Sentence ((ts ++ t :: more).map Token.kind) := by
    rw [List.append_cons, List.map_append, hmore]
    exact hs
  have hvalued : ∀ u ∈ ts ++ t :: more, u.Valued := by
    intro u hu
    rw [List.append_cons, List.mem_append] at hu
    exact hu.elim (hv u) (hmv u)
  obtain ⟨depth, tree, hd⟩ := derived_of_reads hsentence ⟨rfl, hvalued⟩
  have hread := program_eq_ok_of_stratified (h.not_tooDeep more none)
    ⟨depth, hsentence.complete_eq.symm ▸ hd⟩
  rw [h.outcome more none] at hread
  cases hread

/-! ## The first token that cannot stand where it is -/

/-- So many tokens of a list are pulled to come to an outcome, neither more nor fewer: what
stands behind them has no influence, and a stream that is cut short before the last of them
ends with the fault that cut it. -/
def PullsExactly (limit : Nat) (tokens : List Token) (count : Nat)
    (outcome : Except ReadingFailure Node) : Prop :=
  (∀ more fault, program limit ⟨tokens.take count ++ more, fault⟩ = outcome) ∧
    ∀ fewer < count, ∀ fault : ScanFault,
      program limit ⟨tokens.take fewer, some fault⟩ = .error (.error fault.error)

/-- A stream with a fault is refused at one of its tokens, or ends with the fault. -/
theorem refused_of_fault {limit : Nat} {tokens : List Token}
    (hk : ∀ t ∈ tokens, t.kind ≠ .endOfInput) (hv : ∀ t ∈ tokens, t.Valued) (fault : ScanFault) :
    (∃ ts t vs found, tokens = ts ++ t :: vs ∧ Refused limit ts t found) ∨
      program limit ⟨tokens, some fault⟩ = .error (.error fault.error) := by
  cases tokens with
  | nil => exact Or.inr rfl
  | cons u us =>
    have hc : Cursor.start ⟨u :: us, some fault⟩ = .ok ⟨u, us, some fault⟩ := rfl
    cases hp : program limit ⟨u :: us, some fault⟩ with
    | ok tree =>
      obtain ⟨c, hc', hfrom⟩ := program_eq_ok.mp hp
      obtain ⟨d, ts, inner, hpass, hd, -, -⟩ := programFrom_eq_ok.mp hfrom
      cases hc'
      exact absurd hd (hpass.kind_ne_endOfInput (by simp) hk)
    | error failure =>
      rcases refused_of_error hc hv hp with ⟨_, hfault, rfl⟩ | ⟨ts, d, found, hpass, hr, -⟩
      · cases hfault
        exact Or.inr rfl
      · obtain ⟨vs, hvs⟩ := hpass.exists_tokens hc
        exact Or.inl ⟨ts, d.current, vs, found, hvs, hr⟩

/-- A stream that is cut short before the token at which a program is refused ends with its
fault.  No token before is one at which it could be refused. -/
theorem Refused.fault_of_prefix {limit : Nat} {ts front back : List Token} {t : Token} {e : Error}
    (h : Refused limit ts t (.error e)) (hk : ∀ u ∈ ts, u.kind ≠ .endOfInput)
    (hv : ∀ u ∈ ts, u.Valued) (hts : ts = front ++ back) (fault : ScanFault) :
    program limit ⟨front, some fault⟩ = .error (.error fault.error) := by
  subst hts
  have hkf : ∀ u ∈ front, u.kind ≠ .endOfInput := fun u hu => hk u (List.mem_append_left _ hu)
  have hvf : ∀ u ∈ front, u.Valued := fun u hu => hv u (List.mem_append_left _ hu)
  refine (refused_of_fault hkf hvf fault).resolve_left ?_
  rintro ⟨ws, u, vs, found, rfl, hr⟩
  cases found with
  | error e' =>
    refine hr.not_begins (fun v hm => hvf v ?_) ?_
    · rw [List.append_cons]
      exact List.mem_append_left _ hm
    · have hb := h.begins
      rw [List.append_cons, List.append_assoc, List.map_append] at hb
      exact hb.of_append
  | limit reached =>
    refine absurd ⟨reached, ?_⟩ (h.not_tooDeep [] none)
    have houtcome := hr.outcome (vs ++ back ++ [t]) none
    rw [reported] at houtcome
    simpa using houtcome
  | notNumeral text => exact hr.found.elim

theorem take_succ_append (ts vs : List Token) (t : Token) :
    (ts ++ t :: vs).take (ts.length + 1) = ts ++ [t] := by
  rw [List.append_cons]
  exact List.take_left' (by simp)

theorem Refused.pullsExactly {limit : Nat} {ts : List Token} {t : Token} {e : Error}
    (h : Refused limit ts t (.error e)) (hk : ∀ u ∈ ts, u.kind ≠ .endOfInput)
    (hv : ∀ u ∈ ts, u.Valued) (vs : List Token) :
    PullsExactly limit (ts ++ t :: vs) (ts.length + 1) (.error (.error e)) := by
  constructor
  · intro more fault
    rw [take_succ_append, ← List.append_cons]
    exact h.outcome more fault
  · intro fewer hf fault
    rw [List.take_append_of_le_length (Nat.le_of_lt_succ hf)]
    exact h.fault_of_prefix hk hv (List.take_append_drop fewer ts).symm fault

/-- Cutting a list behind its first end of input, or supplying one, makes no number. -/
theorem valued_of_mem_complete {tokens : List Token} (hv : ∀ t ∈ tokens, t.Valued) {t : Token}
    (ht : t ∈ TokenStream.complete tokens) : t.Valued := by
  rcases mem_complete ht with hm | he
  · exact hv t hm
  · intro hk
    rw [hk] at he
    cases he

/-- A list of tokens that is not nested too deeply is read, or refused at one of its tokens. -/
theorem refused_of_not_ok {limit : Nat} {tokens : List Token} {failure : ReadingFailure}
    (hv : ∀ t ∈ tokens, t.Valued) (hl : ¬ TooDeep limit ⟨tokens, none⟩)
    (h : program limit ⟨tokens, none⟩ = .error failure) :
    ∃ ts t vs e, TokenStream.complete tokens = ts ++ t :: vs ∧
      (∀ u ∈ ts, u.kind ≠ .endOfInput) ∧ Refused limit ts t (.error e) ∧ failure = .error e := by
  obtain ⟨c, last, body, hc, hbody, hlast, hcomplete⟩ := TokenStream.exists_passes_of_start tokens
  obtain ⟨hvalued, hfault⟩ := Cursor.valued_of_take hc hv
  rcases refused_of_error hc hvalued h with ⟨fault, hf, -⟩ | ⟨ts, d, found, hp, hr, rfl⟩
  · rw [hfault] at hf
    cases hf
  · obtain ⟨vs, hvs⟩ := hp.exists_append hbody hlast
    cases found with
    | error e => exact ⟨ts, d.current, vs, e, hcomplete.trans hvs, hp.kind_ne, hr, rfl⟩
    | limit reached => exact absurd ⟨reached, h⟩ hl
    | notNumeral text => exact hr.found.elim

/-- **Errors are reported at the earliest possible token.**  Take tokens of the kinds and texts
that the scanner makes, cut behind the first end of input or with one supplied, and not nested
too deeply.  If reading them fails with an error that carries a token, then the tokens before
that one begin a sentence, together with it they begin none, and it was the last one pulled.
And if they are no sentence, then reading them does fail with such an error. -/
theorem program_error_earliest (limit : Nat) (tokens : List Token)
    (hs : ∀ t ∈ tokens, t.Scannable) (hl : ¬ TooDeep limit ⟨tokens, none⟩) :
    (∀ e t, program limit ⟨tokens, none⟩ = .error (.error e) → e.Blames t →
      ∃ i, (TokenStream.complete tokens)[i]? = some t ∧
        Begins Sentence (((TokenStream.complete tokens).take i).map Token.kind) ∧
        ¬ Begins Sentence (((TokenStream.complete tokens).take (i + 1)).map Token.kind) ∧
        PullsExactly limit (TokenStream.complete tokens) (i + 1) (.error (.error e))) ∧
    (¬ Sentence ((TokenStream.complete tokens).map Token.kind) →
      ∃ e t, program limit ⟨tokens, none⟩ = .error (.error e) ∧ e.Blames t) := by
  have hv : ∀ t ∈ tokens, t.Valued := fun t ht => (hs t ht).valued
  constructor
  · intro e t he ht
    obtain ⟨ts, u, vs, e', hcomplete, hk, hr, hfailure⟩ := refused_of_not_ok hv hl he
    cases hfailure
    obtain rfl := hr.found.unique ht
    have hvalued : ∀ v ∈ ts ++ [u], v.Valued := by
      intro v hm
      refine valued_of_mem_complete hv ?_
      rw [hcomplete, List.append_cons]
      exact List.mem_append_left vs hm
    rw [hcomplete]
    refine ⟨ts.length, by simp, by simpa using hr.begins, ?_, ?_⟩
    · rw [take_succ_append]
      exact hr.not_begins hvalued
    · exact hr.pullsExactly hk (fun v hm => hvalued v (List.mem_append_left _ hm)) vs
  · intro hsentence
    cases hp : program limit ⟨tokens, none⟩ with
    | ok tree => exact absurd ((program_eq_ok_iff _ _ _).mp hp).reads hsentence
    | error failure =>
      obtain ⟨ts, t, -, e, -, -, hr, rfl⟩ := refused_of_not_ok hv hl hp
      exact ⟨e, t, rfl, hr.found⟩

/-- Two arguments without a comma: the second one is the token, and it is not in the way of
what stands before it. -/
theorem program_error_earliest_call :
    let tokens := (TokenStream.scan "ㄱ(1 2)").tokens
    (∀ t ∈ tokens, t.Scannable) ∧ ¬ TooDeep 40 ⟨tokens, none⟩ ∧
      ∃ e t, program 40 ⟨tokens, none⟩ = .error (.error e) ∧ e.Blames t ∧
        ∃ i, (TokenStream.complete tokens)[i]? = some t ∧
          Begins Sentence (((TokenStream.complete tokens).take i).map Token.kind) ∧
          ¬ Begins Sentence (((TokenStream.complete tokens).take (i + 1)).map Token.kind) ∧
          PullsExactly 40 (TokenStream.complete tokens) (i + 1) (.error (.error e)) := by
  intro tokens
  have hs : ∀ t ∈ tokens, t.Scannable := fun t ht => ⟨_, t, ht, rfl, rfl⟩
  have hl : ¬ TooDeep 40 ⟨tokens, none⟩ := not_tooDeep_of_length (by decide +kernel)
  let second : Token := ⟨.number, "2", ⟨⟨0, 4⟩, ⟨0, 4⟩⟩⟩
  have hfails : (match program 40 ⟨tokens, none⟩ with
      | .ok _ => none
      | .error failure => some failure) =
        some (.error (Error.mismatchedToken .rightParenthesis second)) := by decide +kernel
  cases hp : program 40 ⟨tokens, none⟩ with
  | ok tree =>
    rw [hp] at hfails
    cases hfails
  | error failure =>
    rw [hp] at hfails
    obtain rfl := Option.some.inj hfails
    have hblames : (Error.mismatchedToken .rightParenthesis second).Blames second :=
      Or.inr ⟨_, rfl⟩
    exact ⟨hs, hl, _, second, rfl, hblames,
      (program_error_earliest 40 tokens hs hl).1 _ second hp hblames⟩

end Grammar
end HangulScript
