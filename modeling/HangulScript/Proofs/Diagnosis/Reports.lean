import HangulScript.Diagnosis.Report
import HangulScript.Proofs.Evaluation.Blame
import HangulScript.Proofs.Evaluation.Defects
import HangulScript.Proofs.Grammar.Extents

/-!
# Reports mark their errors

Every error of a source points into the source: it is found while reading, at a token or at a
character that begins none, or it is raised at a node of the tree that was read, or the whole
tree was too deep to evaluate.  The end of the source is the one place without a character that
an error can have, and only an error about the end of input has it.

A report is then what it is meant to be, three lines.  The first must not be broken, so no
message may hold a newline; messages quote texts of tokens, but they name variables and operators
as they are, and it is the tree that keeps those on one line.  The second is the line of the
source with the row of the range, which is there.  The third has carets under the columns of the
range.
-/

namespace HangulScript

/-! ## Messages are on one line -/

section OneLine

theorem newline_not_mem_hexDigits (width n : Nat) : '\n' ∉ Text.hexDigits width n :=
  Text.not_mem_hexDigits (by decide) width n

theorem newline_not_mem_quotedChar {quote : Char} (hq : quote ≠ '\n') (c : Char) :
    '\n' ∉ Text.quotedChar quote c := by
  unfold Text.quotedChar
  split
  next h =>
    simp only [Bool.or_eq_true, decide_eq_true_eq] at h
    rcases h with rfl | rfl
    · simpa using hq.symm
    · decide
  next =>
  split
  · decide
  next hc =>
  repeat' split
  · decide
  · decide
  · simpa using Ne.symm hc
  · unfold Text.codePointEscape
    repeat' split
    all_goals simp [newline_not_mem_hexDigits]

/-- Quoting a text breaks no line. -/
theorem newline_not_mem_quoted (text : String) : '\n' ∉ (Text.quoted text).toList := by
  have hq : Text.quoteFor text.toList ≠ '\n' := by
    unfold Text.quoteFor
    split <;> decide
  simp only [Text.quoted, String.toList_ofList, List.cons_append, List.mem_cons, List.mem_append,
    List.mem_flatMap, List.not_mem_nil, or_false, not_or, not_exists, not_and]
  exact ⟨hq.symm, fun c _ => newline_not_mem_quotedChar hq c, hq.symm⟩

theorem newline_not_mem_toDigits (n : Nat) : '\n' ∉ Nat.toDigits 10 n := fun hm => by
  have hdigit := Nat.isDigit_of_mem_toDigits (by decide) (by decide) hm
  cases hdigit

theorem newline_not_mem_repr (n : Int) : '\n' ∉ n.repr.toList := by
  rw [Int.repr_eq_if]
  split <;> simp [newline_not_mem_toDigits]

theorem newline_not_mem_label (kind : TokenKind) : '\n' ∉ kind.label.toList := by
  cases kind <;> decide

theorem newline_not_mem_typeName (v : Value) : '\n' ∉ v.typeName.toList := by
  unfold Value.typeName
  split <;> decide

/-- A headline is on one line if the message is. -/
theorem Error.newline_not_mem_headline {e : Error} (h : '\n' ∉ e.message.toList) :
    '\n' ∉ e.headline.toList := by
  have hlabel : '\n' ∉ e.cause.label.toList := by
    unfold Cause.label
    split <;> decide +kernel
  simp [Error.headline, Error.place, hlabel, h, newline_not_mem_repr]

theorem newline_not_mem_append {s t : String} (hs : '\n' ∉ s.toList) (ht : '\n' ∉ t.toList) :
    '\n' ∉ (s ++ t).toList := by
  rw [String.toList_append, List.mem_append, not_or]
  exact ⟨hs, ht⟩

/-- What is found at a token is quoted, or named by its kind. -/
theorem Error.Blames.newline_not_mem {e : Error} {t : Token} (h : e.Blames t) :
    '\n' ∉ e.message.toList := by
  have hend : '\n' ∉ "unexpected end of input".toList := by decide +kernel
  have hunexpected : '\n' ∉ "unexpected token ".toList := by decide +kernel
  have hfound : '\n' ∉ (Cause.found t).toList := by
    unfold Cause.found
    split
    · decide +kernel
    · exact newline_not_mem_quoted t.text
  rcases h with rfl | ⟨kind, rfl⟩
  · show '\n' ∉ (if t.kind = .endOfInput then _ else _ : String).toList
    split
    · exact hend
    · exact newline_not_mem_append hunexpected (newline_not_mem_quoted t.text)
  · exact newline_not_mem_append (newline_not_mem_append (newline_not_mem_append
      (by decide +kernel) (newline_not_mem_label kind)) (by decide +kernel)) hfound

/-- A name that can be written is on one line. -/
theorem newline_not_mem_of_isName {text : List Char} (h : IsName text) : '\n' ∉ text := by
  obtain ⟨⟨c, more, rfl, hc, hmore⟩, -⟩ := h
  exact Lexeme.newline_not_mem_of_spells (.name hc hmore)

/-- A node that names a variable has it on one line, if it can be written. -/
theorem Node.Written.newline_not_mem_name {r : Range} {name : String}
    (h : (Node.identifier r name).Written) : '\n' ∉ name.toList := by
  refine newline_not_mem_of_isName ?_
  cases h with
  | expression h => exact h
  | parameter h =>
    obtain ⟨range, other, he, h⟩ := h
    cases he
    exact h
  | absent h => cases h
  | program h | block h | statement h => exact h.elim

/-- What is raised at a node that can be written names nothing with a newline. -/
theorem Node.Raises.newline_not_mem {n : Node} {e : Error} (h : n.Raises e) (hn : n.Written) :
    '\n' ∉ e.message.toList := by
  have hfronts : ∀ op ∈ Operator.fronts, '\n' ∉ op.toList := by decide
  have hinfixes : ∀ op ∈ Operator.infixes, '\n' ∉ op.toList := by decide
  have hfixed : ∀ cause ∈ [Cause.badAssignmentTarget, .missingReturn, .topLevelReturn],
      '\n' ∉ cause.message.toList := by decide +kernel
  cases h with
  | unbound => exact newline_not_mem_append (by decide +kernel) hn.newline_not_mem_name
  | badUnary =>
    have hop := hfronts _ (List.contains_iff_mem.mp hn.hasKnownOperator)
    exact newline_not_mem_append (newline_not_mem_append (newline_not_mem_append
      (by decide +kernel) hop) (by decide +kernel)) (newline_not_mem_typeName _)
  | badBinary =>
    have hop := hinfixes _ (List.contains_iff_mem.mp hn.hasKnownOperator)
    exact newline_not_mem_append (newline_not_mem_append (newline_not_mem_append
      (newline_not_mem_append (newline_not_mem_append (by decide +kernel) hop)
      (by decide +kernel)) (newline_not_mem_typeName _)) (by decide +kernel))
      (newline_not_mem_typeName _)
  | notCallable => exact newline_not_mem_append (newline_not_mem_typeName _) (by decide +kernel)
  | badPredicate => exact newline_not_mem_append (by decide +kernel) (newline_not_mem_typeName _)
  | arity =>
    exact newline_not_mem_append (newline_not_mem_append (newline_not_mem_append
      (by decide +kernel) (newline_not_mem_repr _)) (by decide +kernel)) (newline_not_mem_repr _)
  | badTarget => exact hfixed _ (by simp)
  | missingReturn => exact hfixed _ (by simp)
  | topLevelReturn => exact hfixed _ (by simp)

end OneLine

/-! ## Errors of a source -/

/-- What a run has failed with, if it has. -/
def RunReport.failure? (report : RunReport) : Option RunFailure :=
  match report.outcome with
  | .ok _ => none
  | .error failure => some failure

theorem RunReport.outcome_of_failure? {report : RunReport} {failure : RunFailure}
    (h : report.failure? = some failure) : report.outcome = .error failure := by
  unfold RunReport.failure? at h
  cases ho : report.outcome with
  | ok value => simp [ho] at h
  | error found => simpa [ho] using h

/-- **What is raised at a node of a program lies in its source.** -/
theorem Node.Raises.liesIn {limit : Nat} {source : String} {tree n : Node} {e : Error}
    (h : n.Raises e) (hp : Grammar.program limit (TokenStream.scan source) = .ok tree)
    (hn : n.IsPartOf tree) : e.range.LiesIn source.toList := by
  have hlies : ∀ {m : Node}, m.IsPartOf tree → m.standsAlone = true →
      m.range.LiesIn source.toList := fun hm ha => (Grammar.liesIn_of_isPartOf hp hm ha).1
  cases h with
  | unbound | badUnary | badBinary | badTarget | arity => exact hlies hn rfl
  | notCallable hf =>
    refine hlies (hn.child (List.mem_cons_self ..)) ?_
    rw [standsAlone, hf, Bool.true_or]
  | missingReturn => exact (Grammar.liesIn_of_isPartOf hp hn rfl).2 _ _ _ rfl
  | badPredicate hpredicate =>
    refine hlies (hn.child (List.mem_cons_self ..)) ?_
    rw [standsAlone, hpredicate, Bool.true_or]
  | topLevelReturn hs =>
    refine hlies hn ?_
    rw [standsAlone, hs, Bool.or_true]

theorem Node.Raises.isEndOfInput {n : Node} {e : Error} (h : n.Raises e) :
    e.cause.isEndOfInput = false := by
  cases h <;> rfl

/-- A run that fails has failed in evaluating the tree. -/
theorem Session.exists_failure_of_run {s : Session} {scope : ScopeId} {tree : Node}
    {failure : RunFailure} (h : (s.run scope tree).1.outcome = .error failure) :
    ∃ found, failure = .evaluation found ∧
      (Evaluation.program s.verbosity Evaluation.nestingLimit scope tree ⟨s.store, []⟩).1 =
        .error found := by
  have hmap : (Evaluation.program s.verbosity Evaluation.nestingLimit scope tree
      ⟨s.store, []⟩).1.mapError .evaluation = .error failure := h
  cases hrun : (Evaluation.program s.verbosity Evaluation.nestingLimit scope tree
      ⟨s.store, []⟩).1 with
  | ok v =>
    rw [hrun] at hmap
    cases hmap
  | error found =>
    rw [hrun] at hmap
    cases hmap
    exact ⟨found, rfl, rfl⟩

/-- What is evaluated of a source, and what it is evaluated from. -/
structure Evaluated (source : String) (tree : Node) (e : Error) : Prop where
  read : Grammar.programOf source = .ok tree
  fails : (Evaluation.program 0 Evaluation.nestingLimit Session.root tree
    ⟨(Session.start 0).store, []⟩).1 = .error (.error e)

/-- An error of a run is one of reading the source or of evaluating what was read. -/
theorem refused_or_evaluated {source : String} {failure : RunFailure} {e : Error}
    (h : (runProgram source).1.outcome = .error failure) (he : failure.error? = some e) :
    Grammar.programOf source = .error (.error e) ∨ ∃ tree, Evaluated source tree e := by
  unfold runProgram Session.runSource at h
  cases hp : Grammar.programOf source with
  | error found =>
    rw [hp] at h
    cases h
    cases found <;> cases he
    exact Or.inl rfl
  | ok tree =>
    rw [hp] at h
    obtain ⟨found, rfl, hfound⟩ := Session.exists_failure_of_run h
    cases found <;> cases he
    exact Or.inr ⟨tree, hp, hfound⟩

/-- **An error of evaluating a source is raised at a node of its tree, or the whole tree was too
deep**, and then it has statements. -/
theorem Evaluated.raises_or_exhausted {source : String} {tree : Node} {e : Error}
    (h : Evaluated source tree e) :
    (∃ n : Node, n.IsPartOf tree ∧ n.Raises e) ∨
      e = ⟨.callStackExhausted, tree.range⟩ ∧ tree.statements? ≠ some [] := by
  have hbinds : ∀ id name v, ((Session.start 0).store.bindings id).lookup name ≠ some v := by
    intro id name v hv
    rw [Session.start, Store.bindings_addRoot_empty] at hv
    cases hv
  have henv : Evaluation.ShapedFrom (Session.start 0).store (· = Session.root) :=
    fun id _ name v hv => absurd hv (hbinds id name v)
  have hfits := Node.fits_of_renderable (Grammar.renderable_of_program h.read)
  have hfails := h.fails
  rcases Evaluation.program_outcome 0 Evaluation.nestingLimit [] hfits henv with
    ⟨v, hv, -⟩ | ⟨raised, hraised, hevaluates⟩ | hexhausted
  · cases hv.symm.trans hfails
  · cases hraised.symm.trans hfails
    exact Or.inl (Evaluation.fromNodes_of_evaluates (Q := (·.IsPartOf tree))
      (fun n hn c hc => hn.child hc) hevaluates
      (fun id name v hv => absurd hv (hbinds id name v)) .whole).2
  · cases hexhausted.symm.trans hfails
    refine Or.inr ⟨rfl, fun hempty => ?_⟩
    -- without statements there is nothing to evaluate
    have hvalue : (Evaluation.program 0 Evaluation.nestingLimit Session.root tree
        ⟨(Session.start 0).store, []⟩).1 = .ok (.empty tree.range) := by
      simp only [Evaluation.program, Evaluation.programWith, hempty]
      rfl
    cases hvalue.symm.trans hfails

/-- Errors of an evaluation point into the source, and their messages are on one line. -/
theorem Evaluated.pointsInto {source : String} {tree : Node} {e : Error}
    (h : Evaluated source tree e) :
    e.PointsInto source.toList ∧ '\n' ∉ e.message.toList := by
  rcases h.raises_or_exhausted with ⟨n, hn, hraises⟩ | ⟨rfl, hne⟩
  · refine ⟨?_, hraises.newline_not_mem (Node.written_of_isPartOf
      (Grammar.renderable_of_program h.read) hn)⟩
    rw [Error.PointsInto, hraises.isEndOfInput]
    exact hraises.liesIn h.read hn
  · refine ⟨?_, ?_⟩
    · exact Grammar.liesIn_program h.read hne
    · show '\n' ∉ (Cause.message .callStackExhausted).toList
      decide +kernel

/-- **Errors of a source point into it, and their messages are on one line.** -/
theorem pointsInto_of_runProgram {source : String} {failure : RunFailure} {e : Error}
    (h : (runProgram source).1.outcome = .error failure) (he : failure.error? = some e)
    (hc : e.cause ≠ .nestedTooDeeply) :
    e.PointsInto source.toList ∧ '\n' ∉ e.message.toList := by
  rcases refused_or_evaluated h he with hp | ⟨tree, hevaluated⟩
  · refine ⟨Grammar.pointsInto_of_program hp hc, ?_⟩
    obtain ⟨_, hfailure, hfound⟩ := Grammar.exists_foundAt_of_program hp
    cases hfailure
    rcases hfound with ⟨fault, -, rfl⟩ | ⟨t, -, hat⟩
    · exact newline_not_mem_append (by decide +kernel) (newline_not_mem_quoted _)
    · exact (hat.resolve_right fun hdeep => hc (congrArg Error.cause hdeep)).newline_not_mem
  · exact hevaluated.pointsInto

/-! ## Three lines -/

namespace Error

/-- The line under a line of a source that is indented by two, with carets under the columns from
a first one on up to another. -/
def underline (first behind : Nat) : List Char :=
  [' ', ' '] ++ List.replicate first ' ' ++ List.replicate (behind - first) '^'

/-- What a report on a source shows of an error: the line of the source with the first row of its
range, and a caret or more under the columns from the first of the range on up to another. -/
structure Shows (e : Error) (source : String) (line : List Char) (first behind : Nat) : Prop where
  row : ∃ row : Nat, e.range.first.row = row ∧ (Source.lines source.toList)[row]? = some line
  column : e.range.first.column = first
  caret : first < behind
  lines : Source.lines (e.report (some source)).toList =
    [e.headline.toList, ' ' :: ' ' :: line, underline first behind]

theorem newline_not_mem_underline (first behind : Nat) : '\n' ∉ underline first behind := by
  simp [underline, List.mem_replicate]

variable {e : Error} {source : String} {line : List Char} {row first behind : Nat}

/-- A report whose row is there shows its line, and as many carets as there are columns. -/
theorem Shows.of_caretCount (hfirst : e.range.first = ⟨row, first⟩)
    (hline : (Source.lines source.toList)[row]? = some line) (hm : '\n' ∉ e.message.toList)
    (hcaret : first < behind) (hcount : (e.caretCount line).toNat = behind - first) :
    e.Shows source line first behind := by
  refine ⟨⟨row, by rw [hfirst], hline⟩, by rw [hfirst], hcaret, ?_⟩
  have hsource : e.sourceLine? source.toList = some line := by
    simp [sourceLine?, hfirst, hline]
  have hunder : e.caretLine line = underline first behind := by
    simp [caretLine, repeated, underline, hfirst, hcount]
  have hreport : (e.report (some source)).toList =
      ['\n'].intercalate [e.headline.toList, ' ' :: ' ' :: line, underline first behind] := by
    simp [report, reportLines, hsource, hunder]
  rw [hreport, Source.lines]
  refine Text.split_intercalate (List.cons_ne_nil _ _) ?_
  have hl := Source.newline_not_mem_of_line hline
  simp [newline_not_mem_headline hm, newline_not_mem_underline, hl]

/-- An error at the end of a source is shown just past its last line. -/
theorem exists_shows_of_end (h : e.range = Range.point (Source.place source.toList))
    (hm : '\n' ∉ e.message.toList) :
    ∃ line : List Char, e.Shows source line line.length (line.length + 1) := by
  obtain ⟨row, line, hplace, hline⟩ := Source.exists_last_line source.toList
  have hfirst : e.range.first = ⟨row, line.length⟩ := by rw [h, ← hplace]; rfl
  refine ⟨line, .of_caretCount hfirst hline hm (Nat.lt_succ_self _) ?_⟩
  simp [caretCount, h, Range.point]

/-- An error that lies in a source is shown under its columns, or up to the end of the line if its
range goes on in other rows. -/
theorem exists_shows_of_liesIn (h : e.range.LiesIn source.toList) (hm : '\n' ∉ e.message.toList) :
    ∃ line first behind, e.Shows source line first behind ∧ behind ≤ line.length ∧
      if e.range.last.row = e.range.first.row then e.range.last.column + 1 = behind
      else behind = line.length := by
  obtain ⟨row, first, line, hfirst, hline, hlt⟩ := h.first.exists_line
  obtain ⟨lastRow, last, other, hlast, hother, hlt'⟩ := h.last.exists_line
  by_cases hrow : e.range.last.row = e.range.first.row
  · have hrows : lastRow = row := by
      rw [hfirst, hlast] at hrow
      exact Int.ofNat.inj hrow
    subst hrows
    obtain rfl : line = other := Option.some.inj (hline.symm.trans hother)
    have hordered : first ≤ last := by
      have hafter := h.ordered
      rw [hfirst, hlast, Position.notAfter_iff, Bool.eq_false_iff, Ne, Position.before_iff]
        at hafter
      simp only [Int.lt_irrefl, true_and, false_or] at hafter
      omega
    refine ⟨line, first, last + 1, .of_caretCount hfirst hline hm (by omega) ?_, hlt', ?_⟩
    · rw [caretCount, if_pos hrow, hfirst, hlast]
      simp only
      omega
    · rw [if_pos hrow, hlast]
      simp
  · refine ⟨line, first, line.length, .of_caretCount hfirst hline hm hlt ?_, Nat.le_refl _, ?_⟩
    · rw [caretCount, if_neg hrow, hfirst]
      simp only
      omega
    · rw [if_neg hrow]

/-- A report on an error that points into its source has three lines. -/
theorem PointsInto.exists_shows (h : e.PointsInto source.toList) (hm : '\n' ∉ e.message.toList) :
    ∃ line first behind, e.Shows source line first behind := by
  unfold PointsInto at h
  split at h
  · obtain ⟨line, hshows⟩ := exists_shows_of_end h hm
    exact ⟨line, _, _, hshows⟩
  · obtain ⟨line, first, behind, hshows, -⟩ := exists_shows_of_liesIn h hm
    exact ⟨line, first, behind, hshows⟩

end Error

/-- **Every error points into its source, and the carets mark it.**  Take an error that running a
source ends with, other than that reading it reached the nesting limit.  Its range begins and ends
at characters of the source and does not end before it begins; or the end of the input is what is
wrong, and then it is the place just past the last character.  A report on it has three lines: the
headline, the line of the source with the first row of the range, indented, and carets.  Where the
range is on one row they are under its columns, and otherwise under the rest of the line from its
first column on; none is past the end of the line but the one of the end of input. -/
theorem errors_are_marked (source : String) (failure : RunFailure) (e : Error)
    (h : (runProgram source).1.outcome = .error failure) (he : failure.error? = some e)
    (hc : e.cause ≠ .nestedTooDeeply) :
    (if e.cause.isEndOfInput then e.range = Range.point (Source.place source.toList)
      else e.range.LiesIn source.toList) ∧
    ∃ line first behind, e.Shows source line first behind ∧
      if e.cause.isEndOfInput then first = line.length ∧ behind = first + 1
      else behind ≤ line.length ∧
        if e.range.last.row = e.range.first.row then e.range.last.column + 1 = behind
        else behind = line.length := by
  obtain ⟨hpoints, hm⟩ := pointsInto_of_runProgram h he hc
  refine ⟨hpoints, ?_⟩
  unfold Error.PointsInto at hpoints
  split at hpoints
  next hend =>
    obtain ⟨line, hshows⟩ := Error.exists_shows_of_end hpoints hm
    exact ⟨line, _, _, hshows, by simp [hend]⟩
  next hend =>
    obtain ⟨line, first, behind, hshows, hmarks⟩ := Error.exists_shows_of_liesIn hpoints hm
    exact ⟨line, first, behind, hshows, by simpa [hend] using hmarks⟩

/-- A body on two rows that ends without a return: the carets go from its brace to the end of the
first row. -/
theorem errors_are_marked_missingReturn :
    let source := "ㄱ = 함수() \x7b 1\n\x7d ㄱ()"
    ∃ failure e, (runProgram source).1.outcome = .error failure ∧ failure.error? = some e ∧
      e.cause ≠ .nestedTooDeeply ∧ e.range.LiesIn source.toList ∧
      ∃ line, e.Shows source line 9 line.length := by
  intro source
  let e : Error := ⟨.missingReturn, ⟨⟨0, 9⟩, ⟨1, 0⟩⟩⟩
  have hfails : (runProgram source).1.failure? = some (.evaluation (.error e)) := by decide +kernel
  have hcause : e.cause ≠ .nestedTooDeeply := by decide
  obtain ⟨hlies, line, first, behind, hshows, -, hbehind⟩ :=
    errors_are_marked source _ e (RunReport.outcome_of_failure? hfails) rfl hcause
  obtain rfl : behind = line.length := hbehind
  obtain rfl : 9 = first := Int.ofNat.inj hshows.column
  exact ⟨_, e, RunReport.outcome_of_failure? hfails, rfl, hcause, hlies, line, hshows⟩

end HangulScript
