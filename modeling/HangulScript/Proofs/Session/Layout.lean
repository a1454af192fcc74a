import HangulScript.Proofs.Evaluation.Positions

/-!
# The layout of a source text is of no account

Two source texts have the same tokens if these agree in kind and text, one after the other.  How
they are spaced, and how they are broken into lines, makes no difference to what a text does when
it is run: it ends with the same value or the same error, and leaves the same names bound to the
same values.  What differs is ranges, in values and errors, and they differ nowhere else.

To say so, ranges are blanked.  The *bare* session is the one in which all ranges of values are
the same, and likewise for reports; two texts with the same tokens are run from sessions that
have the same bare session to the same bare report and the same bare session again.
-/

namespace HangulScript

/-! ## Sessions at other ranges -/

section Maps

variable (f : Range → Range)

/-- The failure with a function applied to every range in it. -/
def RunFailure.mapRanges : RunFailure → RunFailure
  | .reading failure => .reading (failure.mapRanges f)
  | .evaluation failure => .evaluation (failure.mapRanges f)

/-- The report with a function applied to every range in it. -/
def RunReport.mapRanges (r : RunReport) : RunReport :=
  ⟨(r.outcome.map (Value.mapRanges f)).mapError (RunFailure.mapRanges f),
    r.events.map (Event.mapRange f)⟩

/-- The session with a function applied to every range in it. -/
def Session.mapRanges (s : Session) : Session := ⟨s.verbosity, s.store.mapRanges f⟩

end Maps

/-- Every range is the same. -/
def Range.blank (_ : Range) : Range := Range.point Position.origin

/-- The report without its ranges. -/
def RunReport.bare (r : RunReport) : RunReport := r.mapRanges Range.blank

/-- The session without its ranges. -/
def Session.bare (s : Session) : Session := s.mapRanges Range.blank

/-- **Running a tree at other ranges.** -/
theorem Session.run_mapRanges (f : Range → Range) (s : Session) (scope : ScopeId) (tree : Node) :
    (s.mapRanges f).run scope (tree.mapRanges f) =
      ((s.run scope tree).1.mapRanges f, (s.run scope tree).2.mapRanges f) := by
  have h := Evaluation.program_mapRanges f s.verbosity Evaluation.nestingLimit scope tree
    ⟨s.store, []⟩
  have hm : (⟨s.store, []⟩ : Machine).mapRanges f = ⟨s.store.mapRanges f, []⟩ := rfl
  rw [hm] at h
  simp only [run, Session.mapRanges, h]
  generalize Evaluation.program _ _ _ _ _ = r
  obtain ⟨outcome, m⟩ := r
  refine Prod.ext ?_ rfl
  show RunReport.mk _ _ = RunReport.mk _ _
  congr 1
  · cases outcome <;> rfl
  · exact (List.map_reverse ..).symm

/-- Trees that are the same but for ranges run alike, from sessions that are the same but for
ranges. -/
theorem Session.run_of_blank {s s' : Session} (hs : s.bare = s'.bare) (scope : ScopeId)
    {tree tree' : Node} (h : tree.mapRanges Range.blank = tree'.mapRanges Range.blank) :
    (s.run scope tree).1.bare = (s'.run scope tree').1.bare ∧
      (s.run scope tree).2.bare = (s'.run scope tree').2.bare := by
  have hrun := s.run_mapRanges Range.blank scope tree
  have hrun' := s'.run_mapRanges Range.blank scope tree'
  change s.bare.run scope _ = _ at hrun
  rw [hs, h] at hrun
  have heq := hrun.symm.trans hrun'
  exact ⟨congrArg Prod.fst heq, congrArg Prod.snd heq⟩

/-! ## The same tokens -/

namespace TokenStream

/-- The tokens of two streams agree in kind and text, and the streams are cut short by the same
character or not at all. -/
def SameTokens (s t : TokenStream) : Prop :=
  s.tokens.map (fun x => (x.kind, x.text)) = t.tokens.map (fun x => (x.kind, x.text)) ∧
    s.fault.map ScanFault.character = t.fault.map ScanFault.character

instance (s t : TokenStream) : Decidable (s.SameTokens t) := inferInstanceAs (Decidable (_ ∧ _))

/-- Streams with the same tokens are one stream if all positions are the same. -/
theorem SameTokens.mapPositions_eq {s t : TokenStream} (h : s.SameTokens t) (p : Position) :
    s.mapPositions (fun _ => p) = t.mapPositions (fun _ => p) := by
  have htokens : ∀ x : TokenStream, x.tokens.map (Token.mapRange (Range.mapEnds fun _ => p)) =
      (x.tokens.map fun t => (t.kind, t.text)).map fun k => ⟨k.1, k.2, ⟨p, p⟩⟩ := by
    intro x
    rw [List.map_map]
    rfl
  have hfaults : ∀ x : TokenStream, x.fault.map (ScanFault.mapPlace fun _ => p) =
      (x.fault.map ScanFault.character).map fun c => ⟨c, p⟩ := by
    intro x
    rw [Option.map_map]
    rfl
  rw [mapPositions, mapPositions, htokens, htokens, hfaults, hfaults, h.1, h.2]

end TokenStream

/-- Two texts with the same tokens hold the same program, or fail alike, ranges aside. -/
theorem Grammar.program_of_sameTokens (limit : Nat) {s t : TokenStream} (h : s.SameTokens t) :
    ((program limit s).map (Node.mapRanges Range.blank)).mapError
        (ReadingFailure.mapRanges Range.blank) =
      ((program limit t).map (Node.mapRanges Range.blank)).mapError
        (ReadingFailure.mapRanges Range.blank) := by
  have hs := program_mapPositions (fun _ => Position.origin) limit s (Or.inr (Or.inr rfl))
  have ht := program_mapPositions (fun _ => Position.origin) limit t (Or.inr (Or.inr rfl))
  rw [h.mapPositions_eq] at hs
  exact hs.symm.trans ht

/-- Texts with the same tokens run alike, from sessions that are the same but for ranges. -/
theorem Session.runSource_of_sameTokens {s s' : Session} (hs : s.bare = s'.bare) (scope : ScopeId)
    {a b : String} (h : (TokenStream.scan a).SameTokens (TokenStream.scan b)) :
    (s.runSource scope a).1.bare = (s'.runSource scope b).1.bare ∧
      (s.runSource scope a).2.bare = (s'.runSource scope b).2.bare := by
  have hprogram := Grammar.program_of_sameTokens Grammar.nestingLimit h
  unfold runSource Grammar.programOf
  generalize Grammar.program _ (TokenStream.scan a) = x at hprogram ⊢
  generalize Grammar.program _ (TokenStream.scan b) = y at hprogram ⊢
  cases x with
  | ok tree =>
    cases y with
    | ok tree' => exact run_of_blank hs scope (Except.ok.inj hprogram)
    | error failure' => cases hprogram
  | error failure =>
    cases y with
    | ok tree' => cases hprogram
    | error failure' =>
      have hfailure : failure.mapRanges Range.blank = failure'.mapRanges Range.blank :=
        Except.error.inj hprogram
      refine ⟨?_, hs⟩
      show RunReport.mk (.error (.reading (failure.mapRanges _))) [] =
        RunReport.mk (.error (.reading (failure'.mapRanges _))) []
      rw [hfailure]

/-! ## Positions -/

/-- **Positions never matter.**  With a function applied to both ends of the range of every
token, a stream is read as before, to the tree or to the failure, with the function applied to
both ends of every range.  With a function applied to every range of a tree and of a machine,
the tree is evaluated as before, to the value or to the failure, with the same scopes and the
same events, and with the function applied to every range.  No message and no name of an error
changes with ranges.  So texts with the same tokens, run in sessions that are the same but for
ranges, give the same report and leave the same session, but for ranges. -/
theorem positions_never_matter :
    (∀ (f : Position → Position) (limit : Nat) (stream : TokenStream), stream.tokens ≠ [] →
      Grammar.program limit (stream.mapPositions f) =
        ((Grammar.program limit stream).map (Node.mapRanges (Range.mapEnds f))).mapError
          (ReadingFailure.mapRanges (Range.mapEnds f))) ∧
    (∀ (f : Range → Range) (verbosity limit : Nat) (scope : ScopeId) (tree : Node) (m : Machine),
      Evaluation.program verbosity limit scope (tree.mapRanges f) (m.mapRanges f) =
        (Evaluation.mapOutcome f (Evaluation.program verbosity limit scope tree m).1,
          (Evaluation.program verbosity limit scope tree m).2.mapRanges f)) ∧
    (∀ (f : Range → Range) (cause : Cause), (cause.mapRanges f).message = cause.message ∧
      (cause.mapRanges f).label = cause.label) ∧
    ∀ (a b : String) (s s' : Session) (scope : ScopeId),
      (TokenStream.scan a).SameTokens (TokenStream.scan b) → s.bare = s'.bare →
      (s.runSource scope a).1.bare = (s'.runSource scope b).1.bare ∧
        (s.runSource scope a).2.bare = (s'.runSource scope b).2.bare := by
  refine ⟨?_, Evaluation.program_mapRanges, ?_, ?_⟩
  · exact fun f limit stream h => Grammar.program_mapPositions f limit stream (Or.inl h)
  · exact fun f cause => ⟨cause.message_mapRanges f, cause.label_mapRanges f⟩
  · exact fun a b s s' scope h hs => Session.runSource_of_sameTokens hs scope h

/-- An assignment on one row and on three, and read with its rows and columns swapped. -/
theorem positions_never_matter_rows :
    let swap (p : Position) : Position := ⟨p.column, p.row⟩
    (TokenStream.scan "x = 1").tokens ≠ [] ∧
      (TokenStream.scan "x = 1").SameTokens (TokenStream.scan "x\n  =\n1") ∧
      Grammar.program 9 ((TokenStream.scan "x = 1").mapPositions swap) =
        ((Grammar.program 9 (TokenStream.scan "x = 1")).map
          (Node.mapRanges (Range.mapEnds swap))).mapError
            (ReadingFailure.mapRanges (Range.mapEnds swap)) ∧
      ((Session.start 2).runSource Session.root "x = 1").1.bare =
        ((Session.start 2).runSource Session.root "x\n  =\n1").1.bare := by
  intro swap
  obtain ⟨hread, -, -, hrun⟩ := positions_never_matter
  have hne : (TokenStream.scan "x = 1").tokens ≠ [] := by decide +kernel
  have h : (TokenStream.scan "x = 1").SameTokens (TokenStream.scan "x\n  =\n1") := by
    decide +kernel
  exact ⟨hne, h, hread swap 9 _ hne, (hrun _ _ _ _ Session.root h rfl).1⟩

end HangulScript
