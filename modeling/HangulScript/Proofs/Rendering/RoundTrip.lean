import HangulScript.Proofs.Rendering.Image
import HangulScript.Proofs.Rendering.Writing

/-!
# Writing and reading

Renderable trees can be written, what is written is read back, and only renderable trees are
read.  So the renderable trees are, ranges aside, exactly the image of the parser.
-/

namespace HangulScript
namespace Grammar

open Node

/-! ## Renderable trees have texts -/

/-- Each of the marks has a spelling. -/
def Spellable (ms : List Mark) : Prop := ∀ m ∈ ms, ∃ text, m.Spelled text

/-- A text that writes marks and, unless it is empty, begins with white space. -/
def WritesApart (ms : List Mark) (text : List Char) : Prop :=
  Writes ms text ∧ ∀ c ∈ text.head?, Text.isGap c = true

/-- Nothing is written as nothing. -/
theorem writesApart_nil : WritesApart [] [] :=
  ⟨fun _ hc => absurd hc List.not_mem_nil, fun _ hc => by cases hc⟩

/-- One mark more is put in front with a blank before it, and the blank ends whatever stands
before. -/
theorem WritesApart.cons {m : Mark} {ms : List Mark} {spelling rest : List Char}
    (h : WritesApart ms rest) (hm : m.Spelled spelling) :
    WritesApart (m :: ms) (' ' :: (spelling ++ rest)) := by
  obtain ⟨hrest, hhead⟩ := h
  have hspace : Text.isGap ' ' = true := by decide
  refine ⟨⟨[' '], spelling, rest, rfl, ?_, hm, hhead, hrest⟩, ?_⟩
  · intro c hc
    obtain rfl := List.mem_singleton.mp hc
    exact hspace
  · rintro c hc
    cases hc
    exact hspace

/-- Marks that all have a spelling have a text: each of them with a blank before it. -/
theorem exists_writesApart_of_spellable {ms : List Mark} (h : Spellable ms) :
    ∃ text, WritesApart ms text := by
  induction ms with
  | nil => exact ⟨[], writesApart_nil⟩
  | cons m ms ih =>
    obtain ⟨spelling, hm⟩ := h m (List.mem_cons_self ..)
    obtain ⟨rest, hrest⟩ := ih fun m' hm' => h m' (List.mem_cons_of_mem m hm')
    exact ⟨_, hrest.cons hm⟩

/-- No marks have a spelling each. -/
theorem spellable_nil : Spellable [] := fun _ hm => absurd hm List.not_mem_nil

/-- So have marks and then further marks. -/
theorem Spellable.append {as bs : List Mark} (ha : Spellable as) (hb : Spellable bs) :
    Spellable (as ++ bs) :=
  List.forall_mem_append.mpr ⟨ha, hb⟩

/-- A sign has the spelling that its kind has, if the kind is one of a sign. -/
theorem Spellable.cons_sign {ms : List Mark} (h : Spellable ms) (kind : TokenKind)
    (hk : kind ∈ signKinds) : Spellable (.sign kind :: ms) :=
  List.forall_mem_cons.mpr ⟨⟨_, .sign hk⟩, h⟩

/-- Parentheses around a node in its place add two signs. -/
theorem Spellable.placed {ms : List Mark} (h : Spellable ms) (position : Stratum) (n : Node) :
    Spellable (placed position n ms) := by
  unfold Node.placed
  split
  · exact h
  · exact (h.cons_sign _ (by decide)).append (spellable_nil.cons_sign _ (by decide))

/-- A name spells itself, if it is one. -/
theorem Spellable.cons_name {name : String} {ms : List Mark} (hn : IsName name.toList)
    (h : Spellable ms) : Spellable (.name name :: ms) :=
  List.forall_mem_cons.mpr ⟨⟨_, .name hn⟩, h⟩

/-- Parameters behind the first are names behind commas. -/
theorem spellable_furtherParameters {ps : List Node} (h : ∀ p ∈ ps, IsParameter p) :
    Spellable (marksOfFurther ps) := by
  induction ps with
  | nil => exact spellable_nil
  | cons p ps ih =>
    obtain ⟨⟨range, name, rfl, hn⟩, hps⟩ := List.forall_mem_cons.mp h
    exact ((ih hps).cons_name hn).cons_sign _ (by decide)

/-- Parameters are names with commas between them. -/
theorem spellable_parameters {ps : List Node} (h : ∀ p ∈ ps, IsParameter p) :
    Spellable (marksOfItems ps) := by
  cases ps with
  | nil => exact spellable_nil
  | cons p ps =>
    obtain ⟨⟨range, name, rfl, hn⟩, hps⟩ := List.forall_mem_cons.mp h
    exact (spellable_furtherParameters hps).cons_name hn

mutual

/-- **Expressions have spellings**: literals of their own, names and operators by what being
renderable says of them, and all else by their parts. -/
theorem spellable_expression : ∀ n : Node, n.IsExpression → Spellable n.marks
  | .number range value, ⟨text, hp, hv⟩ => by
    exact List.forall_mem_singleton.mpr ⟨text, .number hp hv⟩
  | .boolean range value, _ => by
    cases value with
    | true => exact spellable_nil.cons_sign _ (by decide)
    | false => exact spellable_nil.cons_sign _ (by decide)
  | .string range value, ⟨hnewline, hquote⟩ => by
    refine List.forall_mem_singleton.mpr ?_
    rcases hquote with h | h
    · exact ⟨_, .string (Or.inl rfl) h hnewline⟩
    · exact ⟨_, .string (Or.inr rfl) h hnewline⟩
  | .identifier range name, hn => spellable_nil.cons_name hn
  | .unary range op e, ⟨⟨kind, hk, ho⟩, he⟩ => by
    rw [marks, frontKind_of_sign hk ho]
    exact ((spellable_expression e he).placed _ _).cons_sign _ (frontOperators_signKinds kind hk)
  | .binary range op a b, ⟨⟨kind, hk, _, ho⟩, ha, hb⟩ => by
    rw [marks, infixKind_of_sign hk ho]
    have hl := (spellable_expression a ha).placed (tier op).left a
    have hr := (spellable_expression b hb).placed (tier op).right b
    exact hl.append (hr.cons_sign _ (infixOperators_signKinds kind hk))
  | .assignment range a b, ⟨ha, hb⟩ => by
    have hl := (spellable_expression a ha).placed .equality a
    have hr := (spellable_expression b hb).placed .assignment b
    exact hl.append (hr.cons_sign _ (by decide))
  | .function range ps b, ⟨hp, hb⟩ => by
    have hbody := (spellable_block b hb).cons_sign .rightParenthesis (by decide)
    have hparams := (spellable_parameters hp).cons_sign .leftParenthesis (by decide)
    exact (hparams.append hbody).cons_sign _ (by decide)
  | .call range f as, ⟨hf, ha⟩ => by
    have hargs := (spellable_items as ha).cons_sign .leftParenthesis (by decide)
    have hclosing := spellable_nil.cons_sign .rightParenthesis (by decide)
    exact ((spellable_expression f hf).placed .call f).append (hargs.append hclosing)
  | .absent, hn | .program .., hn | .block .., hn | .expressionStatement .., hn
  | .returnStatement .., hn | .branch .., hn => hn.elim

/-- Arguments have the spellings of expressions, with commas between them. -/
theorem spellable_items : ∀ ns : List Node, AreExpressions ns → Spellable (marksOfItems ns)
  | [], _ => spellable_nil
  | n :: ns, ⟨hn, hns⟩ => (spellable_expression n hn).append (spellable_furtherItems ns hns)

/-- Arguments behind the first stand behind commas. -/
theorem spellable_furtherItems : ∀ ns : List Node, AreExpressions ns →
    Spellable (marksOfFurther ns)
  | [], _ => spellable_nil
  | n :: ns, ⟨hn, hns⟩ =>
    ((spellable_expression n hn).append (spellable_furtherItems ns hns)).cons_sign _ (by decide)

/-- A block is its statements between braces. -/
theorem spellable_block : ∀ n : Node, n.IsBlock → Spellable n.marks
  | .block range inner, hn => by
    have hopening := (spellable_statements inner hn).cons_sign .leftBrace (by decide)
    exact hopening.append (spellable_nil.cons_sign _ (by decide))
  | .absent, hn | .program .., hn | .expressionStatement .., hn | .returnStatement .., hn
  | .branch .., hn | .number .., hn | .boolean .., hn | .string .., hn | .identifier .., hn
  | .unary .., hn | .binary .., hn | .assignment .., hn | .function .., hn | .call .., hn =>
    hn.elim

/-- A statement is an expression, a keyword before one, or a keyword with a predicate and blocks.
-/
theorem spellable_statement : ∀ n : Node, n.IsStatement → Spellable n.marks
  | .expressionStatement range e, hn => spellable_expression e hn
  | .returnStatement range e, hn => (spellable_expression e hn).cons_sign _ (by decide)
  | .branch range p c a, ⟨hp, hc, ha⟩ => by
    have hfront := (spellable_expression p hp).cons_sign .ifKeyword (by decide)
    have hback : Spellable (if a.isAbsent then [] else .sign .elseKeyword :: a.marks) := by
      split
      next => exact spellable_nil
      next hpresent =>
        exact (spellable_block a (ha.resolve_left hpresent)).cons_sign _ (by decide)
    exact hfront.append ((spellable_block c hc).append hback)
  | .absent, hn | .program .., hn | .block .., hn | .number .., hn | .boolean .., hn
  | .string .., hn | .identifier .., hn | .unary .., hn | .binary .., hn | .assignment .., hn
  | .function .., hn | .call .., hn => hn.elim

/-- Statements stand one behind the other, with nothing between them. -/
theorem spellable_statements : ∀ ns : List Node, AreStatements ns → Spellable (marksOfAll ns)
  | [], _ => spellable_nil
  | n :: ns, ⟨hn, _, hns⟩ => (spellable_statement n hn).append (spellable_statements ns hns)

end

/-! ## The round trip -/

/-- Few marks are not nested too deeply. -/
theorem not_tooDeep_of_writes {limit : Nat} {ms : List Mark} {source : String}
    (hw : Writes ms source.toList) (hl : 2 * ms.length + 3 < limit) :
    ¬ TooDeep limit (TokenStream.scan source) := by
  obtain ⟨tokens, final, hscan, hsay, -⟩ := exists_scanFrom_of_writes hw Position.origin
  have hstream : TokenStream.scan source = ⟨tokens ++ [final], none⟩ := hscan
  have hlength : ms.length = tokens.length := hsay.length_eq
  refine not_tooDeep_of_length ?_
  rw [hstream, List.length_append, List.length_singleton]
  omega

/-- The tokens of a renderable program are read, and as that program. -/
theorem exists_program_of_writes {limit : Nat} {tree : Node} {source : String}
    (hr : tree.Renderable) (hw : Writes tree.marks source.toList)
    (hl : ¬ TooDeep limit (TokenStream.scan source)) :
    ∃ tree', program limit (TokenStream.scan source) = .ok tree' ∧ tree'.bare = tree.bare := by
  obtain ⟨tokens, final, hscan, hsay, hfinal⟩ := exists_scanFrom_of_writes hw Position.origin
  have hstream : TokenStream.scan source = ⟨tokens ++ [final], none⟩ := hscan
  have hcomplete : TokenStream.complete (tokens ++ [final]) = tokens ++ [final] := by
    have h := TokenStream.ended_scanFrom Position.origin source.toList Position.origin
      (by rw [hscan])
    rwa [hscan] at h
  cases tree with
  | program range inner =>
    obtain ⟨depth, inner', hd, he⟩ := yields_statements inner tokens hr hsay
    have hprogram := Derives.program hd hfinal
    refine ⟨.program (programRange final inner') inner', ?_, ?_⟩
    · rw [hstream] at hl ⊢
      refine program_eq_ok_of_stratified hl ⟨depth, ?_⟩
      rw [hcomplete]
      exact hprogram
    · show Node.program _ (bareAll inner') = Node.program _ (bareAll inner)
      rw [he]
  | _ => exact hr.elim

/-- **Only renderable trees are read.**  A tree that is read is derived from tokens that were
scanned, and scanned tokens have the texts that names and literals need. -/
theorem renderable_of_program {limit : Nat} {source : String} {tree : Node}
    (h : program limit (TokenStream.scan source) = .ok tree) : tree.Renderable := by
  have hd := ((program_scan_eq_ok_iff limit source tree).mp h).2
  exact canBeWritten_of_derives hd fun t ht => TokenStream.scanned_of_mem ht

/-- **The parser inverts writing, and nothing else comes out of it.**  A renderable tree has
a text.  However it is written, with only the parentheses it needs and any white space between
its tokens, the text is read back as the same tree, ranges aside, unless it is nested too
deeply, which a text of few marks is not.  And every tree that any text is read as is
renderable. -/
theorem program_roundTrip (limit : Nat) :
    (∀ tree : Node, tree.Renderable →
      (∃ source : String, Writes tree.marks source.toList) ∧
      ∀ source : String, Writes tree.marks source.toList →
        (2 * tree.marks.length + 3 < limit → ¬ TooDeep limit (TokenStream.scan source)) ∧
        (¬ TooDeep limit (TokenStream.scan source) →
          ∃ tree', program limit (TokenStream.scan source) = .ok tree' ∧
            tree'.bare = tree.bare)) ∧
    ∀ (source : String) (tree : Node),
      program limit (TokenStream.scan source) = .ok tree → tree.Renderable := by
  refine ⟨fun tree hr => ⟨?_, fun source hw => ⟨?_, ?_⟩⟩, fun source tree h => ?_⟩
  · cases tree with
    | program range inner =>
      obtain ⟨text, hw, -⟩ := exists_writesApart_of_spellable (spellable_statements inner hr)
      exact ⟨String.ofList text, by rw [String.toList_ofList]; exact hw⟩
    | _ => exact hr.elim
  · exact not_tooDeep_of_writes hw
  · exact exists_program_of_writes hr hw
  · exact renderable_of_program h

/-- A call of an assignment, which needs parentheses; the argument needs none. -/
theorem program_roundTrip_call :
    let r := Range.point Position.origin
    let callee : Node := .assignment r (.identifier r "ㄱ") (.identifier r "ㄴ")
    let tree : Node :=
      .program r [.expressionStatement r (.call r callee [.identifier r "ㄷ"])]
    let source := " ( ㄱ = ㄴ ) ( ㄷ )"
    tree.Renderable ∧ Writes tree.marks source.toList ∧ ¬ TooDeep 40 (TokenStream.scan source) ∧
      ∃ tree', program 40 (TokenStream.scan source) = .ok tree' ∧ tree'.bare = tree.bare ∧
        tree'.Renderable := by
  intro r callee tree source
  have hname : ∀ name ∈ ["ㄱ", "ㄴ", "ㄷ"], IsName name.toList := by
    have hall : ∀ name ∈ ["ㄱ", "ㄴ", "ㄷ"], ∃ c, name.toList = [c] ∧
        Text.isNameStart c = true ∧ [c] ∉ keywords.map Prod.fst := by
      simp only [List.forall_mem_cons]
      exact ⟨⟨'ㄱ', rfl, by decide +kernel⟩, ⟨'ㄴ', rfl, by decide +kernel⟩,
        ⟨'ㄷ', rfl, by decide +kernel⟩, fun _ h => absurd h List.not_mem_nil⟩
    intro name hmem
    obtain ⟨c, hc, hstart, hkeyword⟩ := hall name hmem
    rw [hc]
    exact ⟨⟨c, [], rfl, hstart, fun d hd => absurd hd List.not_mem_nil⟩, hkeyword⟩
  have hr : tree.Renderable := by
    have hparted : Parted (.expressionStatement r (.call r callee [.identifier r "ㄷ"])) [] := by
      intro _ range e he
      cases he
    exact ⟨⟨⟨hname "ㄱ" (by decide), hname "ㄴ" (by decide)⟩, hname "ㄷ" (by decide), trivial⟩,
      hparted, trivial⟩
  have hw : Writes tree.marks source.toList := by
    have hmarks : tree.marks = [.sign .leftParenthesis, .name "ㄱ", .sign .assign, .name "ㄴ",
        .sign .rightParenthesis, .sign .leftParenthesis, .name "ㄷ", .sign .rightParenthesis] := by
      rfl
    have htext : source.toList = [' ', '(', ' ', 'ㄱ', ' ', '=', ' ', 'ㄴ', ' ', ')', ' ', '(',
        ' ', 'ㄷ', ' ', ')'] := by
      decide +kernel
    rw [hmarks, htext]
    have hsign : ∀ kind ∈ signKinds, (Mark.sign kind).Spelled kind.sign := fun _ hk => .sign hk
    have hend := writesApart_nil.cons (hsign .rightParenthesis (by decide))
    have hargument := hend.cons (.name (hname "ㄷ" (by decide)))
    have hcall := hargument.cons (hsign .leftParenthesis (by decide))
    have hclosing := hcall.cons (hsign .rightParenthesis (by decide))
    have hright := hclosing.cons (.name (hname "ㄴ" (by decide)))
    have hassign := hright.cons (hsign .assign (by decide))
    have hleft := hassign.cons (.name (hname "ㄱ" (by decide)))
    exact (hleft.cons (hsign .leftParenthesis (by decide))).1
  obtain ⟨hwriting, hreading⟩ := program_roundTrip 40
  obtain ⟨hshallow, hread⟩ := (hwriting tree hr).2 source hw
  have hl : ¬ TooDeep 40 (TokenStream.scan source) := hshallow (by decide)
  obtain ⟨tree', hp, hb⟩ := hread hl
  exact ⟨hr, hw, hl, tree', hp, hb, hreading source tree' hp⟩

end Grammar
end HangulScript
