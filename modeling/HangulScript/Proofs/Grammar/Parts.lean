import HangulScript.Proofs.Grammar.Sources
import HangulScript.Proofs.Scanning.Segments
import HangulScript.Proofs.Tree.Parts

/-!
# Parts of what is read

What is derived covers its tokens: its range begins where the first of them begins and ends
where the last of them ends.  And whatever stands in it, however deep, is derived itself from
a stretch of its tokens, with the ranges that it has there (`parts_of_derives`): nothing that
a rule does to a part depends on what is around the part, except that parentheses replace
its range, and then they are among its tokens.

So a window on the range of a part shows the tokens of just that part, and reading what the
window shows gives the part back (`program_window`).

An expression stands one level deeper as a statement than where it was.  In a program no
expression is at the outermost level, so that there is room for this; a parameter needs two
levels, which the function around it has.
-/

namespace HangulScript
namespace Grammar

open Node

/-! ## Ranges and tokens -/

/-- The tokens begin at a position. -/
def BeginAt (p : Position) (ts : List Token) : Prop := ∃ t, ts.head? = some t ∧ t.range.first = p

/-- The tokens end at a position. -/
def EndAt (p : Position) (ts : List Token) : Prop := ∃ t, ts.getLast? = some t ∧ t.range.last = p

/-- A range goes from the first of the tokens to the last. -/
structure Covers (r : Range) (ts : List Token) : Prop where
  begins : BeginAt r.first ts
  ends : EndAt r.last ts

theorem beginAt_cons (t : Token) (ts : List Token) : BeginAt t.range.first (t :: ts) :=
  ⟨t, rfl, rfl⟩

theorem endAt_singleton (t : Token) : EndAt t.range.last [t] := ⟨t, rfl, rfl⟩

theorem BeginAt.append {p : Position} {ts : List Token} (h : BeginAt p ts) (us : List Token) :
    BeginAt p (ts ++ us) := by
  obtain ⟨t, ht, hp⟩ := h
  exact ⟨t, by rw [List.head?_append, ht]; rfl, hp⟩

theorem EndAt.append {p : Position} {us : List Token} (h : EndAt p us) (ts : List Token) :
    EndAt p (ts ++ us) := by
  obtain ⟨t, ht, hp⟩ := h
  exact ⟨t, by rw [List.getLast?_append, ht]; rfl, hp⟩

theorem EndAt.cons {p : Position} {us : List Token} (h : EndAt p us) (t : Token) :
    EndAt p (t :: us) :=
  h.append [t]

/-- The range of what the phrase is goes from the first of the tokens to the last. -/
def Phrase.Covers : Phrase → List Token → Prop
  | .expression _ n, ts | .block n, ts | .statement n, ts => Grammar.Covers n.range ts
  | _, _ => True

theorem range_joined (op : Token) (left right : Node) :
    (joined op left right).range = left.range.span right.range := by
  unfold joined
  split <;> rfl

theorem isExpressionNode_joined (op : Token) (left right : Node) :
    (joined op left right).isExpressionNode = true := by
  unfold joined
  split <;> rfl

/-- What is derived as an expression is of a kind of expressions. -/
theorem isExpressionNode_of_derives {depth : Nat} {s : Stratum} {n : Node} {ts : List Token}
    (h : Derives depth (.expression s n) ts) : n.isExpressionNode = true := by
  generalize hp : Phrase.expression s n = phrase at h
  induction h generalizing s n with
  | number | string | trueKeyword | falseKeyword | name | function | call | unary =>
    cases hp
    rfl
  | grouping _ _ _ ih =>
    cases hp
    rw [isExpressionNode_withRange]
    exact ih rfl
  | binary =>
    cases hp
    exact isExpressionNode_joined ..
  | looser _ _ ih =>
    cases hp
    exact ih rfl
  | _ => cases hp

theorem range_withRange {n : Node} (h : n.isExpressionNode = true) (r : Range) :
    (n.withRange r).range = r := by
  cases n <;> first | rfl | cases h

/-- **Ranges go from the first token to the last.** -/
theorem covers_of_derives {depth : Nat} {phrase : Phrase} {ts : List Token}
    (h : Derives depth phrase ts) : phrase.Covers ts := by
  induction h with
  | number | string | trueKeyword | falseKeyword | name =>
    exact ⟨beginAt_cons _ _, endAt_singleton _⟩
  | function _ _ _ _ _ _ ihb =>
    exact ⟨beginAt_cons _ _, (((ihb.ends.cons _).append _).cons _).cons _⟩
  | @grouping _ opening closing inner ts _ hd _ _ =>
    show Grammar.Covers (inner.withRange (opening.range.span closing.range)).range _
    rw [range_withRange (isExpressionNode_of_derives hd)]
    exact ⟨beginAt_cons _ _, (endAt_singleton closing).append (opening :: ts)⟩
  | call _ _ _ _ ihf _ =>
    exact ⟨(ihf.begins.append _).append _, (endAt_singleton _).append _⟩
  | unary _ _ ih => exact ⟨beginAt_cons _ _, ih.ends.cons _⟩
  | @binary _ op _ left right _ _ _ _ _ ihl ihr =>
    show Grammar.Covers (joined op left right).range _
    rw [range_joined]
    exact ⟨ihl.begins.append _, (ihr.ends.cons op).append _⟩
  | looser _ _ ih => exact ih
  | block => exact ⟨beginAt_cons _ _, (endAt_singleton _).append _⟩
  | expressionStatement _ ih => exact ih
  | returnStatement _ _ ih => exact ⟨beginAt_cons _ _, ih.ends.cons _⟩
  | branch _ _ _ _ ihc => exact ⟨beginAt_cons _ _, ihc.ends.append _⟩
  | branchElse _ _ _ _ _ _ _ iha =>
    exact ⟨beginAt_cons _ _, (iha.ends.cons _).append _⟩
  | _ => trivial

/-! ## Parts and tokens -/

/-- A node is derived, as a statement, from a stretch of the tokens. -/
def ReadAlone (depth : Nat) (n : Node) (ts : List Token) : Prop :=
  ∃ us, us <:+: ts ∧ Derives depth (.statement n.asStatement) us

/-- Every expression and statement in the trees is derived from a stretch of the tokens. -/
def Parts (depth : Nat) (trees : List Node) (ts : List Token) : Prop :=
  ∀ tree ∈ trees, ∀ n : Node, n.IsPartOf tree → n.standsAlone = true → ReadAlone depth n ts

section

variable {depth depth' : Nat} {n : Node} {trees trees' : List Node} {ts us : List Token}

theorem parts_nil : Parts depth [] ts := fun _ h => absurd h List.not_mem_nil

theorem Parts.within (h : Parts depth trees ts) (hd : depth ≤ depth') (hts : ts <:+: us) :
    Parts depth' trees us := by
  intro tree htree n hn ha
  obtain ⟨vs, hvs, hderives⟩ := h tree htree n hn ha
  exact ⟨vs, hvs.trans hts, hderives.deeper hd⟩

theorem Parts.append (h : Parts depth trees ts) (h' : Parts depth trees' ts) :
    Parts depth (trees ++ trees') ts := by
  intro tree htree
  rcases List.mem_append.mp htree with ht | ht
  · exact h tree ht
  · exact h' tree ht

theorem Parts.children (h : Parts depth [n] ts) : Parts depth n.children ts :=
  fun _ hm k hk => h n (List.mem_singleton_self n) k (.inside hm hk)

/-- The parts of a tree are the tree and those of its children. -/
theorem parts_singleton (h : n.standsAlone = true → ReadAlone depth n ts)
    (hc : Parts depth n.children ts) : Parts depth [n] ts := by
  intro tree htree m hm ha
  obtain rfl := List.mem_singleton.mp htree
  rcases isPartOf_iff.mp hm with rfl | ⟨k, hk, hm⟩
  · exact h ha
  · exact hc k hk m hm ha

theorem parts_expression {s : Stratum} (h : Derives depth (.expression s n) ts)
    (hc : Parts (depth + 1) n.children ts) : Parts (depth + 1) [n] ts := by
  refine parts_singleton (fun _ => ⟨ts, List.infix_rfl, ?_⟩) hc
  rw [asStatement_of_isExpressionNode (isExpressionNode_of_derives h)]
  exact .expressionStatement (.looser h (Stratum.assignment_le s))

theorem parts_statement (hn : n.isStatementNode = true) (h : Derives depth (.statement n) ts)
    (hc : Parts depth n.children ts) : Parts depth [n] ts := by
  refine parts_singleton (fun _ => ⟨ts, List.infix_rfl, ?_⟩) hc
  rw [asStatement_of_isStatementNode hn]
  exact h

end

theorem parts_absent (depth : Nat) (ts : List Token) : Parts depth [.absent] ts :=
  parts_singleton (fun h => by cases h) parts_nil

theorem parts_joined {depth : Nat} {op : Token} {left right : Node} {ts : List Token}
    (h : Parts depth [left] ts) (h' : Parts depth [right] ts) :
    Parts depth (joined op left right).children ts := by
  unfold joined
  split <;> exact h.append h'

/-- The trees of a phrase. -/
def Phrase.trees : Phrase → List Node
  | .expression _ n | .parameter n | .block n | .statement n | .program n => [n]
  | .items _ ns | .furtherItems _ ns | .statements ns => ns

/-- How much deeper the expressions in a phrase can be as statements. -/
def Phrase.slack : Phrase → Nat
  | .expression .. => 1
  | .parameter _ | .items .. | .furtherItems .. => 2
  | .block _ | .statement _ | .statements _ | .program _ => 0

theorem Item.slack_phrase (sort : Item) (n : Node) : (sort.phrase n).slack ≤ 2 := by
  cases sort
  · exact Nat.le_succ 1
  · exact Nat.le_refl 2

theorem Item.trees_phrase (sort : Item) (n : Node) : (sort.phrase n).trees = [n] := by
  cases sort <;> rfl

/-- **Parts are derived by themselves**, each from a stretch of the tokens. -/
theorem parts_of_derives {depth : Nat} {phrase : Phrase} {ts : List Token}
    (h : Derives depth phrase ts) : Parts (depth + phrase.slack) phrase.trees ts := by
  induction h with
  | number hk hv => exact parts_expression (.number hk hv) parts_nil
  | string hk => exact parts_expression (.string hk) parts_nil
  | trueKeyword hk => exact parts_expression (.trueKeyword hk) parts_nil
  | falseKeyword hk => exact parts_expression (.falseKeyword hk) parts_nil
  | name hk => exact parts_expression (.name hk) parts_nil
  | @function depth keyword opening closing params body ts us hk ho hp hc hb ihp ihb =>
    have hparams : Parts (depth + 2) params ts := ihp
    have hbody : Parts depth [body] us := ihb
    exact parts_expression (.function hk ho hp hc hb)
      ((hparams.within (Nat.le_refl _) ⟨[keyword, opening], closing :: us, by simp⟩).append
        (hbody.within (by omega) ⟨keyword :: opening :: ts ++ [closing], [], by simp⟩))
  | @grouping depth opening closing inner ts ho hd hc ih =>
    have hinner : Parts (depth + 1) [inner] ts := ih
    refine parts_expression (.grouping ho hd hc) ?_
    rw [children_withRange]
    exact hinner.children.within (by omega) ⟨[opening], [closing], by simp⟩
  | @call depth callee opening closing args ts us hf ho ha hc ihf iha =>
    have hcallee : Parts (depth + 2) [callee] ts := ihf
    have hargs : Parts (depth + 2) args us := iha
    exact parts_expression (.call hf ho ha hc)
      ((hcallee.within (Nat.le_refl _) ⟨[], opening :: us ++ [closing], by simp⟩).append
        (hargs.within (Nat.le_refl _) ⟨ts ++ [opening], [closing], by simp⟩))
  | @unary depth op operand ts hk hd ih =>
    have hoperand : Parts (depth + 1) [operand] ts := ih
    exact parts_expression (.unary hk hd) (hoperand.within (by omega) ⟨[op], [], by simp⟩)
  | @binary depth op tier left right ts us ht hl hr ihl ihr =>
    have hleft : Parts (depth + 2) [left] ts := ihl
    have hright : Parts (depth + 1) [right] us := ihr
    exact parts_expression (.binary ht hl hr)
      (parts_joined (hleft.within (Nat.le_refl _) ⟨[], op :: us, by simp⟩)
        (hright.within (by omega) ⟨ts ++ [op], [], by simp⟩))
  | looser _ _ ih => exact ih
  | @parameter depth t hk =>
    have hname : Derives (depth + 1) (.expression .primary (.identifier t.range t.text)) [t] :=
      .name hk
    exact parts_expression hname parts_nil
  | noItems | lastItem | noStatements => exact parts_nil
  | @items depth sort first others ts us _ _ ihf iho =>
    rw [Item.trees_phrase] at ihf
    have hslack := sort.slack_phrase first
    have hothers : Parts (depth + 2) others us := iho
    exact (ihf.within (by show _ ≤ depth + 2; omega) ⟨[], us, by simp⟩).append
      (hothers.within (Nat.le_refl _) ⟨ts, [], by simp⟩)
  | @furtherItem depth sort comma first others ts us _ _ _ ihf iho =>
    rw [Item.trees_phrase] at ihf
    have hslack := sort.slack_phrase first
    have hothers : Parts (depth + 2) others us := iho
    exact (ihf.within (by show _ ≤ depth + 2; omega) ⟨[comma], us, by simp⟩).append
      (hothers.within (Nat.le_refl _) ⟨comma :: ts, [], by simp⟩)
  | @block depth opening closing inner ts _ _ _ ih =>
    have hinner : Parts depth inner ts := ih
    exact parts_singleton (fun h => by cases h)
      (hinner.within (by omega) ⟨[opening], [closing], by simp⟩)
  | @expressionStatement depth e ts hd ih =>
    have he : Parts (depth + 1) [e] ts := ih
    exact parts_statement rfl (.expressionStatement hd) he
  | @returnStatement depth keyword e ts hk hd ih =>
    have he : Parts (depth + 1) [e] ts := ih
    exact parts_statement rfl (.returnStatement hk hd)
      (he.within (Nat.le_refl _) ⟨[keyword], [], by simp⟩)
  | @branch depth keyword predicate consequence ts us hk hp hc ihp ihc =>
    have hpredicate : Parts (depth + 1) [predicate] ts := ihp
    have hconsequence : Parts depth [consequence] us := ihc
    exact parts_statement rfl (.branch hk hp hc)
      ((hpredicate.within (Nat.le_refl _) ⟨[keyword], us, by simp⟩).append
        ((hconsequence.within (by omega) ⟨keyword :: ts, [], by simp⟩).append (parts_absent _ _)))
  | @branchElse depth keyword between predicate consequence alternative ts us vs hk hp hc he ha
      ihp ihc iha =>
    have hpredicate : Parts (depth + 1) [predicate] ts := ihp
    have hconsequence : Parts depth [consequence] us := ihc
    have halternative : Parts depth [alternative] vs := iha
    exact parts_statement rfl (.branchElse hk hp hc he ha)
      ((hpredicate.within (Nat.le_refl _) ⟨[keyword], us ++ between :: vs, by simp⟩).append
        ((hconsequence.within (by omega) ⟨keyword :: ts, between :: vs, by simp⟩).append
          (halternative.within (by omega) ⟨keyword :: ts ++ us ++ [between], [], by simp⟩)))
  | @statements depth first others ts us _ _ _ ihf iho =>
    have hfirst : Parts depth [first] ts := ihf
    have hothers : Parts depth others us := iho
    exact (hfirst.within (Nat.le_refl _) ⟨[], us, by simp⟩).append
      (hothers.within (Nat.le_refl _) ⟨ts, [], by simp⟩)
  | @program depth final inner ts _ _ ih =>
    have hinner : Parts depth inner ts := ih
    exact parts_singleton (fun h => by cases h)
      (hinner.within (Nat.le_refl _) ⟨[], [final], by simp⟩)

/-! ## Windows on programs -/

/-- A statement is a program, and its range is that of the program. -/
theorem derives_program_of_statement {depth : Nat} {n : Node} {ts : List Token} {final : Token}
    (h : Derives depth (.statement n) ts) (hf : final.kind = .endOfInput) :
    Derives depth (.program (.program n.range [n])) (ts ++ [final]) := by
  have hone := Derives.statements h .noStatements (fun _ t ht => by cases ht)
  rw [List.append_nil] at hone
  exact Derives.program hone hf

/-- **Ranges are faithful.**  Take an expression or a statement anywhere in a program that is
read from a source, a parameter included, and a window on its range.  What the window shows
is read as a program of one statement, and that is the node, or the statement that it is,
with every range as it was. -/
theorem program_window (limit : Nat) (source : String) (tree n : Node)
    (h : program limit (TokenStream.scan source) = .ok tree) (hn : n.IsPartOf tree)
    (ha : n.standsAlone = true) :
    program limit (TokenStream.scan (Source.window n.range source)) =
      .ok (.program n.range [n.asStatement]) := by
  obtain ⟨hfault, hderives⟩ := (program_scan_eq_ok_iff limit source tree).mp h
  have hscans : TokenStream.Scans Position.origin source.toList
      (TokenStream.scan source).tokens := by
    refine TokenStream.scans_iff.mpr ?_
    rw [← hfault]
    rfl
  generalize (TokenStream.scan source).tokens = tokens at hderives hscans
  generalize hp : Phrase.program tree = phrase at hderives
  cases hderives with
  | @program _ final inner ts hinner hk =>
    cases hp
    -- The node is not the program itself, so what it is derived from ends before `final`.
    have hpart : ReadAlone limit n ts := by
      rcases isPartOf_iff.mp hn with rfl | ⟨m, hm, hn⟩
      · cases ha
      · exact parts_of_derives hinner m hm n hn ha
    obtain ⟨us, ⟨before, behind, rfl⟩, hstatement⟩ := hpart
    obtain ⟨⟨t, ht, hfirst⟩, ⟨u, hu, hlast⟩⟩ := covers_of_derives hstatement
    have hrange : t.range.span u.range = n.range := by
      rw [Range.span, hfirst, hlast, range_asStatement]
    have hsplit : before ++ us ++ behind ++ [final] = before ++ (us ++ (behind ++ [final])) := by
      simp
    rw [hsplit] at hscans
    obtain ⟨final', hend, hwindow⟩ := hscans.window (by simp) ht hu
    rw [hrange] at hwindow
    have hstream : TokenStream.scan (Source.window n.range source) = ⟨us ++ [final'], none⟩ := by
      rw [TokenStream.scan, Source.window, String.toList_ofList]
      exact TokenStream.scans_iff.mp hwindow
    have hprogram := derives_program_of_statement hstatement hend
    rw [range_asStatement] at hprogram
    refine (program_scan_eq_ok_iff _ _ _).mpr ?_
    rw [hstream]
    exact ⟨rfl, hprogram⟩
  | _ => cases hp

/-- A right operand in parentheses, on a line of its own. -/
theorem program_window_operand :
    let source := "결과 ㄱ *\n(ㄴ + ㄷ)"
    let n : Node := .binary ⟨⟨1, 0⟩, ⟨1, 6⟩⟩ "+" (.identifier ⟨⟨1, 1⟩, ⟨1, 1⟩⟩ "ㄴ")
      (.identifier ⟨⟨1, 5⟩, ⟨1, 5⟩⟩ "ㄷ")
    let product : Node :=
      .binary ⟨⟨0, 3⟩, ⟨1, 6⟩⟩ "*" (.identifier ⟨⟨0, 3⟩, ⟨0, 3⟩⟩ "ㄱ") n
    let tree : Node :=
      .program ⟨⟨0, 0⟩, ⟨1, 6⟩⟩ [.returnStatement ⟨⟨0, 0⟩, ⟨1, 6⟩⟩ product]
    program 40 (TokenStream.scan source) = .ok tree ∧ n.IsPartOf tree ∧ n.standsAlone = true ∧
      program 40 (TokenStream.scan (Source.window n.range source)) =
        .ok (.program n.range [.expressionStatement n.range n]) := by
  intro source n product tree
  have hread : (program 40 (TokenStream.scan source)).toOption = some tree := by decide +kernel
  have hp : program 40 (TokenStream.scan source) = .ok tree := by
    cases hx : program 40 (TokenStream.scan source) with
    | error e =>
      rw [hx] at hread
      cases hread
    | ok read =>
      rw [hx] at hread
      cases hread
      rfl
  have hn : n.IsPartOf tree :=
    .inside (List.mem_cons_self ..) (.inside (List.mem_cons_self ..)
      (.inside (List.mem_cons_of_mem _ (List.mem_cons_self ..)) .whole))
  exact ⟨hp, hn, rfl, program_window 40 source tree n hp hn rfl⟩

end Grammar
end HangulScript
