import HangulScript.Proofs.Grammar.Sources
import HangulScript.Proofs.Rendering.Renderable

/-!
# What is written is read back

Tokens that say the marks of a tree derive that tree, up to its ranges.  Each rule of the
grammar has a lemma here that puts such derivations together (`Yields.unary`,
`Yields.binary` and so on), and brings those of its parts to one depth first, as the rules
want it.  The induction follows the tree and only cuts the tokens where the marks are
joined.  An operand in parentheses is derived as a primary expression and one without as it
is, so that either way it fits its position (`yields_placed`); this is the only place where
parentheses matter.  Two statements that are parted are derived as two.
-/

namespace HangulScript
namespace Grammar

open Node

/-- Tokens that derive, at some depth, a tree that agrees with another in all but its
ranges. -/
def Yields {α : Type} (phrase : α → Phrase) (bared : α → α) (tree : α) (ts : List Token) : Prop :=
  ∃ depth tree', Derives depth (phrase tree') ts ∧ bared tree' = bared tree

/-- Two derivations can be brought to one depth. -/
theorem Yields.common {α β : Type} {phrase : α → Phrase} {phrase' : β → Phrase} {bared : α → α}
    {bared' : β → β} {a : α} {b : β} {ts us : List Token} (h : Yields phrase bared a ts)
    (h' : Yields phrase' bared' b us) :
    ∃ depth a' b', Derives depth (phrase a') ts ∧ bared a' = bared a ∧
      Derives depth (phrase' b') us ∧ bared' b' = bared' b := by
  obtain ⟨m, a', ha, hea⟩ := h
  obtain ⟨n, b', hb, heb⟩ := h'
  exact ⟨max m n, a', b', ha.deeper (Nat.le_max_left m n), hea, hb.deeper (Nat.le_max_right m n),
    heb⟩

/-- Tokens that say marks. -/
abbrev Say (marks : List Mark) (ts : List Token) : Prop := List.Forall₂ Mark.Says marks ts

theorem say_append {as bs : List Mark} {ts : List Token} (h : Say (as ++ bs) ts) :
    ∃ us vs, ts = us ++ vs ∧ Say as us ∧ Say bs vs := by
  induction as generalizing ts with
  | nil => exact ⟨[], ts, rfl, .nil, h⟩
  | cons a as ih =>
    cases h with
    | cons ht hrest =>
      obtain ⟨us, vs, rfl, hus, hvs⟩ := ih hrest
      exact ⟨_ :: us, vs, rfl, .cons ht hus, hvs⟩

theorem say_cons {a : Mark} {bs : List Mark} {ts : List Token} (h : Say (a :: bs) ts) :
    ∃ t us, ts = t :: us ∧ a.Says t ∧ Say bs us := by
  cases h with
  | cons ht hrest => exact ⟨_, _, rfl, ht, hrest⟩

theorem say_singleton {a : Mark} {ts : List Token} (h : Say [a] ts) : ∃ t, ts = [t] ∧ a.Says t := by
  obtain ⟨t, us, rfl, ht, hus⟩ := say_cons h
  cases hus
  exact ⟨t, rfl, ht⟩

theorem endsInExpression_bare (n : Node) : endsInExpression n.bare = endsInExpression n := by
  cases n <;> rfl

theorem endsInExpression_congr {n n' : Node} (h : n'.bare = n.bare) :
    endsInExpression n' = endsInExpression n := by
  rw [← endsInExpression_bare n', h, endsInExpression_bare]

section Rules

variable {n : Node} {ts : List Token}

/-- In its position, with or without parentheses, an operand fits. -/
theorem yields_placed {position : Stratum}
    (h : ∀ us, Say n.marks us → Yields (.expression n.stratum) bare n us)
    (hs : Say (placed position n n.marks) ts) : Yields (.expression position) bare n ts := by
  unfold placed at hs
  split at hs
  next hle =>
    obtain ⟨depth, n', hd, he⟩ := h ts hs
    exact ⟨depth, n', .looser hd hle, he⟩
  next =>
    rw [List.cons_append] at hs
    obtain ⟨opening, rest, rfl, ho, hrest⟩ := say_cons hs
    obtain ⟨us, vs, rfl, hus, hvs⟩ := say_append hrest
    obtain ⟨closing, rfl, hc⟩ := say_singleton hvs
    obtain ⟨depth, n', hd, he⟩ := h us hus
    have hprimary : position ≤ .primary := by cases position <;> decide
    have hgroup := Derives.grouping ho.kind_eq (.looser hd (Stratum.assignment_le _)) hc.kind_eq
    exact ⟨depth + 1, _, .looser hgroup hprimary, by rw [bare_withRange, he]⟩

/-- As a whole, an expression is one of the loosest stratum. -/
theorem Yields.loosest {s : Stratum} (h : Yields (.expression s) bare n ts) :
    Yields (.expression .assignment) bare n ts := by
  obtain ⟨depth, n', hd, he⟩ := h
  exact ⟨depth, n', .looser hd (Stratum.assignment_le s), he⟩

/-! ### One rule at a time

The node on the right may have any range, since ranges are not compared; its operator and its
names are those that the tokens carry. -/

variable {range : Range} {op : String} {t keyword opening closing comma between : Token}
  {e a b p c : Node} {us vs ws : List Token}

theorem Yields.unary (hu : isUnary t.kind = true) (ht : t.text = op)
    (he : Yields (.expression .unary) bare e us) :
    Yields (.expression .unary) bare (.unary range op e) (t :: us) := by
  obtain ⟨depth, e', hd, heq⟩ := he
  refine ⟨depth + 1, _, .unary hu hd, ?_⟩
  show Node.unary _ t.text e'.bare = Node.unary _ op e.bare
  rw [ht, heq]

theorem Yields.binary {tier : Tier} (htier : tier? t.kind = some tier) (hk : t.kind ≠ .assign)
    (ht : t.text = op) (ha : Yields (.expression tier.left) bare a us)
    (hb : Yields (.expression tier.right) bare b vs) :
    Yields (.expression tier.own) bare (.binary range op a b) (us ++ t :: vs) := by
  obtain ⟨depth, a', b', hda, hea, hdb, heb⟩ := ha.common hb
  refine ⟨depth + 1, _, .binary htier hda.succ hdb, ?_⟩
  rw [joined, if_neg hk]
  show Node.binary _ t.text a'.bare b'.bare = Node.binary _ op a.bare b.bare
  rw [ht, hea, heb]

theorem Yields.assignment (hk : t.kind = .assign) (ha : Yields (.expression .equality) bare a us)
    (hb : Yields (.expression .assignment) bare b vs) :
    Yields (.expression .assignment) bare (.assignment range a b) (us ++ t :: vs) := by
  obtain ⟨depth, a', b', hda, hea, hdb, heb⟩ := ha.common hb
  have htier : tier? t.kind = some ⟨.assignment, .equality, .assignment⟩ := by
    rw [hk]
    rfl
  refine ⟨depth + 1, _, .binary htier hda.succ hdb, ?_⟩
  rw [joined, if_pos hk]
  show Node.assignment _ a'.bare b'.bare = Node.assignment _ a.bare b.bare
  rw [hea, heb]

theorem Yields.function {ps : List Node} (hk : keyword.kind = .functionKeyword)
    (ho : opening.kind = .leftParenthesis) (hp : Yields (.items .parameter) bareAll ps us)
    (hc : closing.kind = .rightParenthesis) (hb : Yields .block bare b vs) :
    Yields (.expression .primary) bare (.function range ps b)
      (keyword :: opening :: us ++ closing :: vs) := by
  obtain ⟨depth, ps', b', hdp, hep, hdb, heb⟩ := hp.common hb
  refine ⟨depth + 1, _, .function hk ho hdp hc hdb, ?_⟩
  show Node.function _ (bareAll ps') b'.bare = Node.function _ (bareAll ps) b.bare
  rw [hep, heb]

theorem Yields.call {args : List Node} (hf : Yields (.expression .call) bare e us)
    (ho : opening.kind = .leftParenthesis) (ha : Yields (.items .argument) bareAll args vs)
    (hc : closing.kind = .rightParenthesis) :
    Yields (.expression .call) bare (.call range e args) (us ++ opening :: vs ++ [closing]) := by
  obtain ⟨depth, e', args', hde, hee, hda, hea⟩ := hf.common ha
  refine ⟨depth + 1, _, .call hde.succ ho hda hc, ?_⟩
  show Node.call _ e'.bare (bareAll args') = Node.call _ e.bare (bareAll args)
  rw [hee, hea]

theorem Yields.items {sort : Item} {ns : List Node} (hf : Yields sort.phrase bare n us)
    (ho : Yields (.furtherItems sort) bareAll ns vs) :
    Yields (.items sort) bareAll (n :: ns) (us ++ vs) := by
  obtain ⟨depth, n', ns', hd, he, hds, hes⟩ := hf.common ho
  refine ⟨depth, n' :: ns', .items hd hds, ?_⟩
  rw [bareAll_cons, bareAll_cons, he, hes]

theorem Yields.furtherItem {sort : Item} {ns : List Node} (hk : comma.kind = .comma)
    (hf : Yields sort.phrase bare n us) (ho : Yields (.furtherItems sort) bareAll ns vs) :
    Yields (.furtherItems sort) bareAll (n :: ns) (comma :: us ++ vs) := by
  obtain ⟨depth, n', ns', hd, he, hds, hes⟩ := hf.common ho
  refine ⟨depth, n' :: ns', .furtherItem hk hd hds, ?_⟩
  rw [bareAll_cons, bareAll_cons, he, hes]

theorem Yields.branch (hk : keyword.kind = .ifKeyword)
    (hp : Yields (.expression .assignment) bare p us) (hc : Yields .block bare c vs)
    (ha : a.isAbsent = true) :
    Yields .statement bare (.branch range p c a) (keyword :: us ++ vs) := by
  obtain ⟨depth, p', c', hdp, hep, hdc, hec⟩ := hp.common hc
  refine ⟨depth + 1, _, .branch hk hdp hdc, ?_⟩
  have hnone : a.bare = Node.absent := by
    cases a <;> first | rfl | cases ha
  show Node.branch _ p'.bare c'.bare Node.absent = Node.branch _ p.bare c.bare a.bare
  rw [hep, hec, hnone]

theorem Yields.branchElse (hk : keyword.kind = .ifKeyword)
    (hp : Yields (.expression .assignment) bare p us) (hc : Yields .block bare c vs)
    (hb : between.kind = .elseKeyword) (ha : Yields .block bare a ws) :
    Yields .statement bare (.branch range p c a) (keyword :: us ++ vs ++ between :: ws) := by
  obtain ⟨depth, p', c', hdp, hep, hdc, hec⟩ := hp.common hc
  obtain ⟨depth', a', hda, hea⟩ := ha
  have hd := Derives.branchElse hk (hdp.deeper (Nat.le_max_left depth depth'))
    (hdc.deeper (Nat.le_max_left depth depth')) hb (hda.deeper (Nat.le_max_right depth depth'))
  refine ⟨_, _, hd, ?_⟩
  show Node.branch _ p'.bare c'.bare a'.bare = Node.branch _ p.bare c.bare a.bare
  rw [hep, hec, hea]

/-! ### Parameters, and what statements begin with -/

/-- The token of a name is a parameter of that name. -/
theorem yields_parameter {name : String} (ht : (Mark.name name).Says t) :
    Yields Item.parameter.phrase bare (.identifier range name) [t] := by
  obtain ⟨hk, rfl⟩ := ht
  exact ⟨0, .identifier t.range t.text, .parameter hk, rfl⟩

theorem yields_furtherParameters {ns : List Node} (hp : ∀ p ∈ ns, IsParameter p)
    (hs : Say (marksOfFurther ns) ts) : Yields (.furtherItems .parameter) bareAll ns ts := by
  induction ns generalizing ts with
  | nil =>
    cases hs
    exact ⟨0, [], .lastItem, rfl⟩
  | cons p ps ih =>
    obtain ⟨⟨range, name, rfl, -⟩, hps⟩ := List.forall_mem_cons.mp hp
    obtain ⟨comma, rest, rfl, hc, hrest⟩ := say_cons hs
    obtain ⟨t, us, rfl, ht, hus⟩ := say_cons hrest
    exact Yields.furtherItem hc.kind_eq (yields_parameter ht) (ih hps hus)

theorem yields_parameters {ns : List Node} (hp : ∀ p ∈ ns, IsParameter p)
    (hs : Say (marksOfItems ns) ts) : Yields (.items .parameter) bareAll ns ts := by
  cases ns with
  | nil =>
    cases hs
    exact ⟨0, [], .noItems, rfl⟩
  | cons p ps =>
    obtain ⟨⟨range, name, rfl, -⟩, hps⟩ := List.forall_mem_cons.mp hp
    obtain ⟨t, us, rfl, ht, hus⟩ := say_cons hs
    exact Yields.items (yields_parameter ht) (yields_furtherParameters hps hus)

/-- Every expression has marks. -/
theorem exists_marks_of_isExpression (h : n.IsExpression) : ∃ m ms, n.marks = m :: ms := by
  cases n with
  | number | boolean | string | identifier => exact ⟨_, _, rfl⟩
  | unary | function =>
    rw [marks]
    exact ⟨_, _, rfl⟩
  | binary | assignment | call =>
    rw [marks]
    exact List.exists_cons_of_ne_nil (by simp)
  | _ => exact h.elim

/-- Behind a statement that ends in an expression, statements that are parted from it begin
with no token that the expression would take. -/
theorem not_mem_joiners_of_parted {others : List Node} (hp : Parted n others)
    (ho : AreStatements others) (hs : Say (marksOfAll others) ts) :
    endsInExpression n = true → ∀ t ∈ ts.head?, t.kind ∉ joiners := by
  intro he t ht
  cases others with
  | nil =>
    cases hs
    cases ht
  | cons m ms =>
    rw [marksOfAll] at hs
    have hfirst : ∃ a as, m.marks = a :: as ∧ a.kind ∉ joiners := by
      cases m with
      | expressionStatement range e =>
        obtain ⟨a, as, ha⟩ := exists_marks_of_isExpression (n := e) ho.1
        exact ⟨a, as, ha, hp he range e rfl a (by rw [ha]; rfl)⟩
      | returnStatement range e => exact ⟨_, _, rfl, by decide⟩
      | branch range p c a =>
        rw [marks]
        exact ⟨_, _, rfl, by decide⟩
      | _ => exact ho.1.elim
    obtain ⟨a, as, hm, hk⟩ := hfirst
    rw [hm] at hs
    obtain ⟨u, us, rfl, hu, -⟩ := say_cons hs
    cases ht
    rw [hu.kind_eq]
    exact hk

end Rules

mutual

/-- **The tokens of an expression derive it**, as one of the stratum of its operator. -/
theorem yields_expression : ∀ (n : Node) (ts : List Token), n.IsExpression → Say n.marks ts →
    Yields (.expression n.stratum) bare n ts
  | .number range value, ts, _, hs => by
    obtain ⟨t, rfl, hk, hv⟩ := say_singleton hs
    exact ⟨1, _, .number hk hv, rfl⟩
  | .boolean range value, ts, _, hs => by
    obtain ⟨t, rfl, hk, -⟩ := say_singleton hs
    cases value with
    | true => exact ⟨1, _, .trueKeyword hk, rfl⟩
    | false => exact ⟨1, _, .falseKeyword hk, rfl⟩
  | .string range value, ts, _, hs => by
    obtain ⟨t, rfl, hk, rfl⟩ := say_singleton hs
    exact ⟨1, _, .string hk, rfl⟩
  | .identifier range name, ts, _, hs => by
    obtain ⟨t, rfl, hk, rfl⟩ := say_singleton hs
    exact ⟨1, _, .name hk, rfl⟩
  | .unary range op e, ts, hn, hs => by
    obtain ⟨⟨kind, hkind, hop⟩, he⟩ := hn
    obtain ⟨t, us, rfl, ht, hus⟩ := say_cons hs
    have hk : t.kind = kind := ht.kind_eq.trans (frontKind_of_sign hkind hop)
    have htext : t.text = op := by
      rw [ht.2, frontKind_of_sign hkind hop, ← hop, String.ofList_toList]
    have hu : isUnary t.kind = true := by
      have hall : ∀ k ∈ frontOperators, isUnary k = true := by decide
      rw [hk]
      exact hall kind hkind
    exact Yields.unary hu htext (yields_placed (fun us hus => yields_expression e us he hus) hus)
  | .binary range op a b, ts, hn, hs => by
    obtain ⟨⟨kind, hkind, hassign, hop⟩, ha, hb⟩ := hn
    obtain ⟨tier, htier⟩ := exists_tier_of_infix hkind
    obtain ⟨us, rest, rfl, hus, hrest⟩ := say_append hs
    obtain ⟨t, vs, rfl, ht, hvs⟩ := say_cons hrest
    rw [tier_of_sign htier hkind hop] at hus hvs
    have hl := yields_placed (fun us hus => yields_expression a us ha hus) hus
    have hr := yields_placed (fun us hus => yields_expression b us hb hus) hvs
    have hk : t.kind = kind := ht.kind_eq.trans (infixKind_of_sign hkind hop)
    have htext : t.text = op := by
      rw [ht.2, infixKind_of_sign hkind hop, ← hop, String.ofList_toList]
    have hstratum : (Node.binary range op a b).stratum = tier.own := by
      show (Node.tier op).own = tier.own
      rw [tier_of_sign htier hkind hop]
    rw [hstratum]
    exact Yields.binary (hk ▸ htier) (hk ▸ hassign) htext hl hr
  | .assignment range a b, ts, hn, hs => by
    obtain ⟨ha, hb⟩ := hn
    obtain ⟨us, rest, rfl, hus, hrest⟩ := say_append hs
    obtain ⟨t, vs, rfl, ht, hvs⟩ := say_cons hrest
    have hl := yields_placed (fun us hus => yields_expression a us ha hus) hus
    have hr := yields_placed (fun us hus => yields_expression b us hb hus) hvs
    exact Yields.assignment ht.kind_eq hl hr
  | .function range ps b, ts, hn, hs => by
    obtain ⟨hp, hb⟩ := hn
    obtain ⟨keyword, rest, rfl, hk, hrest⟩ := say_cons hs
    obtain ⟨front, back, rfl, hfront, hback⟩ := say_append hrest
    obtain ⟨opening, us, rfl, ho, hus⟩ := say_cons hfront
    obtain ⟨closing, vs, rfl, hc, hvs⟩ := say_cons hback
    exact Yields.function hk.kind_eq ho.kind_eq (yields_parameters hp hus) hc.kind_eq
      (yields_block b vs hb hvs)
  | .call range f as, ts, hn, hs => by
    obtain ⟨hf, ha⟩ := hn
    obtain ⟨us, rest, rfl, hus, hrest⟩ := say_append hs
    obtain ⟨opening, rest, rfl, ho, hrest⟩ := say_cons hrest
    obtain ⟨vs, last, rfl, hvs, hlast⟩ := say_append hrest
    obtain ⟨closing, rfl, hc⟩ := say_singleton hlast
    have hcallee := yields_placed (fun us hus => yields_expression f us hf hus) hus
    have hcall : Yields (.expression .call) bare (.call range f as)
        (us ++ opening :: vs ++ [closing]) :=
      Yields.call hcallee ho.kind_eq (yields_items as vs ha hvs) hc.kind_eq
    rwa [List.append_assoc] at hcall
  | .absent, _, hn, _ | .program .., _, hn, _ | .block .., _, hn, _
  | .expressionStatement .., _, hn, _ | .returnStatement .., _, hn, _ | .branch .., _, hn, _ =>
    hn.elim

theorem yields_items : ∀ (ns : List Node) (ts : List Token), AreExpressions ns →
    Say (marksOfItems ns) ts → Yields (.items .argument) bareAll ns ts
  | [], ts, _, hs => by
    cases hs
    exact ⟨0, [], .noItems, rfl⟩
  | n :: ns, ts, hn, hs => by
    obtain ⟨us, vs, rfl, hus, hvs⟩ := say_append hs
    have hfirst : Yields Item.argument.phrase bare n us := (yields_expression n us hn.1 hus).loosest
    exact Yields.items hfirst (yields_furtherItems ns vs hn.2 hvs)

theorem yields_furtherItems : ∀ (ns : List Node) (ts : List Token), AreExpressions ns →
    Say (marksOfFurther ns) ts → Yields (.furtherItems .argument) bareAll ns ts
  | [], ts, _, hs => by
    cases hs
    exact ⟨0, [], .lastItem, rfl⟩
  | n :: ns, ts, hn, hs => by
    obtain ⟨front, vs, rfl, hfront, hvs⟩ := say_append hs
    obtain ⟨comma, us, rfl, hc, hus⟩ := say_cons hfront
    have hfirst : Yields Item.argument.phrase bare n us := (yields_expression n us hn.1 hus).loosest
    exact Yields.furtherItem hc.kind_eq hfirst (yields_furtherItems ns vs hn.2 hvs)

theorem yields_block : ∀ (n : Node) (ts : List Token), n.IsBlock → Say n.marks ts →
    Yields .block bare n ts
  | .block range inner, ts, hn, hs => by
    obtain ⟨front, last, rfl, hfront, hlast⟩ := say_append hs
    obtain ⟨opening, us, rfl, ho, hus⟩ := say_cons hfront
    obtain ⟨closing, rfl, hc⟩ := say_singleton hlast
    obtain ⟨depth, inner', hd, he⟩ := yields_statements inner us hn hus
    refine ⟨depth + 1, _, .block ho.kind_eq hd hc.kind_eq, ?_⟩
    show Node.block _ (bareAll inner') = Node.block _ (bareAll inner)
    rw [he]
  | .absent, _, hn, _ | .program .., _, hn, _ | .expressionStatement .., _, hn, _
  | .returnStatement .., _, hn, _ | .branch .., _, hn, _ | .number .., _, hn, _
  | .boolean .., _, hn, _ | .string .., _, hn, _ | .identifier .., _, hn, _
  | .unary .., _, hn, _ | .binary .., _, hn, _ | .assignment .., _, hn, _
  | .function .., _, hn, _ | .call .., _, hn, _ => hn.elim

theorem yields_statement : ∀ (n : Node) (ts : List Token), n.IsStatement → Say n.marks ts →
    Yields .statement bare n ts
  | .expressionStatement range e, ts, hn, hs => by
    obtain ⟨depth, e', hd, he⟩ := (yields_expression e ts hn hs).loosest
    refine ⟨depth + 1, _, .expressionStatement hd, ?_⟩
    show Node.expressionStatement _ e'.bare = Node.expressionStatement _ e.bare
    rw [he]
  | .returnStatement range e, ts, hn, hs => by
    obtain ⟨keyword, us, rfl, hk, hus⟩ := say_cons hs
    obtain ⟨depth, e', hd, he⟩ := (yields_expression e us hn hus).loosest
    refine ⟨depth + 1, _, .returnStatement hk.kind_eq hd, ?_⟩
    show Node.returnStatement _ e'.bare = Node.returnStatement _ e.bare
    rw [he]
  | .branch range p c a, ts, hn, hs => by
    obtain ⟨hp, hc, ha⟩ := hn
    obtain ⟨front, rest, rfl, hfront, hrest⟩ := say_append hs
    obtain ⟨keyword, us, rfl, hk, hus⟩ := say_cons hfront
    obtain ⟨vs, ws, rfl, hvs, hws⟩ := say_append hrest
    have hpredicate := (yields_expression p us hp hus).loosest
    have hconsequence := yields_block c vs hc hvs
    by_cases habsent : a.isAbsent = true
    · rw [if_pos habsent] at hws
      cases hws
      rw [List.append_nil]
      exact Yields.branch hk.kind_eq hpredicate hconsequence habsent
    · rw [if_neg habsent] at hws
      obtain ⟨between, xs, rfl, hb, hxs⟩ := say_cons hws
      rw [← List.append_assoc]
      exact Yields.branchElse hk.kind_eq hpredicate hconsequence hb.kind_eq
        (yields_block a xs (ha.resolve_left habsent) hxs)
  | .absent, _, hn, _ | .program .., _, hn, _ | .block .., _, hn, _ | .number .., _, hn, _
  | .boolean .., _, hn, _ | .string .., _, hn, _ | .identifier .., _, hn, _
  | .unary .., _, hn, _ | .binary .., _, hn, _ | .assignment .., _, hn, _
  | .function .., _, hn, _ | .call .., _, hn, _ => hn.elim

theorem yields_statements : ∀ (ns : List Node) (ts : List Token), AreStatements ns →
    Say (marksOfAll ns) ts → Yields .statements bareAll ns ts
  | [], ts, _, hs => by
    cases hs
    exact ⟨0, [], .noStatements, rfl⟩
  | n :: ns, ts, hn, hs => by
    obtain ⟨hfirst, hparted, hothers⟩ := hn
    obtain ⟨us, vs, rfl, hus, hvs⟩ := say_append hs
    have hf := yields_statement n us hfirst hus
    have ho := yields_statements ns vs hothers hvs
    obtain ⟨depth, n', ns', hd, he, hds, hes⟩ := hf.common ho
    refine ⟨depth, n' :: ns', .statements hd hds ?_, ?_⟩
    · rw [endsInExpression_congr he]
      exact not_mem_joiners_of_parted hparted hothers hvs
    · rw [bareAll_cons, bareAll_cons, he, hes]

end

end Grammar
end HangulScript
