import HangulScript.Proofs.Grammar.Extents

/-!
# Ranges nest

The tokens of a list may have any ranges.  If they stand in order, so do the ranges of the tree
that is read from them: the range of a node holds those of all that stands in it, and its children
come one behind the other.

A node covers a stretch of tokens, and its children cover stretches of that stretch, one behind
the other (`Spread`).  This is where the rules of the grammar come in: a rule puts the tokens of
its parts together in the order in which the parts are held.  Parentheses give a node a longer
stretch and leave its children where they are.  All else is about tokens that stand in order, and
not about trees.
-/

namespace HangulScript

/-- A range holds another one: it begins no later and ends no earlier. -/
structure Range.Encloses (r s : Range) : Prop where
  first : r.first.notAfter s.first = true
  last : s.last.notAfter r.last = true

/-! ## Tokens in order -/

/-- Tokens stand in order: none of them ends before it begins, and each of them ends before the
next ones begin. -/
structure Token.InOrder (tokens : List Token) : Prop where
  forward : ∀ t ∈ tokens, t.range.first.notAfter t.range.last = true
  apart : tokens.Pairwise fun t u => t.range.last.before u.range.first = true

namespace Token.InOrder

theorem singleton {t : Token} (h : t.range.first.notAfter t.range.last = true) : InOrder [t] :=
  ⟨fun _ hu => List.mem_singleton.mp hu ▸ h, List.pairwise_singleton _ _⟩

theorem sublist {ts us : List Token} (h : InOrder us) (hts : ts.Sublist us) : InOrder ts :=
  ⟨fun t ht => h.forward t (hts.subset ht), h.apart.sublist hts⟩

/-- The first token begins no later than any other. -/
theorem notAfter_first {t u : Token} {ts : List Token} (h : InOrder (t :: ts))
    (hu : u ∈ t :: ts) : t.range.first.notAfter u.range.first = true := by
  rcases List.mem_cons.mp hu with rfl | hu
  · exact Position.notAfter_refl _
  · exact Position.notAfter_trans (h.forward t (List.mem_cons_self ..))
      (Position.notAfter_of_before (List.rel_of_pairwise_cons h.apart hu))

/-- The last token ends no earlier than any other. -/
theorem notAfter_last {t u : Token} {ts : List Token} (h : InOrder (ts ++ [t]))
    (hu : u ∈ ts ++ [t]) : u.range.last.notAfter t.range.last = true := by
  have ht : t ∈ ts ++ [t] := List.mem_append_right _ (List.mem_singleton_self t)
  rcases List.mem_append.mp hu with hu | hu
  · have hbefore := (List.pairwise_append.mp h.apart).2.2 u hu t (List.mem_singleton_self t)
    exact Position.notAfter_trans (Position.notAfter_of_before hbefore) (h.forward t ht)
  · obtain rfl := List.mem_singleton.mp hu
    exact Position.notAfter_refl _

end Token.InOrder

/-- Tiles lie behind the place where they are laid. -/
theorem Tile.Laid.notAfter_first {before behind : List Char} {tiles : List Tile}
    (h : Laid before tiles behind) :
    ∀ t ∈ tiles, (Source.place before).notAfter t.token.range.first = true := by
  induction tiles generalizing before with
  | nil => simp
  | cons t ts ih =>
    refine List.forall_mem_cons.mpr ⟨?_, fun u hu => ?_⟩
    · rw [h.1.first]
      exact Source.notAfter_place_of_prefix (List.prefix_append ..)
    · exact Position.notAfter_trans (Source.notAfter_place_of_prefix (List.prefix_append ..))
        (ih h.2 u hu)

/-- The tokens of tiles stand in order, and so does an end of input behind them. -/
theorem Tile.Laid.inOrder {before behind : List Char} {tiles : List Tile}
    (h : Laid before tiles behind) {p : Position}
    (hp : (Source.place (before ++ tiles.flatMap written)).notAfter p = true) :
    Token.InOrder (tiles.map Tile.token ++ [Token.endAt p]) := by
  induction tiles generalizing before with
  | nil => exact .singleton (Position.notAfter_refl p)
  | cons t ts ih =>
    obtain ⟨hfits, hmore⟩ := h
    rw [List.flatMap_cons, ← List.append_assoc] at hp
    have hrest := ih hmore hp
    constructor
    · refine List.forall_mem_cons.mpr ⟨?_, hrest.forward⟩
      rw [hfits.first, hfits.last]
      exact Source.notAfter_place_of_prefix (List.prefix_append ..)
    · refine .cons (fun u hu => ?_) hrest.apart
      -- the last character of the token stands before what is behind the tile
      have hlast : t.token.range.last.before (Source.place (before ++ t.written)) = true := by
        have hslice := List.dropLast_concat_getLast hfits.slice_ne_nil
        rw [hfits.last, written, ← hslice, ← List.append_assoc, ← List.append_assoc,
          Source.place_concat, hslice]
        exact Position.before_next _ _
      refine Position.before_of_before_of_notAfter hlast ?_
      rcases List.mem_append.mp hu with hu | hu
      · obtain ⟨v, hv, rfl⟩ := List.mem_map.mp hu
        exact hmore.notAfter_first v hv
      · obtain rfl := List.mem_singleton.mp hu
        exact Position.notAfter_trans
          (Source.notAfter_place_of_prefix (List.prefix_append ..)) hp

/-- **The scanner's tokens stand in order.** -/
theorem Token.inOrder_scan (source : String) : InOrder (TokenStream.scan source).tokens := by
  obtain ⟨tiles, gap, rest, ht⟩ := exists_tiled_scan source
  have hall : ∀ p : Position,
      (Source.place ([] ++ tiles.flatMap Tile.written)).notAfter p = true →
      InOrder (tiles.map Tile.token ++ [Token.endAt p]) := fun p hp => ht.laid.inOrder hp
  cases hf : (TokenStream.scan source).fault with
  | none =>
    rw [ht.tokens_eq hf]
    refine hall _ (Source.notAfter_place_of_prefix ?_)
    rw [ht.text_eq]
    exact List.prefix_append ..
  | some fault =>
    rw [(ht.tokens_eq_of_fault hf).1]
    exact (hall _ (Position.notAfter_refl _)).sublist (List.sublist_append_left ..)

namespace Grammar

open Node Token

variable {r s : Range} {ts us : List Token}

/-- What a range goes from and to is among its tokens. -/
theorem Covers.exists_mem (h : Covers r ts) :
    (∃ t ∈ ts, t.range.first = r.first) ∧ ∃ t ∈ ts, t.range.last = r.last := by
  obtain ⟨⟨t, ht, hfirst⟩, ⟨u, hu, hlast⟩⟩ := h
  exact ⟨⟨t, List.mem_of_head? ht, hfirst⟩, ⟨u, List.mem_of_getLast? hu, hlast⟩⟩

/-- A range over tokens in order holds the ranges over stretches of them. -/
theorem Covers.encloses (h : Covers r ts) (ho : InOrder ts) (hs : Covers s us)
    (hus : us <:+: ts) : r.Encloses s := by
  obtain ⟨⟨t, ht, hfirst⟩, ⟨u, hu, hlast⟩⟩ := hs.exists_mem
  obtain ⟨⟨v, hv, hbegins⟩, ⟨w, hw, hends⟩⟩ := h
  constructor
  · obtain ⟨more, rfl⟩ := List.head?_eq_some_iff.mp hv
    rw [← hbegins, ← hfirst]
    exact ho.notAfter_first (hus.subset ht)
  · obtain ⟨init, rfl⟩ := List.getLast?_eq_some_iff.mp hw
    rw [← hends, ← hlast]
    exact ho.notAfter_last (hus.subset hu)

/-- A range over tokens in order does not end before it begins. -/
theorem Covers.forward (h : Covers r ts) (ho : InOrder ts) : r.first.notAfter r.last = true := by
  obtain ⟨⟨t, ht, hfirst⟩, -⟩ := h.exists_mem
  obtain ⟨w, hw, hends⟩ := h.ends
  obtain ⟨init, rfl⟩ := List.getLast?_eq_some_iff.mp hw
  rw [← hfirst, ← hends]
  exact Position.notAfter_trans (ho.forward t ht) (ho.notAfter_last ht)

/-! ## Stretches one behind the other -/

/-- Trees cover stretches of tokens, one behind the other, and the children of each cover
stretches of its own.  What is absent covers none. -/
inductive Spread : List Node → List Token → Prop
  | nil {ts : List Token} : Spread [] ts
  | absent {ns : List Node} {ts : List Token} : Spread ns ts → Spread (.absent :: ns) ts
  | cons {n : Node} {ns : List Node} {skipped ts us : List Token} : Covers n.range ts →
      Spread n.children ts → Spread ns us → Spread (n :: ns) (skipped ++ ts ++ us)

namespace Spread

variable {n m : Node} {ns ms : List Node}

theorem append_right (h : Spread ns ts) (us : List Token) : Spread ns (ts ++ us) := by
  induction h with
  | nil => exact .nil
  | absent _ ih => exact .absent ih
  | cons hc hs _ _ ih =>
    rw [List.append_assoc]
    exact .cons hc hs ih

theorem append_left (h : Spread ns ts) (us : List Token) : Spread ns (us ++ ts) := by
  induction h with
  | nil => exact .nil
  | absent _ ih => exact .absent ih
  | cons hc hs hrest =>
    rw [← List.append_assoc, ← List.append_assoc]
    exact .cons hc hs hrest

/-- Stretches of a stretch are stretches of the whole. -/
theorem within (h : Spread ns ts) (hts : ts <:+: us) : Spread ns us := by
  obtain ⟨as, bs, rfl⟩ := hts
  exact (h.append_left as).append_right bs

/-- Some trees, and others behind them. -/
theorem append (h : Spread ns ts) (h' : Spread ms us) : Spread (ns ++ ms) (ts ++ us) := by
  induction h with
  | nil => exact h'.append_left _
  | absent _ ih => exact .absent ih
  | cons hc hs _ _ ih =>
    rw [List.append_assoc]
    exact .cons hc hs ih

theorem singleton (hc : Covers n.range ts) (hs : Spread n.children ts) : Spread [n] ts := by
  have h : Spread [n] ([] ++ ts ++ []) := .cons hc hs .nil
  simpa using h

/-- Each tree has its stretch. -/
theorem exists_stretch (h : Spread ns ts) (hm : m ∈ ns) (ha : m.isAbsent = false) :
    ∃ us, us <:+: ts ∧ Covers m.range us ∧ Spread m.children us := by
  induction h with
  | nil => cases hm
  | absent _ ih =>
    rcases List.mem_cons.mp hm with rfl | hm
    · cases ha
    · exact ih hm
  | @cons n ns skipped ts us hc hs _ _ ih =>
    rcases List.mem_cons.mp hm with rfl | hm
    · exact ⟨ts, ⟨skipped, us, rfl⟩, hc, hs⟩
    · obtain ⟨vs, hvs, hcovers⟩ := ih hm
      exact ⟨vs, hvs.trans ⟨skipped ++ ts, [], by simp⟩, hcovers⟩

/-- So does all that stands in one of them. -/
theorem exists_stretch_of_isPartOf (hn : n.IsPartOf m) (ha : n.isAbsent = false)
    (h : Spread ns ts) (hm : m ∈ ns) :
    ∃ us, us <:+: ts ∧ Covers n.range us ∧ Spread n.children us := by
  induction hn generalizing ns ts with
  | whole => exact h.exists_stretch hm ha
  | @inside k tree hk _ ih =>
    have htree : tree.isAbsent = false := by
      cases tree with
      | absent => cases hk
      | _ => rfl
    obtain ⟨us, hus, -, hs⟩ := h.exists_stretch hm htree
    obtain ⟨vs, hvs, hcovers⟩ := ih hs hk
    exact ⟨vs, hvs.trans hus, hcovers⟩

/-- Trees that are spread over tokens in order are in order. -/
theorem pairwise (h : Spread ns ts) (ho : InOrder ts) :
    ns.Pairwise fun a b => a.isAbsent = false → b.isAbsent = false →
      a.range.last.before b.range.first = true := by
  induction h with
  | nil => exact .nil
  | absent _ ih => exact .cons (fun b _ ha => by cases ha) (ih ho)
  | @cons n ns skipped ts us hc _ hrest _ ih =>
    have hus : us.Sublist (skipped ++ ts ++ us) := List.sublist_append_right ..
    refine .cons (fun b hb _ hpresent => ?_) (ih (ho.sublist hus))
    obtain ⟨vs, hvs, hcovers, -⟩ := hrest.exists_stretch hb hpresent
    obtain ⟨-, ⟨t, ht, hlast⟩⟩ := hc.exists_mem
    obtain ⟨⟨u, hu, hfirst⟩, -⟩ := hcovers.exists_mem
    have happend := (List.pairwise_append.mp ho.apart).2.2
    rw [← hlast, ← hfirst]
    exact happend t (List.mem_append_right _ ht) u (hvs.subset hu)

end Spread

theorem spread_joined {op : Token} {left right : Node} (h : Spread [left] ts)
    (h' : Spread [right] us) : Spread (joined op left right).children (ts ++ us) := by
  unfold joined
  split <;> exact h.append h'

/-- A program covers its statements, or the end of input if it has none. -/
theorem exists_stretch_of_statements {depth : Nat} {inner : List Node} (final : Token)
    (h : Derives depth (.statements inner) ts) (hs : Spread inner ts) :
    ∃ us, (us = ts ∨ us = [final]) ∧ Covers (programRange final inner) us ∧ Spread inner us := by
  by_cases hne : inner = []
  · subst hne
    exact ⟨[final], Or.inr rfl, ⟨beginAt_cons _ _, endAt_singleton _⟩, .nil⟩
  · exact ⟨ts, Or.inl rfl, covers_programRange h hne, hs⟩

/-- **What is derived is spread over its tokens.** -/
theorem spread_of_derives {depth : Nat} {phrase : Phrase} {ts : List Token}
    (h : Derives depth phrase ts) : Spread phrase.trees ts := by
  induction h with
  | number | string | trueKeyword | falseKeyword | name | parameter =>
    exact .singleton ⟨beginAt_cons _ _, endAt_singleton _⟩ .nil
  | noItems | lastItem | noStatements => exact .nil
  | @function depth keyword opening closing params body ts us hk ho hp hc hb ihp ihb =>
    have hparts : Spread (params ++ [body]) (ts ++ closing :: us) :=
      ihp.append (ihb.append_left [closing])
    exact .singleton (covers_of_derives (.function hk ho hp hc hb))
      (hparts.append_left [keyword, opening])
  | @grouping depth opening closing inner ts ho hd hc ih =>
    -- the children stay where they are, among the tokens between the parentheses
    obtain ⟨us, hus, -, hs⟩ := ih.exists_stretch (List.mem_singleton_self inner)
      (isAbsent_of_isExpressionNode (isExpressionNode_of_derives hd))
    refine .singleton (covers_of_derives (.grouping ho hd hc)) ?_
    rw [children_withRange]
    exact hs.within (hus.trans ⟨[opening], [closing], rfl⟩)
  | @call depth callee opening closing args ts us hf ho ha hc ihf iha =>
    have hparts : Spread (callee :: args) (ts ++ opening :: us) :=
      ihf.append (iha.append_left [opening])
    exact .singleton (covers_of_derives (.call hf ho ha hc)) (hparts.append_right [closing])
  | @unary depth op operand ts hk hd ih =>
    exact .singleton (covers_of_derives (.unary hk hd)) (ih.append_left [op])
  | @binary depth op tier left right ts us ht hl hr ihl ihr =>
    exact .singleton (covers_of_derives (.binary ht hl hr))
      (spread_joined ihl (ihr.append_left [op]))
  | looser _ _ ih => exact ih
  | @items depth sort first others ts us _ _ ihf iho =>
    rw [Item.trees_phrase] at ihf
    exact ihf.append iho
  | @furtherItem depth sort comma first others ts us _ _ _ ihf iho =>
    rw [Item.trees_phrase] at ihf
    exact (ihf.append_left [comma]).append iho
  | @block depth opening closing inner ts ho hd hc ih =>
    exact .singleton (covers_of_derives (.block ho hd hc))
      ((ih.append_left [opening]).append_right [closing])
  | expressionStatement hd ih => exact .singleton (covers_of_derives (.expressionStatement hd)) ih
  | @returnStatement depth keyword e ts hk hd ih =>
    exact .singleton (covers_of_derives (.returnStatement hk hd)) (ih.append_left [keyword])
  | @branch depth keyword predicate consequence ts us hk hp hc ihp ihc =>
    have habsent : Spread [.absent] [] := .absent .nil
    have hparts : Spread [predicate, consequence, .absent] (ts ++ (us ++ [])) :=
      ihp.append (ihc.append habsent)
    rw [List.append_nil] at hparts
    exact .singleton (covers_of_derives (.branch hk hp hc)) (hparts.append_left [keyword])
  | @branchElse depth keyword between predicate consequence alternative ts us vs hk hp hc he ha
      ihp ihc iha =>
    have hparts : Spread [predicate, consequence, alternative] (ts ++ (us ++ between :: vs)) :=
      ihp.append (ihc.append (iha.append_left [between]))
    refine .singleton (covers_of_derives (.branchElse hk hp hc he ha)) ?_
    rw [List.cons_append, List.cons_append, List.append_assoc]
    exact hparts.append_left [keyword]
  | statements _ _ _ ihf iho => exact ihf.append iho
  | @program depth final inner ts hd _ ih =>
    obtain ⟨us, hus, hc, hs⟩ := exists_stretch_of_statements final hd ih
    have hprogram : Spread [.program (programRange final inner) inner] us := .singleton hc hs
    rcases hus with rfl | rfl
    · exact hprogram.append_right [final]
    · exact hprogram.append_left ts

end Grammar

/-! ## What is read -/

/-- The tokens that the parser can meet are those before the end of input, and an end of input.
That is one of the tokens of the list, or it covers no character. -/
theorem TokenStream.exists_ended_eq (tokens : List Token) (dry : Position) :
    ∃ final, ended dry tokens = tokens.takeWhile (fun t => t.kind != .endOfInput) ++ [final] ∧
      (final ∈ tokens ∨ ∃ p, final = Token.endAt p) := by
  induction tokens generalizing dry with
  | nil => exact ⟨Token.endAt dry, rfl, Or.inr ⟨dry, rfl⟩⟩
  | cons t ts ih =>
    by_cases hk : t.kind = .endOfInput
    · exact ⟨t, by simp [ended, hk], Or.inl (List.mem_cons_self ..)⟩
    · obtain ⟨final, he, hfinal⟩ := ih t.range.last
      exact ⟨final, by simp [ended, hk, he], hfinal.imp_left (List.mem_cons_of_mem t)⟩

/-- The ranges at a node are in order: its own does not end before it begins and holds those of
all that stands in the node, and its children come one behind the other.  It goes from one token
to another. -/
structure Node.WellRanged (tokens : List Token) (n : Node) : Prop where
  forward : n.range.first.notAfter n.range.last = true
  encloses : ∀ m : Node, m.IsPartOf n → m.isAbsent = false → n.range.Encloses m.range
  children : n.children.Pairwise fun a b => a.isAbsent = false → b.isAbsent = false →
    a.range.last.before b.range.first = true
  begins : ∃ t ∈ tokens, t.range.first = n.range.first
  ends : ∃ t ∈ tokens, t.range.last = n.range.last

namespace Grammar

open Node Token

/-- What covers a stretch of tokens in order, and has its children there, is well ranged. -/
theorem wellRanged_of_spread {n : Node} {ts us : List Token} (ho : InOrder us)
    (hc : Covers n.range us) (hs : Spread n.children us) (hus : ∀ t ∈ us, t ∈ ts) :
    n.WellRanged ts := by
  obtain ⟨⟨t, ht, hfirst⟩, ⟨u, hu, hlast⟩⟩ := hc.exists_mem
  refine ⟨hc.forward ho, fun m hm ha => ?_, hs.pairwise ho, ⟨t, hus t ht, hfirst⟩,
    ⟨u, hus u hu, hlast⟩⟩
  have hself : Spread [n] us := .singleton hc hs
  obtain ⟨vs, hvs, hcovers, -⟩ :=
    Spread.exists_stretch_of_isPartOf hm ha hself (List.mem_singleton_self n)
  exact hc.encloses ho hcovers hvs

/-- **Ranges nest, and siblings are in order.**  Read a program from tokens that stand in order.
The range of every node in it begins no later than it ends and holds the ranges of all that
stands in the node; the children of a node come one behind the other; and every range begins
where a token begins and ends where a token ends, of those up to the end of input.  The program
itself, if it has any statements, goes from the first token to the last one before that. -/
theorem ranges_nest (limit : Nat) (tokens : List Token) (tree : Node) (ho : InOrder tokens)
    (h : program limit ⟨tokens, none⟩ = .ok tree) :
    (∀ n : Node, n.IsPartOf tree → n.isAbsent = false →
      n.WellRanged (TokenStream.complete tokens)) ∧
    (tree.statements? ≠ some [] →
      Covers tree.range (tokens.takeWhile fun t => t.kind != .endOfInput)) := by
  have hderives := (program_eq_ok_iff limit tokens tree).mp h
  obtain ⟨final, hcomplete, hfinal⟩ := TokenStream.exists_ended_eq tokens Position.origin
  rw [← TokenStream.complete] at hcomplete
  rw [hcomplete] at hderives ⊢
  have hbody : InOrder (tokens.takeWhile fun t => t.kind != .endOfInput) :=
    ho.sublist (List.takeWhile_sublist _)
  have hend : InOrder [final] := by
    rcases hfinal with hmem | ⟨p, rfl⟩
    · exact .singleton (ho.forward final hmem)
    · exact .singleton (Position.notAfter_refl p)
  generalize tokens.takeWhile (fun t => t.kind != .endOfInput) = body at hderives hbody ⊢
  generalize hts : body ++ [final] = all at hderives
  cases hderives with
  | @program _ _ inner ts hinner hk =>
    obtain ⟨rfl, hsame⟩ := List.append_inj' hts rfl
    obtain rfl := List.singleton_inj.mp hsame
    obtain ⟨us, hus, hc, hs⟩ :=
      exists_stretch_of_statements final hinner (spread_of_derives hinner)
    have hsub : us.Sublist (body ++ [final]) ∧ InOrder us := by
      rcases hus with rfl | rfl
      · exact ⟨List.sublist_append_left .., hbody⟩
      · exact ⟨List.sublist_append_right .., hend⟩
    constructor
    · intro n hn ha
      have hprogram : Spread [.program (programRange final inner) inner] us := .singleton hc hs
      obtain ⟨vs, hvs, hcovers, hspread⟩ :=
        Spread.exists_stretch_of_isPartOf hn ha hprogram (List.mem_singleton_self _)
      exact wellRanged_of_spread (hsub.2.sublist hvs.sublist) hcovers hspread
        fun t ht => hsub.1.subset (hvs.subset ht)
    · intro hne
      exact covers_programRange hinner fun he => hne (congrArg some he)

/-- A sum in parentheses ends with them, and the name behind it stands apart from it. -/
theorem ranges_nest_parentheses :
    let place (first last : Int) : Range := ⟨⟨0, first⟩, ⟨0, last⟩⟩
    let tokens := (TokenStream.scan "ㄱ = (ㄴ + ㄷ) * ㄹ").tokens
    let sum := Node.binary (place 4 10) "+" (.identifier (place 5 5) "ㄴ")
      (.identifier (place 9 9) "ㄷ")
    let product := Node.binary (place 4 14) "*" sum (.identifier (place 14 14) "ㄹ")
    let tree := Node.program (place 0 14) [.expressionStatement (place 0 14)
      (.assignment (place 0 14) (.identifier (place 0 0) "ㄱ") product)]
    InOrder tokens ∧ program 40 ⟨tokens, none⟩ = .ok tree ∧ product.IsPartOf tree ∧
      product.WellRanged (TokenStream.complete tokens) ∧
      Covers tree.range (tokens.takeWhile fun t => t.kind != .endOfInput) := by
  intro place tokens sum product tree
  have ho : InOrder tokens := inOrder_scan _
  have hread : (program 40 ⟨tokens, none⟩).toOption = some tree := by decide +kernel
  have hp : program 40 ⟨tokens, none⟩ = .ok tree := except_eq_ok_of_toOption hread
  have hpart : product.IsPartOf tree :=
    .inside (List.mem_cons_self ..) (.inside (List.mem_cons_self ..)
      (.inside (List.mem_cons_of_mem _ (List.mem_cons_self ..)) .whole))
  obtain ⟨hnested, hcovers⟩ := ranges_nest 40 tokens tree ho hp
  exact ⟨ho, hp, hpart, hnested product hpart rfl, hcovers (by decide)⟩

end Grammar
end HangulScript
