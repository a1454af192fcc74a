import HangulScript.Proofs.Tree.Parts

/-!
# Variants of a tree

Two trees are variants of one another if they can be told apart by their names and by statements
that are never reached, and by nothing else.  Which names may stand for which is given as a
relation.  The unreachable statements are those behind a return statement in the same list of
statements; if they are allowed to differ, the second tree may have any statements there that the
first has not, in any number of places.  Ranges, kinds, numbers, texts and operators are the same.

A function on names gives such a relation, and without further statements a tree has one variant
under it, the tree that is renamed (`variant_renamed`, `Variant.eq_renamed`).  Since a function
need be right only on the names that occur in a tree, the identity makes a tree a variant of
itself even under a relation that holds of no other names (`variant_self`).
-/

namespace HangulScript
namespace Node

/-- Whether a node is a return statement. -/
def isReturn : Node → Bool
  | .returnStatement .. => true
  | _ => false

/-! ## Names -/

/-- A name occurs in a tree, as a name that is looked up, as a parameter or as what is assigned
to. -/
def Mentions (tree : Node) (name : String) : Prop := ∃ r, IsPartOf (.identifier r name) tree

/-- What a child mentions, the tree does. -/
theorem Mentions.of_child {n m : Node} {x : String} (h : m.Mentions x) (hm : m ∈ n.children) :
    n.Mentions x := by
  obtain ⟨r, hp⟩ := h
  exact ⟨r, .inside hm hp⟩

/-- A tree mentions its own name, if it is one, and what its children mention. -/
theorem mentions_iff {n : Node} {x : String} :
    n.Mentions x ↔ n.name? = some x ∨ ∃ m ∈ n.children, m.Mentions x := by
  constructor
  · rintro ⟨r, hp⟩
    rcases isPartOf_iff.mp hp with rfl | ⟨m, hm, hp⟩
    · exact Or.inl rfl
    · exact Or.inr ⟨m, hm, r, hp⟩
  · rintro (hn | ⟨m, hm, h⟩)
    · cases n with
      | identifier r _ =>
        cases hn
        exact ⟨r, .whole⟩
      | _ => cases hn
    · exact h.of_child hm

mutual

/-- The names that occur in a tree, in their order and as often as they occur. -/
def mentioned : Node → List String
  | program _ ss | block _ ss => mentionedAll ss
  | expressionStatement _ e | returnStatement _ e | unary _ _ e => mentioned e
  | branch _ p c a => mentioned p ++ mentioned c ++ mentioned a
  | identifier _ n => [n]
  | binary _ _ a b | assignment _ a b => mentioned a ++ mentioned b
  | function _ ps b => mentionedAll ps ++ mentioned b
  | call _ c as => mentioned c ++ mentionedAll as
  | absent | number _ _ | boolean _ _ | string _ _ => []

/-- The names that occur in some trees. -/
def mentionedAll : List Node → List String
  | [] => []
  | n :: ns => mentioned n ++ mentionedAll ns

end

mutual

/-- The list of names has all the names that occur, and no others. -/
theorem mem_mentioned_iff {x : String} : ∀ n : Node, x ∈ n.mentioned ↔ n.Mentions x
  | .program _ ss | .block _ ss => by
    rw [mentions_iff]
    simp [mentioned, name?, children, mem_mentionedAll_iff ss]
  | .expressionStatement _ e | .returnStatement _ e | .unary _ _ e => by
    rw [mentions_iff]
    simp [mentioned, name?, children, mem_mentioned_iff e]
  | .branch _ p c a => by
    rw [mentions_iff]
    simp [mentioned, name?, children, mem_mentioned_iff p, mem_mentioned_iff c,
      mem_mentioned_iff a]
  | .identifier _ n => by
    rw [mentions_iff]
    simp [mentioned, name?, children, eq_comm]
  | .binary _ _ a b | .assignment _ a b => by
    rw [mentions_iff]
    simp [mentioned, name?, children, mem_mentioned_iff a, mem_mentioned_iff b]
  | .function _ ps b => by
    rw [mentions_iff]
    simp [mentioned, name?, children, mem_mentionedAll_iff ps, mem_mentioned_iff b]
  | .call _ c as => by
    rw [mentions_iff]
    simp [mentioned, name?, children, mem_mentioned_iff c, mem_mentionedAll_iff as]
  | .absent | .number _ _ | .boolean _ _ | .string _ _ => by
    rw [mentions_iff]
    simp [mentioned, name?, children]

/-- The names of some trees are those of each. -/
theorem mem_mentionedAll_iff {x : String} : ∀ ns : List Node,
    x ∈ mentionedAll ns ↔ ∃ n ∈ ns, n.Mentions x
  | [] => by simp [mentionedAll]
  | n :: ns => by simp [mentionedAll, mem_mentioned_iff n, mem_mentionedAll_iff ns]

end

instance (n : Node) (x : String) : Decidable (n.Mentions x) :=
  decidable_of_iff _ (mem_mentioned_iff n)

mutual

/-- The tree with a function applied to every name in it. -/
def renamed (f : String → String) : Node → Node
  | absent => absent
  | program r ss => program r (renamedAll f ss)
  | block r ss => block r (renamedAll f ss)
  | expressionStatement r e => expressionStatement r (renamed f e)
  | returnStatement r e => returnStatement r (renamed f e)
  | branch r p c a => branch r (renamed f p) (renamed f c) (renamed f a)
  | number r v => number r v
  | boolean r v => boolean r v
  | string r v => string r v
  | identifier r n => identifier r (f n)
  | unary r op e => unary r op (renamed f e)
  | binary r op a b => binary r op (renamed f a) (renamed f b)
  | assignment r a b => assignment r (renamed f a) (renamed f b)
  | function r ps b => function r (renamedAll f ps) (renamed f b)
  | call r c as => call r (renamed f c) (renamedAll f as)

/-- The trees with a function applied to every name in them. -/
def renamedAll (f : String → String) : List Node → List Node
  | [] => []
  | n :: ns => renamed f n :: renamedAll f ns

end

mutual

/-- Renaming nothing leaves a tree as it is. -/
theorem renamed_id : ∀ n : Node, n.renamed (fun x => x) = n
  | .absent => rfl
  | .program _ ss => by rw [renamed, renamedAll_id ss]
  | .block _ ss => by rw [renamed, renamedAll_id ss]
  | .expressionStatement _ e => by rw [renamed, renamed_id e]
  | .returnStatement _ e => by rw [renamed, renamed_id e]
  | .branch _ p c a => by rw [renamed, renamed_id p, renamed_id c, renamed_id a]
  | .number _ _ => rfl
  | .boolean _ _ => rfl
  | .string _ _ => rfl
  | .identifier _ _ => rfl
  | .unary _ _ e => by rw [renamed, renamed_id e]
  | .binary _ _ a b => by rw [renamed, renamed_id a, renamed_id b]
  | .assignment _ a b => by rw [renamed, renamed_id a, renamed_id b]
  | .function _ ps b => by rw [renamed, renamedAll_id ps, renamed_id b]
  | .call _ c as => by rw [renamed, renamed_id c, renamedAll_id as]

/-- So it does with trees in a list. -/
theorem renamedAll_id : ∀ ns : List Node, renamedAll (fun x => x) ns = ns
  | [] => rfl
  | n :: ns => by rw [renamedAll, renamed_id n, renamedAll_id ns]

end

/-! ## Variants -/

mutual

/-- The second tree is the first with related names and, where `idle` allows it, with further
statements behind return statements. -/
inductive Variant (name : String → String → Prop) (idle : Prop) : Node → Node → Prop
  | absent : Variant name idle absent absent
  | program {r : Range} {ss ss' : List Node} : VariantStatements name idle false ss ss' →
      Variant name idle (program r ss) (program r ss')
  | block {r : Range} {ss ss' : List Node} : VariantStatements name idle false ss ss' →
      Variant name idle (block r ss) (block r ss')
  | expressionStatement {r : Range} {e e' : Node} : Variant name idle e e' →
      Variant name idle (expressionStatement r e) (expressionStatement r e')
  | returnStatement {r : Range} {e e' : Node} : Variant name idle e e' →
      Variant name idle (returnStatement r e) (returnStatement r e')
  | branch {r : Range} {p p' c c' a a' : Node} : Variant name idle p p' →
      Variant name idle c c' → Variant name idle a a' →
      Variant name idle (branch r p c a) (branch r p' c' a')
  | number (r : Range) (v : Double) : Variant name idle (number r v) (number r v)
  | boolean (r : Range) (v : Bool) : Variant name idle (boolean r v) (boolean r v)
  | string (r : Range) (v : String) : Variant name idle (string r v) (string r v)
  | identifier (r : Range) {n n' : String} : name n n' →
      Variant name idle (identifier r n) (identifier r n')
  | unary (r : Range) (op : String) {e e' : Node} : Variant name idle e e' →
      Variant name idle (unary r op e) (unary r op e')
  | binary (r : Range) (op : String) {a a' b b' : Node} : Variant name idle a a' →
      Variant name idle b b' → Variant name idle (binary r op a b) (binary r op a' b')
  | assignment (r : Range) {a a' b b' : Node} : Variant name idle a a' →
      Variant name idle b b' → Variant name idle (assignment r a b) (assignment r a' b')
  | function (r : Range) {ps ps' : List Node} {b b' : Node} : VariantAll name idle ps ps' →
      Variant name idle b b' → Variant name idle (function r ps b) (function r ps' b')
  | call (r : Range) {f f' : Node} {as as' : List Node} : Variant name idle f f' →
      VariantAll name idle as as' → Variant name idle (call r f as) (call r f' as')

/-- Parameters or arguments that are variants of one another, one by one. -/
inductive VariantAll (name : String → String → Prop) (idle : Prop) :
    List Node → List Node → Prop
  | nil : VariantAll name idle [] []
  | cons {n n' : Node} {ns ns' : List Node} : Variant name idle n n' →
      VariantAll name idle ns ns' → VariantAll name idle (n :: ns) (n' :: ns')

/-- Statements that are variants of one another, one by one, but for further statements of the
second.  The truth value tells whether a return statement stands before them in their list. -/
inductive VariantStatements (name : String → String → Prop) (idle : Prop) :
    (returned : Bool) → List Node → List Node → Prop
  | nil {returned : Bool} : VariantStatements name idle returned [] []
  | cons {returned : Bool} {n n' : Node} {ns ns' : List Node} : Variant name idle n n' →
      VariantStatements name idle (returned || n.isReturn) ns ns' →
      VariantStatements name idle returned (n :: ns) (n' :: ns')
  | further {n' : Node} {ns ns' : List Node} : idle →
      VariantStatements name idle true ns ns' → VariantStatements name idle true ns (n' :: ns')

end

variable {name : String → String → Prop} {idle : Prop} {n n' : Node} {ns ns' : List Node}

namespace Variant

/-- Where a variant has nothing, the tree has nothing. -/
theorem isAbsent_eq (h : Variant name idle n n') : n.isAbsent = n'.isAbsent := by
  cases h <;> rfl

/-- Ranges do not vary. -/
theorem range_eq (h : Variant name idle n n') : n.range = n'.range := by
  cases h <;> rfl

/-- Variants are names together. -/
theorem name?_rel (h : Variant name idle n n') : Option.Rel name n.name? n'.name? := by
  cases h with
  | identifier _ hn => exact .some hn
  | _ => exact .none

end Variant

/-- Parameters and arguments are as many as those they are variants of. -/
theorem VariantAll.length_eq (h : VariantAll name idle ns ns') : ns.length = ns'.length := by
  induction ns generalizing ns' with
  | nil =>
    cases h
    rfl
  | cons n ns ih =>
    cases h with
    | cons _ hs => simp only [List.length_cons, ih hs]

section Function

variable {f : String → String}

mutual

/-- A tree that is renamed is a variant, if the names that occur in it are renamed to related
ones. -/
theorem variant_renamed : ∀ n : Node, (∀ x, n.Mentions x → name x (f x)) →
    Variant name idle n (n.renamed f)
  | .absent, _ => .absent
  | .program _ ss, h =>
    .program (variantStatements_renamed ss fun _ hm x hx => h x (hx.of_child hm))
  | .block _ ss, h => .block (variantStatements_renamed ss fun _ hm x hx => h x (hx.of_child hm))
  | .expressionStatement _ e, h =>
    .expressionStatement (variant_renamed e fun x hx => h x (hx.of_child (by simp [children])))
  | .returnStatement _ e, h =>
    .returnStatement (variant_renamed e fun x hx => h x (hx.of_child (by simp [children])))
  | .branch _ p c a, h =>
    .branch (variant_renamed p fun x hx => h x (hx.of_child (by simp [children])))
      (variant_renamed c fun x hx => h x (hx.of_child (by simp [children])))
      (variant_renamed a fun x hx => h x (hx.of_child (by simp [children])))
  | .number r v, _ => .number r v
  | .boolean r v, _ => .boolean r v
  | .string r v, _ => .string r v
  | .identifier r x, h => .identifier r (h x ⟨r, .whole⟩)
  | .unary r op e, h =>
    .unary r op (variant_renamed e fun x hx => h x (hx.of_child (by simp [children])))
  | .binary r op a b, h =>
    .binary r op (variant_renamed a fun x hx => h x (hx.of_child (by simp [children])))
      (variant_renamed b fun x hx => h x (hx.of_child (by simp [children])))
  | .assignment r a b, h =>
    .assignment r (variant_renamed a fun x hx => h x (hx.of_child (by simp [children])))
      (variant_renamed b fun x hx => h x (hx.of_child (by simp [children])))
  | .function r ps b, h =>
    .function r
      (variantAll_renamed ps fun p hp x hx => h x (hx.of_child (by simp [children, hp])))
      (variant_renamed b fun x hx => h x (hx.of_child (by simp [children])))
  | .call r c as, h =>
    .call r (variant_renamed c fun x hx => h x (hx.of_child (by simp [children])))
      (variantAll_renamed as fun a ha x hx => h x (hx.of_child (by simp [children, ha])))

/-- Parameters or arguments that are renamed are variants, one by one. -/
theorem variantAll_renamed : ∀ ns : List Node, (∀ n ∈ ns, ∀ x, n.Mentions x → name x (f x)) →
    VariantAll name idle ns (renamedAll f ns)
  | [], _ => .nil
  | n :: ns, h =>
    .cons (variant_renamed n (h n List.mem_cons_self))
      (variantAll_renamed ns fun m hm => h m (List.mem_cons_of_mem n hm))

/-- Statements that are renamed are variants, one by one, with none added. -/
theorem variantStatements_renamed {returned : Bool} : ∀ ns : List Node,
    (∀ n ∈ ns, ∀ x, n.Mentions x → name x (f x)) →
    VariantStatements name idle returned ns (renamedAll f ns)
  | [], _ => .nil
  | n :: ns, h =>
    .cons (variant_renamed n (h n List.mem_cons_self))
      (variantStatements_renamed ns fun m hm => h m (List.mem_cons_of_mem n hm))

end

/-- A tree is a variant of itself, if the names that occur in it are related to themselves. -/
theorem variant_self (h : ∀ x, n.Mentions x → name x x) : Variant name idle n n := by
  have hr : Variant name idle n (n.renamed fun x => x) := variant_renamed n h
  rwa [renamed_id] at hr

/-- So are trees in a list. -/
theorem variantAll_self (h : ∀ n ∈ ns, ∀ x, n.Mentions x → name x x) :
    VariantAll name idle ns ns := by
  have hr : VariantAll name idle ns (renamedAll (fun x => x) ns) := variantAll_renamed ns h
  rwa [renamedAll_id] at hr

mutual

/-- **What a tree is a variant to.**  Under a function on names, and without further statements,
that is the tree renamed, and no other. -/
theorem Variant.eq_renamed (hf : ∀ x x', name x x' → x' = f x) (hno : ¬ idle) :
    ∀ {n n' : Node}, Variant name idle n n' → n' = n.renamed f
  | .absent, _, h => by
    cases h
    rfl
  | .program _ _, _, h => by
    cases h with
    | program hs => rw [hs.eq_renamedAll hf hno, renamed]
  | .block _ _, _, h => by
    cases h with
    | block hs => rw [hs.eq_renamedAll hf hno, renamed]
  | .expressionStatement _ _, _, h => by
    cases h with
    | expressionStatement he => rw [he.eq_renamed hf hno, renamed]
  | .returnStatement _ _, _, h => by
    cases h with
    | returnStatement he => rw [he.eq_renamed hf hno, renamed]
  | .branch _ _ _ _, _, h => by
    cases h with
    | branch hp hc ha =>
      rw [hp.eq_renamed hf hno, hc.eq_renamed hf hno, ha.eq_renamed hf hno, renamed]
  | .number _ _, _, h => by
    cases h
    rfl
  | .boolean _ _, _, h => by
    cases h
    rfl
  | .string _ _, _, h => by
    cases h
    rfl
  | .identifier _ _, _, h => by
    cases h with
    | identifier _ hn => rw [hf _ _ hn, renamed]
  | .unary _ _ _, _, h => by
    cases h with
    | unary _ _ he => rw [he.eq_renamed hf hno, renamed]
  | .binary _ _ _ _, _, h => by
    cases h with
    | binary _ _ ha hb => rw [ha.eq_renamed hf hno, hb.eq_renamed hf hno, renamed]
  | .assignment _ _ _, _, h => by
    cases h with
    | assignment _ ha hb => rw [ha.eq_renamed hf hno, hb.eq_renamed hf hno, renamed]
  | .function _ _ _, _, h => by
    cases h with
    | function _ hs hb => rw [hs.eq_renamedAll hf hno, hb.eq_renamed hf hno, renamed]
  | .call _ _ _, _, h => by
    cases h with
    | call _ hc hs => rw [hc.eq_renamed hf hno, hs.eq_renamedAll hf hno, renamed]

/-- Parameters or arguments are variants to what they are renamed to. -/
theorem VariantAll.eq_renamedAll (hf : ∀ x x', name x x' → x' = f x) (hno : ¬ idle) :
    ∀ {ns ns' : List Node}, VariantAll name idle ns ns' → ns' = renamedAll f ns
  | [], _, h => by
    cases h
    rfl
  | _ :: _, _, h => by
    cases h with
    | cons hn hs => rw [hn.eq_renamed hf hno, hs.eq_renamedAll hf hno, renamedAll]

/-- Statements are, too: with none added, there is no other way to vary them. -/
theorem VariantStatements.eq_renamedAll (hf : ∀ x x', name x x' → x' = f x) (hno : ¬ idle) :
    ∀ {returned : Bool} {ns ns' : List Node}, VariantStatements name idle returned ns ns' →
      ns' = renamedAll f ns
  | _, [], _, h => by
    cases h with
    | nil => rfl
    | further hi => exact absurd hi hno
  | _, _ :: _, _, h => by
    cases h with
    | cons hn hs => rw [hn.eq_renamed hf hno, hs.eq_renamedAll hf hno, renamedAll]
    | further hi => exact absurd hi hno

end

end Function

section Same

variable (hname : ∀ x x', name x x' → x = x') (hno : ¬ idle)

include hname hno

/-- Where names are the same and no statements are added, a variant is the tree itself. -/
theorem Variant.eq (h : Variant name idle n n') : n' = n := by
  have hr := h.eq_renamed (f := fun x => x) (fun x x' hx => (hname x x' hx).symm) hno
  rwa [renamed_id] at hr

/-- So it is with parameters and arguments. -/
theorem VariantAll.eq (h : VariantAll name idle ns ns') : ns' = ns := by
  have hr := h.eq_renamedAll (f := fun x => x) (fun x x' hx => (hname x x' hx).symm) hno
  rwa [renamedAll_id] at hr

end Same
end Node
end HangulScript
