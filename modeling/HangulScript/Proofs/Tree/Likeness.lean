import HangulScript.Proofs.Tree.Ranges
import HangulScript.Proofs.Tree.Shapes

/-!
# Trees of one shape

Two trees are like each other when they differ in their ranges and their names at most, and
there in a given way: each range of the one is related to the range at its place in the other,
and so are the names.  Kinds, numbers, texts and operators are the same.  It can be asked for
besides that all parameters of functions are names, as they are in the trees that are read.

A function on ranges gives such a relation, and what a tree is like under it is the tree with
the function applied (`Like.eq_mapRanges`).  A relation is needed beside the function because
two trees can meet in the middle of a run, where neither was made out of the other.
-/

namespace HangulScript
namespace Node

/-- All parameters of functions in a tree are names. -/
def NamesParameters (tree : Node) : Prop :=
  ∀ (r : Range) (ps : List Node) (b : Node), IsPartOf (.function r ps b) tree →
    ∀ p ∈ ps, p.name?.isSome = true

namespace NamesParameters

theorem child {n m : Node} (h : n.NamesParameters) (hm : m ∈ n.children) :
    m.NamesParameters :=
  fun r ps b hp => h r ps b (.inside hm hp)

theorem parameters {r : Range} {ps : List Node} {b : Node}
    (h : NamesParameters (.function r ps b)) : ∀ p ∈ ps, p.name?.isSome = true :=
  h r ps b .whole

end NamesParameters

/-- The children of what fits fit somewhere. -/
theorem fits_child {role : Role} {n m : Node} (h : fits role n = true) (hm : m ∈ n.children) :
    m.isAbsent = true ∨ ∃ role', fits role' m = true := by
  cases n <;> cases role <;> simp_all [fits, fitAll_iff, children]
  all_goals grind

/-- In what fits, parameters are names. -/
theorem namesParameters_of_fits {role : Role} {n : Node} (h : fits role n = true) :
    n.NamesParameters := by
  intro r ps b hp
  generalize hf : Node.function r ps b = f at hp
  induction hp generalizing role with
  | whole =>
    subst hf
    cases role with
    | expression => exact fun p hp => serves_of_fits (fits_part h (.parameter hp))
    | _ => cases h
  | @inside m tree hm hp ih =>
    rcases fits_child h hm with ha | ⟨role', h'⟩
    · cases m with
      | absent =>
        subst hf
        cases hp with
        | inside hm _ => cases hm
      | _ => cases ha
    · exact ih h'

mutual

/-- Two trees that differ in related ranges and related names at most. -/
inductive Like (range : Range → Range → Prop) (name : String → String → Prop)
    (named : Prop) :
    Node → Node → Prop
  | absent : Like range name named absent absent
  | program {r r' : Range} {ss ss' : List Node} : range r r' → LikeAll range name named ss ss' →
      Like range name named (program r ss) (program r' ss')
  | block {r r' : Range} {ss ss' : List Node} : range r r' → LikeAll range name named ss ss' →
      Like range name named (block r ss) (block r' ss')
  | expressionStatement {r r' : Range} {e e' : Node} : range r r' → Like range name named e e' →
      Like range name named (expressionStatement r e) (expressionStatement r' e')
  | returnStatement {r r' : Range} {e e' : Node} : range r r' → Like range name named e e' →
      Like range name named (returnStatement r e) (returnStatement r' e')
  | branch {r r' : Range} {p p' c c' a a' : Node} : range r r' → Like range name named p p' →
      Like range name named c c' → Like range name named a a' →
      Like range name named (branch r p c a) (branch r' p' c' a')
  | number {r r' : Range} (v : Double) : range r r' →
      Like range name named (number r v) (number r' v)
  | boolean {r r' : Range} (v : Bool) : range r r' →
      Like range name named (boolean r v) (boolean r' v)
  | string {r r' : Range} (v : String) : range r r' →
      Like range name named (string r v) (string r' v)
  | identifier {r r' : Range} {n n' : String} : range r r' → name n n' →
      Like range name named (identifier r n) (identifier r' n')
  | unary {r r' : Range} (op : String) {e e' : Node} : range r r' → Like range name named e e' →
      Like range name named (unary r op e) (unary r' op e')
  | binary {r r' : Range} (op : String) {a a' b b' : Node} : range r r' →
      Like range name named a a' → Like range name named b b' →
      Like range name named (binary r op a b) (binary r' op a' b')
  | assignment {r r' : Range} {a a' b b' : Node} : range r r' → Like range name named a a' →
      Like range name named b b' → Like range name named (assignment r a b) (assignment r' a' b')
  | function {r r' : Range} {ps ps' : List Node} {b b' : Node} : range r r' →
      LikeAll range name named ps ps' → (named → ∀ p ∈ ps, p.name?.isSome = true) →
      Like range name named b b' → Like range name named (function r ps b) (function r' ps' b')
  | call {r r' : Range} {f f' : Node} {as as' : List Node} : range r r' →
      Like range name named f f' → LikeAll range name named as as' →
      Like range name named (call r f as) (call r' f' as')

/-- Two lists of trees that are like each other, one by one. -/
inductive LikeAll (range : Range → Range → Prop) (name : String → String → Prop)
    (named : Prop) :
    List Node → List Node → Prop
  | nil : LikeAll range name named [] []
  | cons {n n' : Node} {ns ns' : List Node} : Like range name named n n' →
      LikeAll range name named ns ns' → LikeAll range name named (n :: ns) (n' :: ns')

end

variable {range : Range → Range → Prop} {name : String → String → Prop} {named : Prop}
  {n n' : Node} {ns ns' : List Node}

namespace Like

theorem isAbsent_eq (h : Like range name named n n') : n.isAbsent = n'.isAbsent := by
  cases h <;> rfl

/-- The ranges of two trees are related, if there are trees. -/
theorem ranges (h : Like range name named n n') (hn : n.isAbsent = false) :
    range n.range n'.range := by
  cases h with
  | absent => cases hn
  | program hr | block hr | expressionStatement hr | returnStatement hr | branch hr
  | number _ hr | boolean _ hr | string _ hr | identifier hr | unary _ hr | binary _ hr
  | assignment hr | function hr | call hr => exact hr

/-- Trees that are like each other are names together. -/
theorem name?_rel (h : Like range name named n n') : Option.Rel name n.name? n'.name? := by
  cases h with
  | identifier _ hn => exact .some hn
  | _ => exact .none

end Like

theorem LikeAll.length_eq (h : LikeAll range name named ns ns') : ns.length = ns'.length := by
  induction ns generalizing ns' with
  | nil =>
    cases h
    rfl
  | cons n ns ih =>
    cases h with
    | cons _ hs => simp only [List.length_cons, ih hs]

/-! ## Likeness under a function -/

section Function

variable (f : Range → Range)

mutual

/-- A tree is like itself with a function applied to every range. -/
theorem like_mapRanges : ∀ n : Node, (named → n.NamesParameters) →
    Like (f · = ·) Eq named n (n.mapRanges f)
  | .absent, _ => .absent
  | .program _ ss, h => .program rfl (likeAll_mapRangesAll ss fun hn _ => (h hn).child)
  | .block _ ss, h => .block rfl (likeAll_mapRangesAll ss fun hn _ => (h hn).child)
  | .expressionStatement _ e, h =>
    .expressionStatement rfl (like_mapRanges e fun hn => (h hn).child (by simp [children]))
  | .returnStatement _ e, h =>
    .returnStatement rfl (like_mapRanges e fun hn => (h hn).child (by simp [children]))
  | .branch _ p c a, h =>
    .branch rfl (like_mapRanges p fun hn => (h hn).child (by simp [children]))
      (like_mapRanges c fun hn => (h hn).child (by simp [children]))
      (like_mapRanges a fun hn => (h hn).child (by simp [children]))
  | .number _ v, _ => .number v rfl
  | .boolean _ v, _ => .boolean v rfl
  | .string _ v, _ => .string v rfl
  | .identifier _ _, _ => .identifier rfl rfl
  | .unary _ op e, h =>
    .unary op rfl (like_mapRanges e fun hn => (h hn).child (by simp [children]))
  | .binary _ op a b, h =>
    .binary op rfl (like_mapRanges a fun hn => (h hn).child (by simp [children]))
      (like_mapRanges b fun hn => (h hn).child (by simp [children]))
  | .assignment _ a b, h =>
    .assignment rfl (like_mapRanges a fun hn => (h hn).child (by simp [children]))
      (like_mapRanges b fun hn => (h hn).child (by simp [children]))
  | .function _ ps b, h =>
    .function rfl
      (likeAll_mapRangesAll ps fun hn p hp => (h hn).child (by simp [children, hp]))
      (fun hn => (h hn).parameters)
      (like_mapRanges b fun hn => (h hn).child (by simp [children]))
  | .call _ c as, h =>
    .call rfl (like_mapRanges c fun hn => (h hn).child (by simp [children]))
      (likeAll_mapRangesAll as fun hn a ha => (h hn).child (by simp [children, ha]))

theorem likeAll_mapRangesAll : ∀ ns : List Node, (named → ∀ n ∈ ns, n.NamesParameters) →
    LikeAll (f · = ·) Eq named ns (mapRangesAll f ns)
  | [], _ => .nil
  | n :: ns, h =>
    .cons (like_mapRanges n fun hn => h hn n List.mem_cons_self)
      (likeAll_mapRangesAll ns fun hn m hm => h hn m (List.mem_cons_of_mem n hm))

end

mutual

/-- **What a tree is like.**  Under a function on ranges, and with the same names, a tree is
like no other tree than the one with the function applied to its ranges. -/
theorem Like.eq_mapRanges : ∀ {n n' : Node}, Like (f · = ·) Eq named n n' → n' = n.mapRanges f
  | .absent, _, h => by
    cases h
    rfl
  | .program _ _, _, h => by
    cases h with
    | program hr hs => rw [← hr, hs.eq_mapRangesAll, mapRanges]
  | .block _ _, _, h => by
    cases h with
    | block hr hs => rw [← hr, hs.eq_mapRangesAll, mapRanges]
  | .expressionStatement _ _, _, h => by
    cases h with
    | expressionStatement hr he => rw [← hr, he.eq_mapRanges, mapRanges]
  | .returnStatement _ _, _, h => by
    cases h with
    | returnStatement hr he => rw [← hr, he.eq_mapRanges, mapRanges]
  | .branch _ _ _ _, _, h => by
    cases h with
    | branch hr hp hc ha =>
      rw [← hr, hp.eq_mapRanges, hc.eq_mapRanges, ha.eq_mapRanges, mapRanges]
  | .number _ _, _, h => by
    cases h with
    | number _ hr => rw [← hr, mapRanges]
  | .boolean _ _, _, h => by
    cases h with
    | boolean _ hr => rw [← hr, mapRanges]
  | .string _ _, _, h => by
    cases h with
    | string _ hr => rw [← hr, mapRanges]
  | .identifier _ _, _, h => by
    cases h with
    | identifier hr hn => rw [← hr, ← hn, mapRanges]
  | .unary _ _ _, _, h => by
    cases h with
    | unary _ hr he => rw [← hr, he.eq_mapRanges, mapRanges]
  | .binary _ _ _ _, _, h => by
    cases h with
    | binary _ hr ha hb => rw [← hr, ha.eq_mapRanges, hb.eq_mapRanges, mapRanges]
  | .assignment _ _ _, _, h => by
    cases h with
    | assignment hr ha hb => rw [← hr, ha.eq_mapRanges, hb.eq_mapRanges, mapRanges]
  | .function _ _ _, _, h => by
    cases h with
    | function hr hs _ hb => rw [← hr, hs.eq_mapRangesAll, hb.eq_mapRanges, mapRanges]
  | .call _ _ _, _, h => by
    cases h with
    | call hr hc hs => rw [← hr, hc.eq_mapRanges, hs.eq_mapRangesAll, mapRanges]

theorem LikeAll.eq_mapRangesAll :
    ∀ {ns ns' : List Node}, LikeAll (f · = ·) Eq named ns ns' → ns' = mapRangesAll f ns
  | [], _, h => by
    cases h
    rfl
  | _ :: _, _, h => by
    cases h with
    | cons hn hs => rw [hn.eq_mapRanges, hs.eq_mapRangesAll, mapRangesAll]

end

end Function

/-! With the same ranges and the same names, a tree is like itself, and like no other tree. -/

theorem Like.eq_self (h : Like Eq Eq named n n') : n' = n := by
  have hm : n' = n.mapRanges fun r => r := Like.eq_mapRanges _ h
  rw [hm, mapRanges_id]

theorem LikeAll.eq_self (h : LikeAll Eq Eq named ns ns') : ns' = ns := by
  have hm : ns' = mapRangesAll (fun r => r) ns := LikeAll.eq_mapRangesAll _ h
  rw [hm, mapRangesAll_id]

theorem like_self (h : named → n.NamesParameters) : Like Eq Eq named n n := by
  have hm : Like Eq Eq named n (n.mapRanges fun r => r) := like_mapRanges _ n h
  rwa [mapRanges_id] at hm

theorem likeAll_self (h : named → ∀ n ∈ ns, n.NamesParameters) : LikeAll Eq Eq named ns ns := by
  have hm : LikeAll Eq Eq named ns (mapRangesAll (fun r => r) ns) := likeAll_mapRangesAll _ ns h
  rwa [mapRangesAll_id] at hm

end Node
end HangulScript
