import HangulScript.Tree.Basic

/-!
# Trees with other ranges

A function on ranges is applied to every range of a tree.  The bare tree is the one in which
all ranges are the same, so that two trees agree in everything but their ranges exactly when
their bare trees are equal.
-/

namespace HangulScript
namespace Node

mutual

/-- The tree with a function applied to every range in it. -/
def mapRanges (f : Range → Range) : Node → Node
  | absent => absent
  | program r ss => program (f r) (mapRangesAll f ss)
  | block r ss => block (f r) (mapRangesAll f ss)
  | expressionStatement r e => expressionStatement (f r) (mapRanges f e)
  | returnStatement r e => returnStatement (f r) (mapRanges f e)
  | branch r p c a => branch (f r) (mapRanges f p) (mapRanges f c) (mapRanges f a)
  | number r v => number (f r) v
  | boolean r v => boolean (f r) v
  | string r v => string (f r) v
  | identifier r n => identifier (f r) n
  | unary r op e => unary (f r) op (mapRanges f e)
  | binary r op a b => binary (f r) op (mapRanges f a) (mapRanges f b)
  | assignment r a b => assignment (f r) (mapRanges f a) (mapRanges f b)
  | function r ps b => function (f r) (mapRangesAll f ps) (mapRanges f b)
  | call r c as => call (f r) (mapRanges f c) (mapRangesAll f as)

/-- The trees with a function applied to every range in them. -/
def mapRangesAll (f : Range → Range) : List Node → List Node
  | [] => []
  | n :: ns => mapRanges f n :: mapRangesAll f ns

end

theorem mapRangesAll_eq_map (f : Range → Range) (ns : List Node) :
    mapRangesAll f ns = ns.map (mapRanges f) := by
  induction ns with
  | nil => rfl
  | cons n ns ih => rw [mapRangesAll, ih, List.map_cons]

mutual

theorem mapRanges_id : ∀ n : Node, n.mapRanges (fun r => r) = n
  | .absent => rfl
  | .program _ ss => by rw [mapRanges, mapRangesAll_id ss]
  | .block _ ss => by rw [mapRanges, mapRangesAll_id ss]
  | .expressionStatement _ e => by rw [mapRanges, mapRanges_id e]
  | .returnStatement _ e => by rw [mapRanges, mapRanges_id e]
  | .branch _ p c a => by rw [mapRanges, mapRanges_id p, mapRanges_id c, mapRanges_id a]
  | .number _ _ => rfl
  | .boolean _ _ => rfl
  | .string _ _ => rfl
  | .identifier _ _ => rfl
  | .unary _ _ e => by rw [mapRanges, mapRanges_id e]
  | .binary _ _ a b => by rw [mapRanges, mapRanges_id a, mapRanges_id b]
  | .assignment _ a b => by rw [mapRanges, mapRanges_id a, mapRanges_id b]
  | .function _ ps b => by rw [mapRanges, mapRangesAll_id ps, mapRanges_id b]
  | .call _ c as => by rw [mapRanges, mapRanges_id c, mapRangesAll_id as]

theorem mapRangesAll_id : ∀ ns : List Node, mapRangesAll (fun r => r) ns = ns
  | [] => rfl
  | n :: ns => by rw [mapRangesAll, mapRanges_id n, mapRangesAll_id ns]

end

mutual

/-- A function after another one. -/
theorem mapRanges_mapRanges (f g : Range → Range) :
    ∀ n : Node, (n.mapRanges g).mapRanges f = n.mapRanges fun r => f (g r)
  | .absent => rfl
  | .program _ ss => by simp only [mapRanges, mapRangesAll_mapRangesAll f g ss]
  | .block _ ss => by simp only [mapRanges, mapRangesAll_mapRangesAll f g ss]
  | .expressionStatement _ e => by simp only [mapRanges, mapRanges_mapRanges f g e]
  | .returnStatement _ e => by simp only [mapRanges, mapRanges_mapRanges f g e]
  | .branch _ p c a => by
    simp only [mapRanges, mapRanges_mapRanges f g p, mapRanges_mapRanges f g c,
      mapRanges_mapRanges f g a]
  | .number _ _ => rfl
  | .boolean _ _ => rfl
  | .string _ _ => rfl
  | .identifier _ _ => rfl
  | .unary _ _ e => by simp only [mapRanges, mapRanges_mapRanges f g e]
  | .binary _ _ a b => by
    simp only [mapRanges, mapRanges_mapRanges f g a, mapRanges_mapRanges f g b]
  | .assignment _ a b => by
    simp only [mapRanges, mapRanges_mapRanges f g a, mapRanges_mapRanges f g b]
  | .function _ ps b => by
    simp only [mapRanges, mapRangesAll_mapRangesAll f g ps, mapRanges_mapRanges f g b]
  | .call _ c as => by
    simp only [mapRanges, mapRanges_mapRanges f g c, mapRangesAll_mapRangesAll f g as]

theorem mapRangesAll_mapRangesAll (f g : Range → Range) : ∀ ns : List Node,
    mapRangesAll f (mapRangesAll g ns) = mapRangesAll (fun r => f (g r)) ns
  | [] => rfl
  | n :: ns => by
    simp only [mapRangesAll, mapRanges_mapRanges f g n, mapRangesAll_mapRangesAll f g ns]

end

/-- The range of a tree is mapped with it, unless there is no tree. -/
theorem range_mapRanges (f : Range → Range) {n : Node} (h : n.isAbsent = false) :
    (n.mapRanges f).range = f n.range := by
  cases n with
  | absent => cases h
  | _ => rfl

theorem mapRanges_withRange (f : Range → Range) (r : Range) (n : Node) :
    (n.withRange r).mapRanges f = (n.mapRanges f).withRange (f r) := by
  cases n <;> rfl

/-- The tree without its ranges. -/
def bare : Node → Node := mapRanges fun _ => Range.point Position.origin

/-- The trees without their ranges. -/
def bareAll : List Node → List Node := mapRangesAll fun _ => Range.point Position.origin

@[simp] theorem bare_withRange (r : Range) (n : Node) : (n.withRange r).bare = n.bare := by
  cases n <;> rfl

@[simp] theorem bareAll_nil : bareAll [] = [] := rfl

@[simp] theorem bareAll_cons (n : Node) (ns : List Node) :
    bareAll (n :: ns) = n.bare :: bareAll ns := rfl

end Node
end HangulScript
