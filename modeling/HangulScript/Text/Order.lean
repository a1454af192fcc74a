/-!
# The order of texts

Texts are ordered by code points: the first in which two texts differ decides, and if
there is none, the shorter text comes first.  This is the order in which the language
compares strings and in which names are listed.
-/

namespace HangulScript
namespace Text

/-- The order of two texts. -/
def order : List Char → List Char → Ordering
  | [], [] => .eq
  | [], _ :: _ => .lt
  | _ :: _, [] => .gt
  | c :: s, d :: t => (compare c.toNat d.toNat).then (order s t)

/-- Things listed by a text that belongs to each; those with equal texts stay as they
are. -/
def sortedBy {α : Type} (key : α → String) (things : List α) : List α :=
  things.mergeSort fun a b => order (key a).toList (key b).toList != .gt

theorem order_eq_iff (s t : List Char) : order s t = .eq ↔ s = t := by
  induction s generalizing t with
  | nil => cases t <;> simp [order]
  | cons c s ih =>
    cases t with
    | nil => simp [order]
    | cons d t =>
      simp only [order, Ordering.then_eq_eq, ih, List.cons.injEq, Nat.compare_eq_eq]
      exact and_congr_left fun _ => ⟨fun h => Char.toNat_inj.1 h, fun h => h ▸ rfl⟩

end Text
end HangulScript
