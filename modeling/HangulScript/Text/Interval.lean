/-!
# Character classes as lists of intervals

A class of characters that a standard fixes --- decimal digits, word characters,
printable characters --- is data, not a computation, and it is kept here as data:
a list of closed intervals of code points.  Membership is then one function for
all classes, and what is true of membership is proved once.

The lists are ascending and their intervals do not touch.  That is proved of each
table beside it, and it makes the list a matter of the class alone: two such lists that
cover the same code points are one list (`eq_of_covers_iff`).
-/

namespace HangulScript
namespace Text

/-- A closed interval of code points, first and last. -/
abbrev Interval := Nat × Nat

/-- Whether a code point lies in one of the intervals. -/
def covers (table : List Interval) (code : Nat) : Bool :=
  table.any fun interval => interval.1 ≤ code && code ≤ interval.2

theorem covers_eq_true_iff {table : List Interval} {code : Nat} :
    covers table code = true ↔ ∃ i ∈ table, i.1 ≤ code ∧ code ≤ i.2 := by
  simp [covers]

theorem covers_cons_iff {i : Interval} {table : List Interval} {code : Nat} :
    covers (i :: table) code = true ↔ (i.1 ≤ code ∧ code ≤ i.2) ∨ covers table code = true := by
  simp [covers]

/-! ## Ascending lists -/

/-- Whether intervals ascend without touching: the shape every table has. -/
def ascending : List Interval → Bool
  | [] => true
  | [i] => i.1 ≤ i.2
  | i :: j :: rest => i.1 ≤ i.2 && i.2 + 1 < j.1 && ascending (j :: rest)

variable {i j : Interval} {a b : List Interval} {code : Nat}

theorem le_of_ascending (h : ascending (i :: a) = true) : i.1 ≤ i.2 := by
  cases a <;> simp_all [ascending]

theorem ascending_tail (h : ascending (i :: a) = true) : ascending a = true := by
  cases a with
  | nil => rfl
  | cons j rest =>
    simp only [ascending, Bool.and_eq_true] at h
    exact h.2

/-- What the later intervals cover lies beyond the first one and does not touch it. -/
theorem lt_of_covers_tail (h : ascending (i :: a) = true) (hc : covers a code = true) :
    i.2 + 1 < code := by
  induction a generalizing i with
  | nil => cases hc
  | cons j rest ih =>
    simp only [ascending, Bool.and_eq_true, decide_eq_true_eq] at h
    obtain ⟨⟨-, hnext⟩, hrest⟩ := h
    rcases covers_cons_iff.1 hc with ⟨hj, -⟩ | hc
    · omega
    · have := le_of_ascending hrest
      have := ih hrest hc
      omega

theorem covers_start (h : ascending (i :: a) = true) : covers (i :: a) i.1 = true :=
  covers_cons_iff.2 (Or.inl ⟨Nat.le_refl _, le_of_ascending h⟩)

/-- The first interval starts at the least code point of the class. -/
theorem start_le_of_covers (h : ascending (i :: a) = true) (hc : covers (i :: a) code = true) :
    i.1 ≤ code := by
  rcases covers_cons_iff.1 hc with ⟨hi, -⟩ | hc
  · exact hi
  · have := le_of_ascending h
    have := lt_of_covers_tail h hc
    omega

/-- It ends no later than the first interval of any other list of the class: the code point
right behind it is not in the class. -/
theorem end_le_of_covers (ha : ascending (i :: a) = true)
    (h : covers (j :: b) (i.2 + 1) = true → covers (i :: a) (i.2 + 1) = true)
    (hstart : j.1 ≤ i.2 + 1) : j.2 ≤ i.2 := by
  refine Nat.le_of_not_lt fun hlt => ?_
  rcases covers_cons_iff.1 (h (covers_cons_iff.2 (Or.inl ⟨hstart, hlt⟩))) with ⟨-, hi⟩ | hc
  · omega
  · exact absurd (lt_of_covers_tail ha hc) (Nat.lt_irrefl _)

/-- **A class has one ascending list.** -/
theorem eq_of_covers_iff (ha : ascending a = true) (hb : ascending b = true)
    (h : ∀ code, covers a code = true ↔ covers b code = true) : a = b := by
  induction a generalizing b with
  | nil =>
    cases b with
    | nil => rfl
    | cons j b => cases (h j.1).2 (covers_start hb)
  | cons i a ih =>
    cases b with
    | nil => cases (h i.1).1 (covers_start ha)
    | cons j b =>
      have hstart : i.1 = j.1 := Nat.le_antisymm
        (start_le_of_covers ha ((h j.1).2 (covers_start hb)))
        (start_le_of_covers hb ((h i.1).1 (covers_start ha)))
      have hi := le_of_ascending ha
      have hj := le_of_ascending hb
      have hend : i.2 = j.2 := Nat.le_antisymm
        (end_le_of_covers hb (h (j.2 + 1)).1 (by omega))
        (end_le_of_covers ha (h (i.2 + 1)).2 (by omega))
      obtain rfl : i = j := Prod.ext hstart hend
      congr 1
      refine ih (ascending_tail ha) (ascending_tail hb) fun code => ?_
      have hcode := h code
      simp only [covers_cons_iff] at hcode
      constructor
      · intro hc
        have := lt_of_covers_tail ha hc
        exact (hcode.1 (Or.inr hc)).resolve_left fun hin => by omega
      · intro hc
        have := lt_of_covers_tail hb hc
        exact (hcode.2 (Or.inr hc)).resolve_left fun hin => by omega

end Text
end HangulScript
