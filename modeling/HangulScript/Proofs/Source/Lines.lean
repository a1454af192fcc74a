import HangulScript.Proofs.Scanning.Tiling
import HangulScript.Proofs.Source.Windows
import HangulScript.Source.Lines

/-!
# Places on lines

A place is a row and a column, counted along the text; the lines of a text are what stands
between its newlines.  The two fit together: behind some characters of a text one is on the line
with the number of their row, as far into it as their column says (`Source.exists_line`).  What
follows on that line is what follows up to the next newline.

So the place of a character that does not end a line is a column inside of its line, and the
place behind the whole text is the column just past its last line.

A report is put together from lines and taken apart into lines again by whoever shows it.  That
these are the same lines is `Text.split_intercalate`.
-/

namespace HangulScript

/-! ## Taking apart what was put together -/

namespace Text

variable {separator : Char}

/-- A separator splits a text in two, whatever stands before and behind it. -/
theorem split_append_cons (text rest : List Char) :
    split separator (text ++ separator :: rest) = split separator text ++ split separator rest := by
  induction text with
  | nil => simp [split]
  | cons c text ih =>
    rw [List.cons_append, split, split, ih]
    cases hs : split separator text with
    | nil => exact absurd hs (split_ne_nil separator text)
    | cons part more => split <;> rfl

theorem split_of_not_mem {text : List Char} (h : separator ∉ text) :
    split separator text = [text] := by
  induction text with
  | nil => rfl
  | cons c text ih =>
    simp only [List.mem_cons, not_or] at h
    rw [split, if_neg (Ne.symm h.1), ih h.2]

/-- **Parts that hold no separator come apart where they were put together.** -/
theorem split_intercalate {parts : List (List Char)} (hne : parts ≠ [])
    (h : ∀ part ∈ parts, separator ∉ part) :
    split separator ([separator].intercalate parts) = parts := by
  induction parts with
  | nil => exact absurd rfl hne
  | cons part more ih =>
    obtain ⟨hpart, hmore⟩ := List.forall_mem_cons.mp h
    cases more with
    | nil => simpa [List.intercalate, List.intersperse] using split_of_not_mem hpart
    | cons next others =>
      have hjoin : [separator].intercalate (part :: next :: others) =
          part ++ separator :: [separator].intercalate (next :: others) := by
        simp [List.intercalate, List.intersperse]
      rw [hjoin, split_append_cons, split_of_not_mem hpart, ih (List.cons_ne_nil _ _) hmore]
      rfl

end Text

/-! ## Rows and lines -/

namespace Source

theorem length_lines (text : List Char) : (lines text).length = text.count '\n' + 1 := by
  unfold lines
  induction text with
  | nil => rfl
  | cons c text ih =>
    rw [Text.split]
    split
    next hc =>
      subst hc
      rw [List.length_cons, ih, List.count_cons_self]
    next hc =>
      rw [List.count_cons_of_ne hc]
      cases hs : Text.split '\n' text with
      | nil => exact absurd hs (Text.split_ne_nil '\n' text)
      | cons part more =>
        rw [hs] at ih
        exact ih

/-- The first line goes up to the first newline. -/
theorem head?_lines (text : List Char) :
    (lines text).head? = some (text.takeWhile fun c => c != '\n') := by
  unfold lines
  induction text with
  | nil => rfl
  | cons c text ih =>
    rw [Text.split, List.takeWhile_cons]
    by_cases hc : c = '\n'
    · simp [hc]
    · rw [if_neg hc]
      cases hs : Text.split '\n' text with
      | nil => exact absurd hs (Text.split_ne_nil '\n' text)
      | cons part more =>
        rw [hs, List.head?_cons, Option.some.injEq] at ih
        simp [hc, ih]

theorem takeWhile_append_of_newline_not_mem {front : List Char} (h : '\n' ∉ front)
    (rest : List Char) :
    (front ++ rest).takeWhile (fun c => c != '\n') =
      front ++ rest.takeWhile fun c => c != '\n' := by
  refine List.takeWhile_append_of_pos fun c hc => ?_
  rw [bne_iff_ne]
  rintro rfl
  exact h hc

/-- Behind a text without newlines one is in the first row. -/
theorem place_of_newline_not_mem {front : List Char} (h : '\n' ∉ front) :
    place front = ⟨0, front.length⟩ := by
  have hplace := Position.after_of_newline_not_mem h (place [])
  rw [← place_append] at hplace
  simpa [place, Position.right] using hplace

/-- Behind a newline, and then no other, one is in the row behind those before it. -/
theorem place_append_newline (upper : List Char) {front : List Char} (h : '\n' ∉ front) :
    place (upper ++ '\n' :: front) = ⟨(lines upper).length, front.length⟩ := by
  rw [place_append, Position.after_cons, Position.after_of_newline_not_mem h, length_lines]
  simp [Position.next, Position.right, place]

/-- **Rows are lines.**  The place behind some characters of a text is in a row of the text, as
far into it as the column says, and the line goes on from there up to the next newline. -/
theorem exists_line (before rest : List Char) :
    ∃ (row : Nat) (front : List Char), place before = ⟨row, front.length⟩ ∧
      (lines (before ++ rest))[row]? = some (front ++ rest.takeWhile fun c => c != '\n') := by
  by_cases h : '\n' ∈ before
  · -- the last newline ends the lines above
    obtain ⟨behind, above, hsplit, hbehind⟩ :=
      List.eq_append_cons_of_mem (List.mem_reverse.mpr h)
    obtain rfl : before = above.reverse ++ '\n' :: behind.reverse := by
      rw [← List.reverse_reverse before, hsplit]
      simp
    have hfront : '\n' ∉ behind.reverse := fun hm => hbehind (List.mem_reverse.mp hm)
    refine ⟨(lines above.reverse).length, behind.reverse,
      place_append_newline above.reverse hfront, ?_⟩
    rw [lines, List.append_assoc, List.cons_append, Text.split_append_cons, ← lines, ← lines,
      List.getElem?_append_right (Nat.le_refl _), Nat.sub_self, ← List.head?_eq_getElem?,
      head?_lines, takeWhile_append_of_newline_not_mem hfront]
  · refine ⟨0, before, place_of_newline_not_mem h, ?_⟩
    rw [← List.head?_eq_getElem?, head?_lines, takeWhile_append_of_newline_not_mem h]

/-- No line holds a newline. -/
theorem newline_not_mem_of_line {text line : List Char} {row : Nat}
    (h : (lines text)[row]? = some line) : '\n' ∉ line :=
  Text.not_mem_of_mem_split (List.mem_of_getElem? h)

/-! ## Places of characters -/

/-- Reading order on places behind the beginnings of a text. -/
theorem notAfter_place_of_prefix {before further : List Char} (h : before <+: further) :
    (place before).notAfter (place further) = true := by
  obtain ⟨text, rfl⟩ := h
  rw [place_append]
  exact Position.notAfter_after _ _

/-- A character of a text stands at a place, and it does not end a line. -/
def Holds (text : List Char) (p : Position) : Prop :=
  ∃ before c behind, text = before ++ c :: behind ∧ c ≠ '\n' ∧ p = place before

/-- The place of a character is a column inside of a line of the text. -/
theorem Holds.exists_line {text : List Char} {p : Position} (h : Holds text p) :
    ∃ (row column : Nat) (line : List Char), p = ⟨row, column⟩ ∧
      (lines text)[row]? = some line ∧ column < line.length := by
  obtain ⟨before, c, behind, rfl, hc, rfl⟩ := h
  obtain ⟨row, front, hplace, hline⟩ := Source.exists_line before (c :: behind)
  refine ⟨row, front.length, _, hplace, hline, ?_⟩
  simp [hc]

/-- The place behind a text is just past its last line. -/
theorem exists_last_line (text : List Char) :
    ∃ (row : Nat) (line : List Char), place text = ⟨row, line.length⟩ ∧
      (lines text)[row]? = some line := by
  obtain ⟨row, front, hplace, hline⟩ := exists_line text []
  simp only [List.append_nil, List.takeWhile_nil] at hline
  exact ⟨row, front, hplace, hline⟩

end Source

/-- A range begins and ends at characters of a text, and it does not end before it begins. -/
structure Range.LiesIn (r : Range) (text : List Char) : Prop where
  first : Source.Holds text r.first
  last : Source.Holds text r.last
  ordered : r.first.notAfter r.last = true

end HangulScript
