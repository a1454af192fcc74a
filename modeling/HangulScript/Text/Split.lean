/-!
# Splitting a text

A text is split at every place where a separating character stands, so a text with
`n` of them has `n + 1` parts, and parts may be empty.  Joining the parts with the
separator gives the text back.
-/

namespace HangulScript
namespace Text

/-- The parts of a text between the separators. -/
def split (separator : Char) : List Char → List (List Char)
  | [] => [[]]
  | c :: rest =>
    if c = separator then [] :: split separator rest
    else
      match split separator rest with
      | [] => [[c]]
      | part :: more => (c :: part) :: more

/-- There is always a part. -/
theorem split_ne_nil (separator : Char) (text : List Char) : split separator text ≠ [] := by
  cases text with
  | nil => simp [split]
  | cons c rest => rw [split]; split <;> (try split) <;> simp

/-- **Splitting loses nothing.** -/
theorem intercalate_split (separator : Char) (text : List Char) :
    [separator].intercalate (split separator text) = text := by
  induction text with
  | nil => rfl
  | cons c rest ih =>
    rw [split]
    cases h : split separator rest with
    | nil => exact absurd h (split_ne_nil separator rest)
    | cons part more =>
      rw [h] at ih
      split
      · next hc =>
        subst hc
        cases more <;> simp_all [List.intercalate, List.intersperse]
      · cases more <;> simp_all [List.intercalate, List.intersperse]

/-- No part holds a separator. -/
theorem not_mem_of_mem_split {separator : Char} {text part : List Char}
    (h : part ∈ split separator text) : separator ∉ part := by
  induction text generalizing part with
  | nil => simp_all [split]
  | cons c rest ih =>
    rw [split] at h
    cases hr : split separator rest with
    | nil => exact absurd hr (split_ne_nil separator rest)
    | cons first more =>
      rw [hr] at h ih
      split at h
      · rcases List.mem_cons.1 h with rfl | h
        · simp
        · exact ih h
      · next hc =>
        rcases List.mem_cons.1 h with rfl | h
        · have := ih (List.mem_cons_self ..)
          simp only [List.mem_cons, not_or]
          exact ⟨fun e => hc e.symm, this⟩
        · exact ih (List.mem_cons_of_mem _ h)

end Text
end HangulScript
