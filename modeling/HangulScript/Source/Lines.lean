import HangulScript.Text.Split

/-!
# Lines of a text

A newline separates two lines, so a text with `n` newlines has `n + 1` lines and the
line after a final newline is empty.  A file may end its lines in other ways; what is
read from one is first brought to this form.
-/

namespace HangulScript
namespace Source

/-- A text split at its newlines. -/
def lines (text : List Char) : List (List Char) := Text.split '\n' text

/-- A text whose line ends are newlines: a carriage return, with or without a newline
after it, becomes one. -/
def withNewlines : List Char → List Char
  | [] => []
  | '\r' :: '\n' :: rest => '\n' :: withNewlines rest
  | c :: rest => (if c = '\r' then '\n' else c) :: withNewlines rest

/-- No carriage return is left. -/
theorem carriageReturn_not_mem_withNewlines (text : List Char) :
    '\r' ∉ withNewlines text := by
  fun_induction withNewlines text with
  | case1 => simp
  | case2 rest ih => simp [ih]
  | case3 c rest _ ih =>
    simp only [List.mem_cons, not_or]
    refine ⟨?_, ih⟩
    split
    · decide
    · next h => exact fun e => h e.symm

/-- A text without carriage returns is left as it is. -/
theorem withNewlines_of_not_mem {text : List Char} (h : '\r' ∉ text) :
    withNewlines text = text := by
  fun_induction withNewlines text with
  | case1 => rfl
  | case2 rest ih => exact absurd (List.mem_cons_self ..) h
  | case3 c rest _ ih =>
    simp only [List.mem_cons, not_or] at h
    rw [if_neg (fun e => h.1 e.symm), ih h.2]

end Source
end HangulScript
