import HangulScript.Source.Range
import HangulScript.Text.Blank

/-!
# Windows on a text

A window shows what stands in a range of a text and blanks the rest.  Newlines stay, so that
everything that is shown keeps its place.

Places are compared in reading order.  Going over a text never leads back, and so a text that
is cut where the range begins and behind where it ends is blanked, shown and blanked again
(`windowFrom_split`).
-/

namespace HangulScript

/-! ## Reading order -/

namespace Position

theorem before_iff {p q : Position} :
    p.before q = true ↔ p.row < q.row ∨ p.row = q.row ∧ p.column < q.column := by
  simp [before]

theorem before_irrefl (p : Position) : p.before p = false := by
  refine Bool.eq_false_iff.mpr fun h => ?_
  rw [before_iff] at h
  omega

theorem before_trans {p q r : Position} (h : p.before q = true) (h' : q.before r = true) :
    p.before r = true := by
  rw [before_iff] at *
  omega

theorem before_next (p : Position) (c : Char) : p.before (p.next c) = true := by
  rw [before_iff, next]
  split
  · exact Or.inl (by show p.row < p.row + 1; omega)
  · exact Or.inr ⟨rfl, by show p.column < p.column + 1; omega⟩

/-- Going over a text leads on. -/
theorem before_after (p : Position) (c : Char) (text : List Char) :
    p.before (p.after (c :: text)) = true := by
  induction text generalizing p c with
  | nil => exact before_next p c
  | cons d text ih => exact before_trans (before_next p c) (ih (p.next c) d)

theorem notAfter_iff {p q : Position} : p.notAfter q = true ↔ q.before p = false := by
  simp [notAfter]

/-- Going over a text does not lead back. -/
theorem notAfter_after (p : Position) (text : List Char) : p.notAfter (p.after text) = true := by
  rw [notAfter_iff]
  cases text with
  | nil => exact before_irrefl p
  | cons c text =>
    refine Bool.eq_false_iff.mpr fun h => ?_
    have hself := before_trans (before_after p c text) h
    rw [before_irrefl] at hself
    cases hself

theorem notAfter_refl (p : Position) : p.notAfter p = true := notAfter_after p []

theorem notAfter_of_before {p q : Position} (h : p.before q = true) : p.notAfter q = true := by
  rw [notAfter_iff, Bool.eq_false_iff, Ne, before_iff] at *
  omega

theorem notAfter_trans {p q r : Position} (h : p.notAfter q = true) (h' : q.notAfter r = true) :
    p.notAfter r = true := by
  rw [notAfter_iff, Bool.eq_false_iff, Ne, before_iff] at *
  omega

theorem before_of_before_of_notAfter {p q r : Position} (h : p.before q = true)
    (h' : q.notAfter r = true) : p.before r = true := by
  rw [notAfter_iff, Bool.eq_false_iff, Ne, before_iff] at h'
  rw [before_iff] at *
  omega

end Position

/-- Whether a range covers a place. -/
def Range.covers (r : Range) (p : Position) : Bool := r.first.notAfter p && p.notAfter r.last

theorem Range.covers_eq_false_of_before {r : Range} {p : Position} (h : p.before r.first = true) :
    r.covers p = false := by
  rw [covers, Position.notAfter, h]
  rfl

theorem Range.covers_eq_false_of_after {r : Range} {p : Position} (h : r.last.before p = true) :
    r.covers p = false := by
  rw [covers, Position.notAfter, Position.notAfter, h]
  exact Bool.and_false _

/-! ## Windows -/

namespace Source

/-- What of a character is left outside of a window. -/
def blanked (c : Char) : Char := if c = '\n' then c else ' '

/-- A text that begins at a position, with everything but newlines blanked outside of a
range. -/
def windowFrom (r : Range) (p : Position) : List Char → List Char
  | [] => []
  | c :: rest => (if r.covers p then c else blanked c) :: windowFrom r (p.next c) rest

/-- A source text with everything but newlines blanked outside of a range. -/
def window (r : Range) (source : String) : String :=
  String.ofList (windowFrom r Position.origin source.toList)

theorem isGap_blanked (c : Char) : Text.isGap (blanked c) = true := by
  unfold blanked
  split
  next h =>
    subst h
    decide
  next => decide

theorem isGap_of_mem_map_blanked {text : List Char} :
    ∀ c ∈ text.map blanked, Text.isGap c = true := by
  intro c hc
  obtain ⟨d, -, rfl⟩ := List.mem_map.mp hc
  exact isGap_blanked d

theorem next_blanked (p : Position) (c : Char) : p.next (blanked c) = p.next c := by
  unfold blanked
  split
  · rfl
  next h =>
    rw [Position.next, Position.next, if_neg h, if_neg (by decide)]

theorem after_map_blanked (p : Position) (text : List Char) :
    p.after (text.map blanked) = p.after text := by
  induction text generalizing p with
  | nil => rfl
  | cons c text ih => rw [List.map_cons, Position.after_cons, Position.after_cons, next_blanked, ih]

variable {r : Range}

/-- Behind the range everything is blanked. -/
theorem windowFrom_of_last_before {p : Position} (text : List Char) (h : r.last.before p = true) :
    windowFrom r p text = text.map blanked := by
  induction text generalizing p with
  | nil => rfl
  | cons c text ih =>
    rw [windowFrom, Range.covers_eq_false_of_after h,
      ih (Position.before_trans h (Position.before_next p c))]
    rfl

/-- What leads up to the last place of the range is shown, the character there included. -/
theorem windowFrom_shown {p : Position} {middle : List Char} (c : Char) (back : List Char)
    (hfirst : r.first.notAfter p = true) (hlast : p.after middle = r.last) :
    windowFrom r p (middle ++ c :: back) = middle ++ c :: back.map blanked := by
  have hcovers : r.covers p = true := by
    rw [Range.covers, hfirst, ← hlast, Position.notAfter_after]
    rfl
  induction middle generalizing p with
  | nil =>
    obtain rfl : p = r.last := hlast
    rw [List.nil_append, windowFrom, hcovers, if_pos rfl,
      windowFrom_of_last_before back (Position.before_next _ c)]
    rfl
  | cons d middle ih =>
    have hnext : r.first.notAfter (p.next d) = true :=
      Position.notAfter_trans hfirst (Position.notAfter_after p [d])
    have hcovers' : r.covers (p.next d) = true := by
      rw [Range.covers, hnext, ← hlast, Position.after_cons, Position.notAfter_after]
      rfl
    rw [List.cons_append, windowFrom, hcovers, if_pos rfl, ih hnext hlast hcovers']
    rfl

/-- **A window on a text that is cut at the range.** -/
theorem windowFrom_split {p : Position} {front middle : List Char} (c : Char) (back : List Char)
    (hfirst : p.after front = r.first) (hlast : r.first.after middle = r.last) :
    windowFrom r p (front ++ (middle ++ c :: back)) =
      front.map blanked ++ (middle ++ c :: back.map blanked) := by
  induction front generalizing p with
  | nil =>
    obtain rfl : p = r.first := hfirst
    exact windowFrom_shown c back (Position.notAfter_after r.first []) hlast
  | cons d front ih =>
    have hbefore : p.before r.first = true := by
      rw [← hfirst]
      exact Position.before_after p d front
    rw [List.cons_append, windowFrom, Range.covers_eq_false_of_before hbefore, ih hfirst]
    rfl

end Source
end HangulScript
