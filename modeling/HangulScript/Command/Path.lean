import HangulScript.Text.Split

/-!
# Paths

A path is steps with slashes between them.  An empty step and a single dot lead
nowhere, so they are left out, and the path that is left is the *plain* form in which
the command looks for files and speaks of them.  A path that leads nowhere at all is
the single dot.

A path that begins with a slash begins at the root.  Exactly two slashes in front are
a root of their own and stay two; three and more are one.
-/

namespace HangulScript
namespace Command

/-- The steps of a path, without those that lead nowhere. -/
def steps (path : List Char) : List (List Char) :=
  (Text.split '/' path).filter fun s => s != [] && s != ['.']

/-- The root that a path begins at; nothing if it begins where the reader is. -/
def rootOf (path : List Char) : List Char :=
  match (path.takeWhile (· == '/')).length with
  | 0 => []
  | 2 => ['/', '/']
  | _ => ['/']

/-- The plain form of a path. -/
def plainPath (path : String) : String :=
  let joined := rootOf path.toList ++ ['/'].intercalate (steps path.toList)
  if joined = [] then "." else String.ofList joined

/-- A path of one proper step is plain. -/
theorem plainPath_eq_self {path : String} (h : '/' ∉ path.toList) (hne : path.toList ≠ [])
    (hdot : path.toList ≠ ['.']) : plainPath path = path := by
  have hsplit : Text.split '/' path.toList = [path.toList] := by
    generalize path.toList = text at h
    induction text with
    | nil => rfl
    | cons c rest ih =>
      simp only [List.mem_cons, not_or] at h
      rw [Text.split, if_neg (fun e => h.1 e.symm), ih h.2]
  have hsteps : steps path.toList = [path.toList] := by
    simp [steps, hsplit, hne, hdot]
  have hroot : rootOf path.toList = [] := by
    cases ht : path.toList with
    | nil => rfl
    | cons c rest =>
      have hc : c ≠ '/' := fun e => h (by simp [ht, e])
      simp [rootOf, hc]
  simp [plainPath, hsteps, hroot, hne, List.intercalate]

end Command
end HangulScript
