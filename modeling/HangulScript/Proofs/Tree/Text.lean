import HangulScript.Proofs.Json.RoundTrip
import HangulScript.Proofs.Tree.Encoding
import HangulScript.Source.Lines

/-!
# The text of a tree

What is written for a tree is a JSON value in which no object names a member twice, so its text is
read back (`Node.ofText?_toText`); and no line of the text ends in a carriage return, so reading it
from a file changes nothing in it (`Node.withNewlines_toText`).  A tree therefore survives its
file, with the strings and the numbers that stand in it.
-/

namespace HangulScript

open Json (Unambiguous)

theorem Range.unambiguous_toJson (r : Range) : r.toJson.Unambiguous := by
  have hposition : ∀ p : Position, p.toJson.Unambiguous := fun p => by
    refine .array fun v hv => ?_
    simp only [List.mem_cons, List.not_mem_nil, or_false] at hv
    rcases hv with rfl | rfl <;> exact .integer _
  refine .array fun v hv => ?_
  simp only [List.mem_cons, List.not_mem_nil, or_false] at hv
  rcases hv with rfl | rfl <;> exact hposition _

namespace Node

/-- The object of a node names no member twice if its fields have names of their own. -/
theorem unambiguous_written (node : Node) {fields : List (String × Json)}
    (hnames : ("type" :: fields.map Prod.fst ++ ["range"]).Nodup)
    (h : ∀ m ∈ fields, m.2.Unambiguous) : (node.written fields).Unambiguous := by
  refine .object (by simpa using hnames) fun m hm => ?_
  rcases List.mem_append.mp hm with hm | hm
  · rcases List.mem_cons.mp hm with rfl | hm
    · exact .string _
    · exact h m hm
  · rw [List.mem_singleton.mp hm]
    exact node.range.unambiguous_toJson

mutual

/-- **What is written for a tree names no member twice.** -/
theorem unambiguous_toJson : ∀ n : Node, n.toJson.Unambiguous
  | .absent => .null
  | .program r ss => by
    rw [toJson]
    exact unambiguous_written _ (by simp) (by simpa using .array (unambiguous_toJsonAll ss))
  | .block r ss => by
    rw [toJson]
    exact unambiguous_written _ (by simp) (by simpa using .array (unambiguous_toJsonAll ss))
  | .expressionStatement r e => by
    rw [toJson]
    exact unambiguous_written _ (by simp) (by simpa using unambiguous_toJson e)
  | .returnStatement r e => by
    rw [toJson]
    exact unambiguous_written _ (by simp) (by simpa using unambiguous_toJson e)
  | .branch r p c a => by
    rw [toJson]
    exact unambiguous_written _ (by simp)
      (by simp [unambiguous_toJson p, unambiguous_toJson c, unambiguous_toJson a])
  | .number r x => by
    rw [toJson]
    exact unambiguous_written _ (by simp) (by simpa using .number x)
  | .boolean r b => by
    rw [toJson]
    exact unambiguous_written _ (by simp) (by simpa using .boolean b)
  | .string r text => by
    rw [toJson]
    exact unambiguous_written _ (by simp) (by simpa using .string text)
  | .identifier r name => by
    rw [toJson]
    exact unambiguous_written _ (by simp) (by simpa using .string name)
  | .unary r op e => by
    rw [toJson]
    exact unambiguous_written _ (by simp) (by simp [Unambiguous.string, unambiguous_toJson e])
  | .binary r op a b => by
    rw [toJson]
    exact unambiguous_written _ (by simp)
      (by simp [Unambiguous.string, unambiguous_toJson a, unambiguous_toJson b])
  | .assignment r a b => by
    rw [toJson]
    exact unambiguous_written _ (by simp) (by simp [unambiguous_toJson a, unambiguous_toJson b])
  | .function r ps b => by
    rw [toJson]
    exact unambiguous_written _ (by simp)
      (by simp [Unambiguous.array (unambiguous_toJsonAll ps), unambiguous_toJson b])
  | .call r f args => by
    rw [toJson]
    exact unambiguous_written _ (by simp)
      (by simp [Unambiguous.array (unambiguous_toJsonAll args), unambiguous_toJson f])

theorem unambiguous_toJsonAll : ∀ ns : List Node, ∀ v ∈ toJsonAll ns, v.Unambiguous
  | [] => fun _ hv => nomatch hv
  | n :: ns => by
    rw [toJsonAll]
    exact List.forall_mem_cons.mpr ⟨unambiguous_toJson n, unambiguous_toJsonAll ns⟩

end

/-- **A tree is read back from its text.** -/
theorem ofText?_toText (n : Node) : Json.ofText? n.toJson.toText = some n.toJson :=
  Json.ofText?_toText n.unambiguous_toJson

/-- Reading the text of a tree from a file leaves it as it is. -/
theorem withNewlines_toText (n : Node) : Source.withNewlines n.toJson.toText = n.toJson.toText :=
  Source.withNewlines_of_not_mem (Json.carriageReturn_not_mem_writtenAt 0 n.toJson)

end Node
end HangulScript
