import HangulScript.Tree.Encoding

/-!
# A tree is what its encoding says

Writing a tree and reading it back are two dispatches over the kinds of nodes, and neither
mentions the other.  What ties them together is the object of a node: its fields under their
names, between the kind and the range.  Whatever the kind, the object leads the reader to the
case of that kind with the range of the node (`ofJson_written`), and there each field is looked
up under the name it was written under (`lookup_membersOf`).

So nothing is lost, whatever stands in the place of a node, a list or a text.  Reading accepts
more than writing produces, and what it accepts is brought to one form: written again, it is
read as the same tree and does not change any more.
-/

namespace HangulScript

/-! ## Ranges -/

@[simp] theorem Node.rangeOf_toJson (r : Range) : rangeOf r.toJson = .ok r := rfl

namespace Node

/-! ## Members -/

/-- A member of an object with what it is as a node and as a list of nodes. -/
def memberOf (value : Json) : Member := ⟨value, ofJson value, nodesOf value⟩

/-- Reading all members of an object does not change which of them has a name. -/
theorem lookup_membersOf (members : List (String × Json)) (name : String) :
    (membersOf members).lookup name = (members.lookup name).map memberOf := by
  induction members with
  | nil => rfl
  | cons m rest ih =>
    obtain ⟨other, value⟩ := m
    rw [membersOf, List.lookup_cons, List.lookup_cons, ih]
    split <;> rfl

/-- The members of the object that is written for a node with some fields. -/
def writtenMembers (node : Node) (fields : List (String × Json)) : List (String × Json) :=
  ("type", .string node.kindName) :: fields ++ [("range", node.range.toJson)]

theorem lookup_range_writtenMembers (node : Node) {fields : List (String × Json)}
    (h : fields.lookup "range" = none) :
    (writtenMembers node fields).lookup "range" = some node.range.toJson := by
  rw [writtenMembers, List.cons_append, List.lookup_cons, List.lookup_append, h]
  rfl

/-- **The object of a node is read in the case of its kind**, with its range. -/
theorem ofJson_written (node : Node) {fields : List (String × Json)}
    (h : fields.lookup "range" = none) :
    ofJson (node.written fields) =
      (ofKind? node.range (membersOf (writtenMembers node fields)) node.kindName).getD
        (.error (.unknownKind node.kindName)) := by
  have hrange := lookup_range_writtenMembers node h
  have htype : (writtenMembers node fields).lookup "type" = some (.string node.kindName) := rfl
  show ofMembers (membersOf (writtenMembers node fields)) = _
  generalize writtenMembers node fields = members at hrange htype
  simp only [ofMembers, Members.get, lookup_membersOf, hrange, htype, Option.map_some, bind,
    Except.bind, memberOf, rangeOf_toJson]
  cases ofKind? node.range (membersOf members) node.kindName <;> rfl

/-! ## Fields -/

section Fields

variable {members : List (String × Json)} {name : String} {value : Json}

theorem get_membersOf (h : members.lookup name = some value) :
    Members.get (membersOf members) name = .ok (memberOf value) := by
  rw [Members.get, lookup_membersOf, h]
  rfl

theorem node_membersOf (h : members.lookup name = some value) :
    Members.node (membersOf members) name = ofJson value := by
  rw [Members.node, get_membersOf h]
  rfl

theorem nodeIfAny_membersOf (h : members.lookup name = some value) :
    Members.nodeIfAny (membersOf members) name = ofJson value := by
  rw [Members.nodeIfAny, lookup_membersOf, h]
  rfl

theorem nodes_membersOf {elements : List Json} (h : members.lookup name = some (.array elements)) :
    Members.nodes (membersOf members) name = ofJsonAll elements := by
  rw [Members.nodes, get_membersOf h]
  show nodesOf (.array elements) = _
  rw [nodesOf]

theorem text_membersOf {text : String} (h : members.lookup name = some (.string text)) :
    Members.text (membersOf members) name = .ok text := by
  rw [Members.text, get_membersOf h]
  rfl

theorem truth_membersOf (h : members.lookup name = some value) :
    Members.truth (membersOf members) name = .ok value.truth := by
  rw [Members.truth, get_membersOf h]
  rfl

end Fields

/-! ## Every kind -/

mutual

/-- **Reading undoes writing**, whatever stands in the places of a tree. -/
theorem ofJson_toJson : ∀ n : Node, ofJson n.toJson = .ok n
  | .absent => by rw [toJson, ofJson]
  | .program r ss => by
    rw [toJson, ofJson_written _ rfl, kindName, ofKind?, nodes_membersOf rfl,
      ofJsonAll_toJsonAll ss]
    rfl
  | .block r ss => by
    rw [toJson, ofJson_written _ rfl, kindName, ofKind?, nodes_membersOf rfl,
      ofJsonAll_toJsonAll ss]
    rfl
  | .expressionStatement r e => by
    rw [toJson, ofJson_written _ rfl, kindName, ofKind?, node_membersOf rfl, ofJson_toJson e]
    rfl
  | .returnStatement r e => by
    rw [toJson, ofJson_written _ rfl, kindName, ofKind?, node_membersOf rfl, ofJson_toJson e]
    rfl
  | .branch r p c a => by
    rw [toJson, ofJson_written _ rfl, kindName, ofKind?, node_membersOf rfl, node_membersOf rfl,
      nodeIfAny_membersOf rfl, ofJson_toJson p, ofJson_toJson c, ofJson_toJson a]
    rfl
  | .number r x => by
    rw [toJson, ofJson_written _ rfl, kindName, ofKind?, get_membersOf rfl]
    rfl
  | .boolean r b => by
    rw [toJson, ofJson_written _ rfl, kindName, ofKind?, truth_membersOf rfl]
    rfl
  | .string r text => by
    rw [toJson, ofJson_written _ rfl, kindName, ofKind?, text_membersOf rfl]
    rfl
  | .identifier r name => by
    rw [toJson, ofJson_written _ rfl, kindName, ofKind?, text_membersOf rfl]
    rfl
  | .unary r op e => by
    rw [toJson, ofJson_written _ rfl, kindName, ofKind?, text_membersOf rfl, node_membersOf rfl,
      ofJson_toJson e]
    rfl
  | .binary r op a b => by
    rw [toJson, ofJson_written _ rfl, kindName, ofKind?, text_membersOf rfl, node_membersOf rfl,
      node_membersOf rfl, ofJson_toJson a, ofJson_toJson b]
    rfl
  | .assignment r a b => by
    rw [toJson, ofJson_written _ rfl, kindName, ofKind?, node_membersOf rfl, node_membersOf rfl,
      ofJson_toJson a, ofJson_toJson b]
    rfl
  | .function r ps b => by
    rw [toJson, ofJson_written _ rfl, kindName, ofKind?, nodes_membersOf rfl, node_membersOf rfl,
      ofJsonAll_toJsonAll ps, ofJson_toJson b]
    rfl
  | .call r f args => by
    rw [toJson, ofJson_written _ rfl, kindName, ofKind?, node_membersOf rfl, nodes_membersOf rfl,
      ofJson_toJson f, ofJsonAll_toJsonAll args]
    rfl

/-- Reading undoes writing for lists of trees. -/
theorem ofJsonAll_toJsonAll : ∀ ns : List Node, ofJsonAll (toJsonAll ns) = .ok ns
  | [] => by rw [toJsonAll, ofJsonAll]
  | n :: ns => by
    rw [toJsonAll, ofJsonAll, ofJson_toJson n, ofJsonAll_toJsonAll ns]
    rfl

end

/-! ## One form for every tree -/

/-- A JSON value that is a tree, with the tree written again. -/
def normalized (value : Json) : Except EncodingError Json := (ofJson value).map toJson

theorem normalized_of_ofJson {value : Json} {n : Node} (h : ofJson value = .ok n) :
    normalized value = .ok n.toJson := by
  rw [normalized, h]
  rfl

/-- **Encoding a tree loses nothing.**  Every tree is read back from what is written for it, with
absent nodes, lists, ranges, numbers and texts as they were.  And every JSON value that is read
as a tree has a normal form, namely what is written for that tree: the normal form is read as the
same tree and is its own normal form. -/
theorem encoding_loses_nothing :
    (∀ n : Node, ofJson n.toJson = .ok n) ∧
    ∀ (value : Json) (n : Node), ofJson value = .ok n →
      ∃ normal, normalized value = .ok normal ∧ ofJson normal = .ok n ∧
        normalized normal = .ok normal := by
  refine ⟨ofJson_toJson, fun value n h => ⟨n.toJson, normalized_of_ofJson h, ofJson_toJson n, ?_⟩⟩
  exact normalized_of_ofJson (ofJson_toJson n)

/-- A branch whose alternative is missing, with a number given as a truth value, a member that
belongs to no field, and the range in front. -/
theorem encoding_loses_nothing_branch :
    let place := (Range.point ⟨-1, 7⟩).toJson
    let number := Json.object [("range", place), ("value", .boolean false),
      ("type", .string "NumberLiteral"), ("note", .null)]
    let value := Json.object [("range", place), ("type", .string "Branch"), ("predicate", number),
      ("consequence", .null)]
    let tree := Node.branch (Range.point ⟨-1, 7⟩) (.number (Range.point ⟨-1, 7⟩) .zero) .absent
      .absent
    ofJson value = .ok tree ∧ ∃ normal, normalized value = .ok normal ∧ ofJson normal = .ok tree ∧
      normalized normal = .ok normal := by
  intro place number value tree
  have hread : ofJson value = .ok tree := rfl
  exact ⟨hread, encoding_loses_nothing.2 value tree hread⟩

end Node
end HangulScript
