import HangulScript.Json.Shown
import HangulScript.Number.Numeral
import HangulScript.Token.Basic
import HangulScript.Tree.Basic

/-!
# Trees as JSON

A node is written as an object: its kind under `type`, its fields under their names,
and its range, two pairs of row and column, last.  The absent node is `null`.

Reading goes the other way and accepts more than writing produces.  Members that do
not belong to a kind are ignored; the alternative of a branch may be missing; the
value of a number may be any number, a truth value, or a numeral in a string; and the
value of a boolean may be anything, for everything counts as true or false.

Two things are refused that a reader could also pass over: a text that is no string, and a row or
a column that is no integer.  They would make trees that are none, with names that are numbers or
ranges between no positions, and nothing that is said of trees would be about them.

## Which error is reported

An object can be wrong in several ways at once.  Its range is looked at first, then
its kind, then the fields in the order in which they are written, each of them
completely before the next.  Reading the members of an object is a pure function of
each, though, so `members` reads every member in every way a field might need it, and
the order is decided where the fields are put together.  That keeps the recursion on
the JSON value itself.
-/

namespace HangulScript

/-- Why a JSON value is no tree. -/
inductive EncodingError where
  /-- A value that is neither an object nor `null`. -/
  | notAnObject
  /-- An object without a member that it needs. -/
  | missingField (name : String)
  /-- Something with more or fewer than two parts where a pair is needed. -/
  | notAPair
  /-- Something without parts where parts are needed. -/
  | noItems
  /-- A row or column that is no integer: one of the two errors that are found here and not left
  to whoever uses the tree. -/
  | notAnInteger
  /-- A kind that no node has. -/
  | unknownKind (shown : String)
  /-- A text that is no numeral where a number is needed. -/
  | notANumeral
  /-- An integer beyond all numbers of the language. -/
  | numberTooLarge
  /-- Something that cannot stand for a number. -/
  | notANumber
  /-- Something else than a string where a text is needed: the other one of them. -/
  | notAText
  deriving DecidableEq

namespace EncodingError

/-- The class of an error. -/
def className : EncodingError → String
  | notAnObject | noItems | notAnInteger | notANumber | notAText => "TypeError"
  | missingField _ => "KeyError"
  | notAPair | unknownKind _ | notANumeral => "ValueError"
  | numberTooLarge => "OverflowError"

/-- The message of an error, where reading a tree composes it.  The others, about things taken
apart or turned into numbers, come from the host that the language runs on; it words them itself,
and they are left out. -/
def message? : EncodingError → Option String
  | notAnObject => some "Invalid AST object"
  | missingField name => some name
  | unknownKind shown => some ("Unknown AST node type: " ++ shown)
  | _ => none

end EncodingError

namespace Position

/-- A position as a pair. -/
def toJson (p : Position) : Json := .array [.integer p.row, .integer p.column]

end Position

namespace Range

/-- A range as two pairs. -/
def toJson (r : Range) : Json := .array [r.first.toJson, r.last.toJson]

end Range

namespace Node

/-! ## Writing -/

/-- An object for a node: its kind, its fields, and its range. -/
def written (node : Node) (fields : List (String × Json)) : Json :=
  .object (("type", .string node.kindName) :: fields ++ [("range", node.range.toJson)])

mutual

/-- A node as JSON. -/
def toJson : Node → Json
  | absent => .null
  | program r ss => written (.program r []) [("statements", .array (toJsonAll ss))]
  | block r ss => written (.block r []) [("statements", .array (toJsonAll ss))]
  | expressionStatement r e => written (.expressionStatement r .absent) [("expression", toJson e)]
  | returnStatement r e => written (.returnStatement r .absent) [("expression", toJson e)]
  | branch r p c a =>
    written (.branch r .absent .absent .absent)
      [("predicate", toJson p), ("consequence", toJson c), ("alternative", toJson a)]
  | number r v => written (.number r v) [("value", .number v)]
  | boolean r v => written (.boolean r v) [("value", .boolean v)]
  | string r v => written (.string r v) [("value", .string v)]
  | identifier r n => written (.identifier r n) [("name", .string n)]
  | unary r op e => written (.unary r op .absent) [("op", .string op), ("operand", toJson e)]
  | binary r op a b =>
    written (.binary r op .absent .absent)
      [("op", .string op), ("left", toJson a), ("right", toJson b)]
  | assignment r a b =>
    written (.assignment r .absent .absent) [("left", toJson a), ("right", toJson b)]
  | function r ps b =>
    written (.function r [] .absent) [("params", .array (toJsonAll ps)), ("body", toJson b)]
  | call r f args =>
    written (.call r .absent []) [("func", toJson f), ("args", .array (toJsonAll args))]

/-- Nodes as a list of JSON values. -/
def toJsonAll : List Node → List Json
  | [] => []
  | n :: ns => toJson n :: toJsonAll ns

end

/-! ## Reading -/

/-- A value with what it is as a node and as a list of nodes. -/
structure Member where
  value : Json
  node : Except EncodingError Node
  nodes : Except EncodingError (List Node)

/-- The members of an object, by name. -/
abbrev Members := List (String × Member)

namespace Members

/-- A member that an object must have. -/
def get (members : Members) (name : String) : Except EncodingError Member :=
  match members.lookup name with
  | some m => .ok m
  | none => .error (.missingField name)

/-- A field that holds a node. -/
def node (members : Members) (name : String) : Except EncodingError Node := do
  (← members.get name).node

/-- A field that holds a node or is missing. -/
def nodeIfAny (members : Members) (name : String) : Except EncodingError Node :=
  match members.lookup name with
  | some m => m.node
  | none => .ok .absent

/-- A field that holds a list of nodes. -/
def nodes (members : Members) (name : String) : Except EncodingError (List Node) := do
  (← members.get name).nodes

/-- A field that holds a text.  Anything else is refused here already, so that the texts of a tree
are texts; a reader that does not look would let it through, into a tree that none of the rules
are about. -/
def text (members : Members) (name : String) : Except EncodingError String := do
  match (← members.get name).value with
  | .string value => .ok value
  | _ => .error .notAText

/-- A field that holds a truth value. -/
def truth (members : Members) (name : String) : Except EncodingError Bool := do
  return (← members.get name).value.truth

end Members

/-- The number that a JSON value stands for. -/
def numberOf : Json → Except EncodingError Double
  | .integer n =>
    match Double.ofInt? n with
    | some value => .ok value
    | none => .error .numberTooLarge
  | .number value => .ok value
  | .boolean value => .ok (if value then .one else .zero)
  | .string text =>
    match Numeral.value? text.toList with
    | some value => .ok value
    | none => .error .notANumeral
  | .null | .array _ | .object _ => .error .notANumber

/-- The two parts of a pair. -/
def pairOf (value : Json) : Except EncodingError (Json × Json) :=
  match value.items? with
  | some [a, b] => .ok (a, b)
  | some _ => .error .notAPair
  | none => .error .noItems

/-- A row or a column.  It has to be an integer, so that the ends of a range are positions; a
reader that does not look at coordinates would let a fraction, a truth value or a text through. -/
def coordinateOf : Json → Except EncodingError Int
  | .integer n => .ok n
  | _ => .error .notAnInteger

/-- A range: two pairs, taken apart from the outside and from left to right. -/
def rangeOf (value : Json) : Except EncodingError Range := do
  let (first, last) ← pairOf value
  let (firstRow, firstColumn) ← pairOf first
  let (lastRow, lastColumn) ← pairOf last
  return ⟨⟨← coordinateOf firstRow, ← coordinateOf firstColumn⟩,
    ⟨← coordinateOf lastRow, ← coordinateOf lastColumn⟩⟩

/-- A node of a kind, from its range and the members of its object. -/
def ofKind? (range : Range) (members : Members) : String → Option (Except EncodingError Node)
  | "Program" => some do return .program range (← members.nodes "statements")
  | "ExpressionStatement" =>
    some do return .expressionStatement range (← members.node "expression")
  | "Return" => some do return .returnStatement range (← members.node "expression")
  | "Branch" => some do
    let predicate ← members.node "predicate"
    let consequence ← members.node "consequence"
    let alternative ← members.nodeIfAny "alternative"
    return .branch range predicate consequence alternative
  | "Block" => some do return .block range (← members.nodes "statements")
  | "NumberLiteral" => some do
    return .number range (← numberOf (← members.get "value").value)
  | "BooleanLiteral" => some do return .boolean range (← members.truth "value")
  | "StringLiteral" => some do return .string range (← members.text "value")
  | "Identifier" => some do return .identifier range (← members.text "name")
  | "Prefix" => some do
    let op ← members.text "op"
    let operand ← members.node "operand"
    return .unary range op operand
  | "Infix" => some do
    let op ← members.text "op"
    let left ← members.node "left"
    let right ← members.node "right"
    return .binary range op left right
  | "Assignment" => some do
    let left ← members.node "left"
    let right ← members.node "right"
    return .assignment range left right
  | "Function" => some do
    let params ← members.nodes "params"
    let body ← members.node "body"
    return .function range params body
  | "Call" => some do
    let callee ← members.node "func"
    let args ← members.nodes "args"
    return .call range callee args
  | _ => none

/-- A node from the members of its object. -/
def ofMembers (members : Members) : Except EncodingError Node := do
  let range ← rangeOf (← members.get "range").value
  let kind := (members.lookup "type").map Member.value
  match kind with
  | some (.string name) =>
    match ofKind? range members name with
    | some node => node
    | none => .error (.unknownKind name)
  | some other => .error (.unknownKind other.shown)
  | none => .error (.unknownKind Json.null.shown)

mutual

/-- The node that a JSON value is. -/
def ofJson : Json → Except EncodingError Node
  | .null => .ok .absent
  | .object members => ofMembers (membersOf members)
  | _ => .error .notAnObject

/-- The nodes that the elements of an array are. -/
def ofJsonAll : List Json → Except EncodingError (List Node)
  | [] => .ok []
  | value :: rest => do
    let node ← ofJson value
    let nodes ← ofJsonAll rest
    return node :: nodes

/-- The nodes that the parts of a value are.  The parts of a string or an object are
strings and hence no nodes; without parts, there is nothing wrong with them. -/
def nodesOf : Json → Except EncodingError (List Node)
  | .array elements => ofJsonAll elements
  | .string value => if value = "" then .ok [] else .error .notAnObject
  | .object members => if members.isEmpty then .ok [] else .error .notAnObject
  | _ => .error .noItems

/-- The members of an object, each with what it is as a node and as a list of
nodes. -/
def membersOf : List (String × Json) → Members
  | [] => []
  | (name, value) :: rest => (name, ⟨value, ofJson value, nodesOf value⟩) :: membersOf rest

end

end Node

/-! ## What is not a tree -/

/-- The things of the language that a caller may ask to have written as a tree. -/
inductive Item where
  | node (value : Node)
  | position (value : Position)
  | range (value : Range)
  | token (value : Token)
  | emptyValue (range : Range)

namespace Item

/-- The name of what an item is, in the message that refuses it. -/
def label : Item → String
  | node value => value.kindName
  | position _ => "Position"
  | range _ => "Range"
  | token _ => "Token"
  | emptyValue _ => "EmptyValue"

/-- An item as JSON, or the message that it is no node. -/
def toJson : Item → Except String Json
  | node value => .ok value.toJson
  | item => .error ("Unsupported node for serialization: " ++ item.label)

end Item
end HangulScript
