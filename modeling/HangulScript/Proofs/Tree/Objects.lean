import HangulScript.Proofs.Tree.Encoding

/-!
# The objects of a tree

A JSON value is a tree if it is `null`, or an object with a range, a type and the fields of that
type.  Which fields these are, in which order they are read and what each of them has to hold is
one table (`fieldsOf?`), and all else is said with it: which values are trees (`Accepted`), what
is the first thing that is wrong with one that is none (`FirstDefect`), and when two values say
the same to a reader (`Agrees`).

The reader has a case for every type, and looks its fields up one by one.  That this is reading
the fields of the table in their order and putting together what they hold is `ofKind?_eq`; the
cases are gone through there and nowhere else.

## Items

The reader takes a pair apart, and goes through a list, by the items of a value.  A string has
items as well, its characters, and so has an object, its names.  So a malformed range is one
without two items somewhere (`RangeDefect`); and two pairs of integers can only be arrays.  Lists
of nodes are asked to be arrays or to have no items at all (`IsPlain`), for the items of a string
or an object, if it has any, are no objects.
-/

namespace HangulScript
namespace Node

/-! ## Fields -/

/-- What a field holds. -/
inductive FieldSort where
  | node
  /-- A node, or nothing if the field is missing. -/
  | nodeIfAny
  | nodes
  | text
  | number
  | truth
  deriving DecidableEq

/-- The fields of a type, in the order in which they are read. -/
def fieldsOf? : String → Option (List (String × FieldSort))
  | "Program" => some [("statements", .nodes)]
  | "ExpressionStatement" => some [("expression", .node)]
  | "Return" => some [("expression", .node)]
  | "Branch" =>
    some [("predicate", .node), ("consequence", .node), ("alternative", .nodeIfAny)]
  | "Block" => some [("statements", .nodes)]
  | "NumberLiteral" => some [("value", .number)]
  | "BooleanLiteral" => some [("value", .truth)]
  | "StringLiteral" => some [("value", .text)]
  | "Identifier" => some [("name", .text)]
  | "Prefix" => some [("op", .text), ("operand", .node)]
  | "Infix" => some [("op", .text), ("left", .node), ("right", .node)]
  | "Assignment" => some [("left", .node), ("right", .node)]
  | "Function" => some [("params", .nodes), ("body", .node)]
  | "Call" => some [("func", .node), ("args", .nodes)]
  | _ => none

/-- The type of an object and the fields that belong to it. -/
def OfType (members : List (String × Json)) (kind : String)
    (fields : List (String × FieldSort)) : Prop :=
  members.lookup "type" = some (.string kind) ∧ fieldsOf? kind = some fields

/-- An object has one type. -/
theorem OfType.unique {members : List (String × Json)} {kind kind' : String}
    {fields fields' : List (String × FieldSort)} (h : OfType members kind fields)
    (h' : OfType members kind' fields') : kind = kind' ∧ fields = fields' := by
  obtain ⟨htype, hfields⟩ := h
  obtain ⟨htype', hfields'⟩ := h'
  rw [htype] at htype'
  obtain rfl := Json.string.inj (Option.some.inj htype')
  rw [hfields] at hfields'
  exact ⟨rfl, Option.some.inj hfields'⟩

/-! ## What is a tree -/

/-- Two pairs of integers. -/
def IsRange (value : Json) : Prop :=
  ∃ a b c d : Int, value = .array [.array [.integer a, .integer b], .array [.integer c, .integer d]]

/-- What can stand for a number: one of the language, an integer that is not too large, a truth
value, or a numeral. -/
inductive IsNumber : Json → Prop
  | integer {n : Int} : (Double.ofInt? n).isSome = true → IsNumber (.integer n)
  | number (value : Double) : IsNumber (.number value)
  | boolean (value : Bool) : IsNumber (.boolean value)
  | numeral {text : String} : (Numeral.value? text.toList).isSome = true →
      IsNumber (.string text)

mutual

/-- A value is a tree: it is `null`, or an object with a range, a type and all fields of that
type. -/
inductive Accepted : Json → Prop
  | null : Accepted .null
  | object {members : List (String × Json)} {place : Json} {kind : String}
      {fields : List (String × FieldSort)} : members.lookup "range" = some place →
      IsRange place → OfType members kind fields →
      (∀ f ∈ fields, Holds f.2 (members.lookup f.1)) → Accepted (.object members)

/-- A field holds what it should. -/
inductive Holds : FieldSort → Option Json → Prop
  | node {value : Json} : Accepted value → Holds .node (some value)
  | nodeIfAny {value : Json} : Accepted value → Holds .nodeIfAny (some value)
  | missing : Holds .nodeIfAny none
  | nodes {elements : List Json} : (∀ value ∈ elements, Accepted value) →
      Holds .nodes (some (.array elements))
  | text (text : String) : Holds .text (some (.string text))
  | number {value : Json} : IsNumber value → Holds .number (some value)
  | truth (value : Json) : Holds .truth (some value)

end

/-! ## What is wrong first -/

/-- Why a value is no pair. -/
inductive PairDefect : Json → EncodingError → Prop
  | count {value : Json} {items : List Json} : value.items? = some items → items.length ≠ 2 →
      PairDefect value .notAPair
  | noItems {value : Json} : value.items? = none → PairDefect value .noItems

/-- Why a value is no range: it is no pair itself, or its first part is none, or its second. -/
inductive RangeDefect : Json → EncodingError → Prop
  | whole {place : Json} {e : EncodingError} : PairDefect place e → RangeDefect place e
  | first {place a b : Json} {e : EncodingError} : place.items? = some [a, b] → PairDefect a e →
      RangeDefect place e
  | last {place a b row column : Json} {e : EncodingError} : place.items? = some [a, b] →
      a.items? = some [row, column] → PairDefect b e → RangeDefect place e

/-- Why a value cannot stand for a number. -/
inductive NumberDefect : Json → EncodingError → Prop
  | tooLarge {n : Int} : Double.ofInt? n = none → NumberDefect (.integer n) .numberTooLarge
  | noNumeral {text : String} : Numeral.value? text.toList = none →
      NumberDefect (.string text) .notANumeral
  | null : NumberDefect .null .notANumber
  | array (elements : List Json) : NumberDefect (.array elements) .notANumber
  | object (members : List (String × Json)) : NumberDefect (.object members) .notANumber

mutual

/-- What is wrong first with a value: it is no object; or the range is missing or malformed; or
the type is not one of a node; or a field is defective, and those before it hold what they
should. -/
inductive FirstDefect : Json → EncodingError → Prop
  | notAnObject {value : Json} : value ≠ .null → (∀ members, value ≠ .object members) →
      FirstDefect value .notAnObject
  | noRange {members : List (String × Json)} : members.lookup "range" = none →
      FirstDefect (.object members) (.missingField "range")
  | range {members : List (String × Json)} {place : Json} {e : EncodingError} :
      members.lookup "range" = some place → RangeDefect place e → FirstDefect (.object members) e
  | kind {members : List (String × Json)} {place : Json} : members.lookup "range" = some place →
      IsRange place → (∀ kind fields, ¬ OfType members kind fields) →
      FirstDefect (.object members) (.unknownKind ((members.lookup "type").getD .null).shown)
  | field {members : List (String × Json)} {place : Json} {kind name : String} {sort : FieldSort}
      {before after : List (String × FieldSort)} {e : EncodingError} :
      members.lookup "range" = some place → IsRange place →
      OfType members kind (before ++ (name, sort) :: after) →
      (∀ f ∈ before, Holds f.2 (members.lookup f.1)) →
      FieldDefect name sort (members.lookup name) e → FirstDefect (.object members) e

/-- What is wrong first with a field: it is missing; or the node it holds is defective; or the
list it holds has no elements to go through, or a defective one behind trees; or there is no
number in it. -/
inductive FieldDefect : String → FieldSort → Option Json → EncodingError → Prop
  | missing {name : String} {sort : FieldSort} : sort ≠ .nodeIfAny →
      FieldDefect name sort none (.missingField name)
  | node {name : String} {value : Json} {e : EncodingError} : FirstDefect value e →
      FieldDefect name .node (some value) e
  | nodeIfAny {name : String} {value : Json} {e : EncodingError} : FirstDefect value e →
      FieldDefect name .nodeIfAny (some value) e
  | noItems {name : String} {value : Json} : value.items? = none →
      FieldDefect name .nodes (some value) .noItems
  | element {name : String} {before after : List Json} {value : Json} {e : EncodingError} :
      (∀ earlier ∈ before, Accepted earlier) → FirstDefect value e →
      FieldDefect name .nodes (some (.array (before ++ value :: after))) e
  | number {name : String} {value : Json} {e : EncodingError} : NumberDefect value e →
      FieldDefect name .number (some value) e

end

/-! ## Which values are considered -/

/-- If a value is two pairs, these are of integers. -/
def HasIntegers (place : Json) : Prop :=
  ∀ first last a b c d : Json, place.items? = some [first, last] → first.items? = some [a, b] →
    last.items? = some [c, d] → ∀ entry ∈ [a, b, c, d], ∃ n : Int, entry = .integer n

mutual

/-- Rows and columns are integers, lists are arrays or have no items, and texts are strings; and
so on in all nodes. -/
inductive IsPlain : Json → Prop
  | other {value : Json} : (∀ members, value ≠ .object members) → IsPlain value
  | object {members : List (String × Json)} :
      (∀ place, members.lookup "range" = some place → HasIntegers place) →
      (∀ kind fields, OfType members kind fields → ∀ f ∈ fields, ∀ value,
        members.lookup f.1 = some value → IsPlainField f.2 value) → IsPlain (.object members)

/-- What a field holds is plain. -/
inductive IsPlainField : FieldSort → Json → Prop
  | node {value : Json} : IsPlain value → IsPlainField .node value
  | nodeIfAny {value : Json} : IsPlain value → IsPlainField .nodeIfAny value
  | nodes {elements : List Json} : (∀ value ∈ elements, IsPlain value) →
      IsPlainField .nodes (.array elements)
  | noItems {value : Json} : value.items? = none → IsPlainField .nodes value
  | text (text : String) : IsPlainField .text (.string text)
  | number (value : Json) : IsPlainField .number value
  | truth (value : Json) : IsPlainField .truth value

end

/-! ## What makes no difference -/

mutual

/-- Two values agree: they are the same, or two objects with the same range and type whose fields
of that type agree.  All other members are left out of account, in the nodes as well. -/
inductive Agrees : Json → Json → Prop
  | same (value : Json) : Agrees value value
  | object {members members' : List (String × Json)} :
      members.lookup "range" = members'.lookup "range" →
      members.lookup "type" = members'.lookup "type" →
      (∀ kind fields, OfType members kind fields → ∀ f ∈ fields,
        FieldAgrees f.2 (members.lookup f.1) (members'.lookup f.1)) →
      Agrees (.object members) (.object members')

/-- Two fields agree. -/
inductive FieldAgrees : FieldSort → Option Json → Option Json → Prop
  | same (sort : FieldSort) (field : Option Json) : FieldAgrees sort field field
  | node {value value' : Json} : Agrees value value' → FieldAgrees .node (some value) (some value')
  | nodeIfAny {value value' : Json} : Agrees value value' →
      FieldAgrees .nodeIfAny (some value) (some value')
  | nodes {elements elements' : List Json} : AllAgree elements elements' →
      FieldAgrees .nodes (some (.array elements)) (some (.array elements'))

/-- Two lists have elements that agree. -/
inductive AllAgree : List Json → List Json → Prop
  | nil : AllAgree [] []
  | cons {value value' : Json} {rest rest' : List Json} : Agrees value value' →
      AllAgree rest rest' → AllAgree (value :: rest) (value' :: rest')

end

/-! ## Reading by the table -/

/-- What is read from a field. -/
inductive FieldValue where
  | node (value : Node)
  | nodes (value : List Node)
  | text (value : String)
  | number (value : Double)
  | truth (value : Bool)

/-- A field as it is read. -/
def readField : String × FieldSort → Option Json → Except EncodingError FieldValue
  | (_, .nodeIfAny), none => .ok (.node .absent)
  | (name, _), none => .error (.missingField name)
  | (_, .node), some value | (_, .nodeIfAny), some value => (ofJson value).map .node
  | (_, .nodes), some value => (nodesOf value).map .nodes
  | (_, .text), some (.string text) => .ok (.text text)
  | (_, .text), some _ => .error .notAText
  | (_, .number), some value => (numberOf value).map .number
  | (_, .truth), some value => .ok (.truth value.truth)

/-- A field as the reader looks it up among members that are read already. -/
def Members.read (members : Members) : String × FieldSort → Except EncodingError FieldValue
  | (name, .node) => (members.node name).map .node
  | (name, .nodeIfAny) => (members.nodeIfAny name).map .node
  | (name, .nodes) => (members.nodes name).map .nodes
  | (name, .text) => (members.text name).map .text
  | (name, .number) => (members.get name >>= fun m => numberOf m.value).map .number
  | (name, .truth) => (members.truth name).map .truth

/-- The node of a type with what its fields hold.  Fields of other sorts than in the table are
never put together. -/
def assemble (range : Range) : String → List FieldValue → Node
  | "Program", [.nodes inner] => .program range inner
  | "ExpressionStatement", [.node e] => .expressionStatement range e
  | "Return", [.node e] => .returnStatement range e
  | "Branch", [.node p, .node c, .node a] => .branch range p c a
  | "Block", [.nodes inner] => .block range inner
  | "NumberLiteral", [.number x] => .number range x
  | "BooleanLiteral", [.truth b] => .boolean range b
  | "StringLiteral", [.text t] => .string range t
  | "Identifier", [.text t] => .identifier range t
  | "Prefix", [.text op, .node e] => .unary range op e
  | "Infix", [.text op, .node a, .node b] => .binary range op a b
  | "Assignment", [.node a, .node b] => .assignment range a b
  | "Function", [.nodes ps, .node b] => .function range ps b
  | "Call", [.node f, .nodes args] => .call range f args
  | _, _ => .absent

/-- What the reader looks up depends on the member of that name only. -/
theorem read_membersOf (members : List (String × Json)) (f : String × FieldSort) :
    Members.read (membersOf members) f = readField f (members.lookup f.1) := by
  obtain ⟨name, sort⟩ := f
  cases h : members.lookup name with
  | none =>
    cases sort <;>
      simp only [Members.read, Members.node, Members.nodeIfAny, Members.nodes, Members.text,
        Members.truth, Members.get, lookup_membersOf, h, Option.map_none] <;> rfl
  | some value =>
    cases sort with
    | text => cases value <;> simp only [Members.read, Members.text, get_membersOf h] <;> rfl
    | nodeIfAny =>
      rw [Members.read, nodeIfAny_membersOf h]
      rfl
    | _ =>
      simp only [Members.read, Members.node, Members.nodes, Members.truth, get_membersOf h]
      rfl

/-- **Every type is read by its fields**: in their order, each of them completely before the
next, and then put together. -/
theorem ofKind?_eq (range : Range) (members : Members) (kind : String) :
    ofKind? range members kind = (fieldsOf? kind).map fun fields =>
      (fields.mapM members.read).map (assemble range kind) := by
  unfold ofKind?
  split <;> simp only [fieldsOf?, Option.map_some, List.mapM_cons, List.mapM_nil, Members.read]
  case h_1 | h_5 => cases members.nodes "statements" <;> rfl
  case h_2 | h_3 => cases members.node "expression" <;> rfl
  case h_4 =>
    cases members.node "predicate" <;> cases members.node "consequence" <;>
      cases members.nodeIfAny "alternative" <;> rfl
  case h_6 =>
    cases members.get "value" with
    | error e => rfl
    | ok m =>
      simp only [bind, Except.bind]
      cases numberOf m.value <;> rfl
  case h_7 => cases members.truth "value" <;> rfl
  case h_8 => cases members.text "value" <;> rfl
  case h_9 => cases members.text "name" <;> rfl
  case h_10 => cases members.text "op" <;> cases members.node "operand" <;> rfl
  case h_11 =>
    cases members.text "op" <;> cases members.node "left" <;> cases members.node "right" <;> rfl
  case h_12 => cases members.node "left" <;> cases members.node "right" <;> rfl
  case h_13 => cases members.nodes "params" <;> cases members.node "body" <;> rfl
  case h_14 => cases members.node "func" <;> cases members.nodes "args" <;> rfl
  case h_15 => rfl

end Node
end HangulScript
