import HangulScript.Number.Numeral
import HangulScript.Tree.Basic
import HangulScript.Tree.Cursor

/-!
# Reading a tree from tokens

A program is statements up to the end of input.  A statement is a return, a branch or
an expression; a block is statements in braces.  Nothing separates statements: an
expression takes every token that can continue it, and the next statement begins with
the first token that cannot.

## Expressions

Expressions are read by binding power.  An operator takes its operands if it binds
more tightly than the minimum that is asked for:

    =                10, to the right
    == !=            20, to the right
    < > <= >=        20, to the left
    + -              30, to the left
    * /              40, to the left
    + - ! in front   50
    a call           60

Reading with a minimum reads an operand first and then goes round the operator loop,
in which the expression read so far becomes the left operand of the next operator.
The right operand is read with the operator's own power as the minimum, so that an
equal operator after it is left for the loop --- or with one less, if the operator
groups to the right.  Equality and order share a tier but not a direction, hence
`x <= y == z` is `(x <= y) == z` while `a == b == c` is `a == (b == c)`.

An assignment is an operator like the others and takes any expression on its left;
whether that is a name is asked when it is evaluated.  Parentheses leave no node: the
node inside takes over their range.

## Nesting

Expressions, statements and blocks contain one another, and a limit bounds how deeply.
It is built into the shape of the definitions: each of the three is given the three
for one level less, and `levels` ties them together by recursion on the limit.  The
loops need a bound as well, for another reason only.  Each round consumes a token, so
the number of tokens left, plus one, is never exceeded; a loop that did exceed it
would report the limit.
-/

namespace HangulScript
namespace Grammar

/-- How reading a part of a tree goes: from a cursor to the part and the cursor behind
it. -/
abbrev Reading (α : Type) := Cursor → Except ReadingFailure (α × Cursor)

/-- The three mutually nested parts, as they are read at some level. -/
structure Level where
  expression : (minimum : Int) → Reading Node
  statement : Reading Node
  block : Reading Node

/-- The nesting limit was reached. -/
def exhausted {α : Type} (c : Cursor) : Except ReadingFailure α :=
  .error (.limit c.current.range)

/-! ## Operators -/

/-- Which operand a chain of operators of one tier is nested in. -/
inductive Grouping where
  | left
  | right
  deriving DecidableEq

/-- The binding power and grouping of an operator between two operands. -/
def binding? : TokenKind → Option (Int × Grouping)
  | .assign => some (10, .right)
  | .equal | .notEqual => some (20, .right)
  | .less | .greater | .lessOrEqual | .greaterOrEqual => some (20, .left)
  | .plus | .minus => some (30, .left)
  | .star | .slash => some (40, .left)
  | _ => none

/-- The minimum with which the right operand of an operator is read. -/
def rightMinimum (power : Int) : Grouping → Int
  | .left => power
  | .right => power - 1

/-- The binding power of an operator in front of its operand. -/
def unaryPower : Int := 50

/-- The binding power of a call. -/
def callPower : Int := 60

/-- Whether an operator stands in front of an operand. -/
def isUnary : TokenKind → Bool
  | .plus | .minus | .bang => true
  | _ => false

/-- The node of an operator and its two operands. -/
def joined (op : Token) (left right : Node) : Node :=
  let range := left.range.span right.range
  if op.kind = .assign then .assignment range left right
  else .binary range op.text left right

/-! ## Lists -/

/-- Further items, each after a comma. -/
def moreItems (item : Reading Node) : (bound : Nat) → Reading (List Node)
  | 0, c => exhausted c
  | bound + 1, c =>
    if c.holds .comma then do
      let (_, c) ← c.consume .comma
      let (first, c) ← item c
      let (others, c) ← moreItems item bound c
      return (first :: others, c)
    else .ok ([], c)

/-- Items with commas between them, or none, before a closing parenthesis. -/
def items (item : Reading Node) : Reading (List Node) := fun c =>
  if c.holds .rightParenthesis then .ok ([], c)
  else do
    let (first, c) ← item c
    let (others, c) ← moreItems item (c.remaining + 1) c
    return (first :: others, c)

/-- Statements up to a token of the given kind, which is left in hand. -/
def statementsUpTo (down : Level) (terminator : TokenKind) : (bound : Nat) → Reading (List Node)
  | 0, c => exhausted c
  | bound + 1, c =>
    if c.holds terminator then .ok ([], c)
    else if c.holds .endOfInput then .error (.error (Error.mismatchedToken terminator c.current))
    else do
      let (first, c) ← down.statement c
      let (others, c) ← statementsUpTo down terminator bound c
      return (first :: others, c)

/-- All statements up to a token of the given kind. -/
def statements (down : Level) (terminator : TokenKind) : Reading (List Node) := fun c =>
  statementsUpTo down terminator (c.remaining + 1) c

/-! ## Blocks and statements -/

/-- Statements in braces. -/
def block (down : Level) : Reading Node := fun c => do
  let (opening, c) ← c.consume .leftBrace
  let (inner, c) ← statements down .rightBrace c
  let (closing, c) ← c.consume .rightBrace
  return (.block (opening.range.span closing.range) inner, c)

/-- A return statement. -/
def returnStatement (down : Level) : Reading Node := fun c => do
  let (keyword, c) ← c.consume .returnKeyword
  let (expression, c) ← down.expression 0 c
  return (.returnStatement (keyword.range.span expression.range) expression, c)

/-- A branch, with or without an alternative. -/
def branch (down : Level) : Reading Node := fun c => do
  let (keyword, c) ← c.consume .ifKeyword
  let (predicate, c) ← down.expression 0 c
  let (consequence, c) ← down.block c
  if c.holds .elseKeyword then
    let (_, c) ← c.consume .elseKeyword
    let (alternative, c) ← down.block c
    return (.branch (keyword.range.span alternative.range) predicate consequence alternative, c)
  else
    return (.branch (keyword.range.span consequence.range) predicate consequence .absent, c)

/-- A statement. -/
def statement (down : Level) : Reading Node := fun c =>
  if c.holds .returnKeyword then returnStatement down c
  else if c.holds .ifKeyword then branch down c
  else do
    let (expression, c) ← down.expression 0 c
    return (.expressionStatement expression.range expression, c)

/-! ## Expressions -/

/-- A parameter of a function. -/
def parameter : Reading Node := fun c => do
  let (name, c) ← c.consume .identifier
  return (.identifier name.range name.text, c)

/-- A function literal. -/
def function (down : Level) : Reading Node := fun c => do
  let (keyword, c) ← c.consume .functionKeyword
  let (_, c) ← c.consume .leftParenthesis
  let (params, c) ← items parameter c
  let (_, c) ← c.consume .rightParenthesis
  let (body, c) ← down.block c
  return (.function (keyword.range.span body.range) params body, c)

/-- The arguments of a call, given what is called. -/
def call (down : Level) (callee : Node) : Reading Node := fun c => do
  let (_, c) ← c.consume .leftParenthesis
  let (args, c) ← items (down.expression 0) c
  let (closing, c) ← c.consume .rightParenthesis
  return (.call (callee.range.span closing.range) callee args, c)

/-- An expression in parentheses. -/
def grouping (down : Level) : Reading Node := fun c => do
  let (opening, c) ← c.consume .leftParenthesis
  let (inner, c) ← down.expression 0 c
  let (closing, c) ← c.consume .rightParenthesis
  return (inner.withRange (opening.range.span closing.range), c)

/-- An operator in front of its operand. -/
def unary (down : Level) : Reading Node := fun c => do
  let further ← c.advance
  let (operand, d) ← down.expression unaryPower further
  return (.unary (c.current.range.span operand.range) c.current.text operand, d)

/-- An expression of one token. -/
def literal (node : Node) : Reading Node := fun c => do
  let further ← c.advance
  return (node, further)

/-- A numeral.  The token is consumed before its text is looked at. -/
def numeral : Reading Node := fun c => do
  let further ← c.advance
  match Numeral.value? c.current.text.toList with
  | some value => return (.number c.current.range value, further)
  | none => .error (.notNumeral c.current.text)

/-- An expression that is no operand of an operator behind it: the token in hand tells
which. -/
def operand (down : Level) : Reading Node := fun c =>
  let token := c.current
  match token.kind with
  | .plus | .minus | .bang => unary down c
  | .number => numeral c
  | .string => literal (.string token.range token.text) c
  | .trueKeyword => literal (.boolean token.range true) c
  | .falseKeyword => literal (.boolean token.range false) c
  | .identifier => literal (.identifier token.range token.text) c
  | .functionKeyword => function down c
  | .leftParenthesis => grouping down c
  | _ => .error (.error (Error.unexpectedToken token))

/-- The operator loop: calls and operators that bind more tightly than the minimum
take the expression read so far as their left operand. -/
def operatorLoop (down : Level) (minimum : Int) : (bound : Nat) → (left : Node) → Reading Node
  | 0, _, c => exhausted c
  | bound + 1, left, c =>
    if c.holds .leftParenthesis ∧ minimum < callPower then do
      let (whole, c) ← call down left c
      operatorLoop down minimum bound whole c
    else
      match binding? c.current.kind with
      | none => .ok (left, c)
      | some (power, grouping) =>
        if power ≤ minimum then .ok (left, c)
        else do
          let further ← c.advance
          let (right, d) ← down.expression (rightMinimum power grouping) further
          operatorLoop down minimum bound (joined c.current left right) d

/-- The operator loop from a cursor on. -/
def operators (down : Level) (minimum : Int) (left : Node) : Reading Node := fun c =>
  operatorLoop down minimum (c.remaining + 1) left c

/-- An expression whose operators all bind more tightly than a minimum. -/
def expression (down : Level) (minimum : Int) : Reading Node := fun c => do
  let (left, c) ← operand down c
  operators down minimum left c

/-! ## Programs -/

/-- The three parts with a number of levels left. -/
def levels : Nat → Level
  | 0 => ⟨fun _ => exhausted, exhausted, exhausted⟩
  | limit + 1 =>
    let down := levels limit
    ⟨expression down, statement down, block down⟩

/-- The range of a program: from its first statement to its last, or that of the end
of input if it has none. -/
def programRange (first : Token) (inner : List Node) : Range :=
  match inner.head?, inner.getLast? with
  | some s, some t => s.range.span t.range
  | _, _ => first.range

/-- The statements from a cursor to the end of input, as a program. -/
def programFrom (limit : Nat) (c : Cursor) : Except ReadingFailure Node := do
  let (inner, _) ← statements (levels limit) .endOfInput c
  return .program (programRange c.current inner) inner

/-- What a failure is to whoever asked for a whole program: reaching the limit is an
error of the program. -/
def reported : ReadingFailure → ReadingFailure
  | .limit reached => .error ⟨.nestedTooDeeply, reached⟩
  | failure => failure

/-- The program that a token stream holds, with at most the given nesting. -/
def program (limit : Nat) (stream : TokenStream) : Except ReadingFailure Node := do
  let c ← Cursor.start stream
  (programFrom limit c).mapError reported

/-- How deeply expressions, statements and blocks may be nested. -/
def nestingLimit : Nat := 1000

/-- The program that a source text holds. -/
def programOf (source : String) : Except ReadingFailure Node :=
  program nestingLimit (TokenStream.scan source)

end Grammar
end HangulScript
