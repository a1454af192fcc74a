import HangulScript.Token.Basic

/-!
# What can be wrong with a program

An error of the language is a cause and a range: what is wrong, and where.  The cause
carries exactly what its message needs, and the wording is in one function.  Nothing
in the language can intercept an error; it travels to whoever asked for the run.

## Families

A cause belongs to the stage that finds it: reading characters, reading tokens, or
evaluating.  Two causes belong to none of these, because they say nothing about the
program but that a nesting limit was reached, one while reading and one while
evaluating.

A program that embeds the language reports errors of its own in the same form;
`reported` holds such a message with the family it is filed under.
-/

namespace HangulScript

/-- The stages that find errors. -/
inductive Family where
  | general
  | scanning
  | parsing
  | evaluation
  | resources
  deriving DecidableEq

/-- What is wrong. -/
inductive Cause where
  /-- A character that begins no token. -/
  | unexpectedCharacter (character : Char)
  /-- A token that begins no expression, where one has to begin. -/
  | unexpectedToken (token : Token)
  /-- A token where one of another kind is needed. -/
  | mismatchedToken (expected : TokenKind) (token : Token)
  /-- Reading a program reached the nesting limit. -/
  | nestedTooDeeply
  /-- A return statement outside of all functions was reached. -/
  | topLevelReturn
  /-- A branch decided by something else than a boolean. -/
  | badPredicate (type : String)
  /-- An assignment to something else than a name. -/
  | badAssignmentTarget
  /-- An operator applied to a value it has no meaning for. -/
  | badUnary (op type : String)
  /-- An operator between two values it has no meaning for. -/
  | badBinary (op left right : String)
  /-- A name that is not bound. -/
  | unboundIdentifier (name : String)
  /-- A call of something else than a function. -/
  | notCallable (type : String)
  /-- A function body that ended without a return statement. -/
  | missingReturn
  /-- A call with the wrong number of arguments. -/
  | arity (expected got : Int)
  /-- Evaluating a program reached the nesting limit. -/
  | callStackExhausted
  /-- A message of an embedding program. -/
  | reported (family : Family) (message : String)
  deriving DecidableEq

namespace Cause

/-- The family a cause belongs to. -/
def family : Cause → Family
  | unexpectedCharacter _ => .scanning
  | unexpectedToken _ | mismatchedToken .. => .parsing
  | nestedTooDeeply | callStackExhausted => .resources
  | topLevelReturn | badPredicate _ | badAssignmentTarget | badUnary .. | badBinary ..
  | unboundIdentifier _ | notCallable _ | missingReturn | arity .. => .evaluation
  | reported family _ => family

/-- The name of a cause, as reports give it. -/
def label : Cause → String
  | unexpectedCharacter _ => "ScanError"
  | unexpectedToken _ => "UnexpectedTokenError"
  | mismatchedToken .. => "MismatchedTokenError"
  | nestedTooDeeply | callStackExhausted => "ResourceExhaustedError"
  | topLevelReturn => "TopLevelReturnError"
  | badPredicate _ => "BadPredicateError"
  | badAssignmentTarget => "BadAssignmentTargetError"
  | badUnary .. => "BadPrefixExpressionError"
  | badBinary .. => "BadInfixExpressionError"
  | unboundIdentifier _ => "UnboundIdentifierError"
  | notCallable _ => "NotCallableError"
  | missingReturn => "MissingReturnError"
  | arity .. => "ArityError"
  | reported .general _ => "NuriError"
  | reported .scanning _ => "ScanError"
  | reported .parsing _ => "ParseError"
  | reported .evaluation _ => "EvalError"
  | reported .resources _ => "ResourceExhaustedError"

/-- How a message names a token it did not expect. -/
def found (token : Token) : String :=
  if token.kind = .endOfInput then "end of input" else Text.quoted token.text

/-- The message of a cause. -/
def message : Cause → String
  | unexpectedCharacter c => "unexpected character " ++ Text.quoted (String.singleton c)
  | unexpectedToken token =>
    if token.kind = .endOfInput then "unexpected end of input"
    else "unexpected token " ++ Text.quoted token.text
  | mismatchedToken expected token => "expected " ++ expected.label ++ ", got " ++ found token
  | nestedTooDeeply => "program is nested too deeply to parse"
  | topLevelReturn => "return statement outside of a function body"
  | badPredicate type => "branch predicate must be Boolean, got " ++ type
  | badAssignmentTarget => "left side of an assignment must be an identifier"
  | badUnary op type => "unsupported prefix " ++ op ++ " for " ++ type
  | badBinary op left right => "unsupported " ++ op ++ " for " ++ left ++ " and " ++ right
  | unboundIdentifier name => "undefined variable " ++ name
  | notCallable type => type ++ " is not callable"
  | missingReturn => "function body finished without reaching a return statement"
  | arity expected got =>
    "function expects " ++ toString expected ++ " arguments, got " ++ toString got
  | callStackExhausted => "call stack exhausted during evaluation"
  | reported _ message => message

end Cause

/-- An error: what is wrong, and where. -/
structure Error where
  cause : Cause
  range : Range
  deriving DecidableEq

namespace Error

/-- The error of a token that begins no expression, at that token. -/
def unexpectedToken (token : Token) : Error := ⟨.unexpectedToken token, token.range⟩

/-- The error of a token of the wrong kind, at that token. -/
def mismatchedToken (expected : TokenKind) (token : Token) : Error :=
  ⟨.mismatchedToken expected token, token.range⟩

/-- The message of an error, without its place. -/
def message (e : Error) : String := e.cause.message

/-- The place where an error begins, in words and counted from one. -/
def place (e : Error) : String :=
  "at line " ++ toString (e.range.first.row + 1) ++ ", column " ++
    toString (e.range.first.column + 1)

/-- The message and the place of an error. -/
def located (e : Error) : String := e.message ++ " " ++ e.place

end Error
end HangulScript
