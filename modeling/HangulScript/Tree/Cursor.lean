import HangulScript.Diagnosis.Basic
import HangulScript.Token.Stream

/-!
# A cursor into a token stream

Reading a tree goes through a token stream from left to right with one token in hand.
The cursor is that token together with the part of the stream behind it.

Three rules make every stream readable.

* The end of input is never left: advancing from it changes nothing, so whatever
  stands behind it in the stream has no influence.
* A stream that runs dry without an end of input gets one, ranged where its last
  token ended --- or at the origin, if there was no token at all.
* A stream that was cut short by a scanning fault gives that fault to whoever asks
  for the token that is not there.  Taking a token into the hand asks for it, so a
  token is in hand before the parser is done with the one before.
-/

namespace HangulScript

/-- Why a token stream gives no tree. -/
inductive ReadingFailure where
  /-- An error of the program. -/
  | error (e : Error)
  /-- The nesting limit was reached, with a token of this range in hand. -/
  | limit (reached : Range)
  /-- A number token whose text is no numeral. -/
  | notNumeral (text : String)
  deriving DecidableEq

namespace ScanFault

/-- The error that reports a scanning fault. -/
def error (f : ScanFault) : Error := ⟨.unexpectedCharacter f.character, Range.point f.place⟩

end ScanFault

/-- The token in hand and the stream behind it. -/
structure Cursor where
  current : Token
  rest : List Token
  fault : Option ScanFault
  deriving DecidableEq

namespace Cursor

/-- Takes the next token of a stream into the hand; a dry stream gives an end of
input at the position. -/
def take (stream : TokenStream) (dry : Position) : Except ReadingFailure Cursor :=
  match stream.tokens, stream.fault with
  | t :: rest, fault => .ok ⟨t, rest, fault⟩
  | [], some fault => .error (.error fault.error)
  | [], none => .ok ⟨Token.endAt dry, [], none⟩

/-- The cursor at the beginning of a stream. -/
def start (stream : TokenStream) : Except ReadingFailure Cursor := take stream Position.origin

/-- The cursor one token further on. -/
def advance (c : Cursor) : Except ReadingFailure Cursor :=
  if c.current.kind = .endOfInput then .ok c
  else take ⟨c.rest, c.fault⟩ c.current.range.last

/-- Whether the token in hand is of a kind. -/
def holds (c : Cursor) (kind : TokenKind) : Bool := c.current.kind == kind

/-- The token in hand, which must be of a kind, and the cursor behind it. -/
def consume (kind : TokenKind) (c : Cursor) : Except ReadingFailure (Token × Cursor) :=
  if c.current.kind = kind then do
    let further ← c.advance
    return (c.current, further)
  else .error (.error (Error.mismatchedToken kind c.current))

/-- How many tokens can still be consumed: a measure of everything that reading
does. -/
def remaining (c : Cursor) : Nat :=
  if c.current.kind = .endOfInput then 0 else c.rest.length + 1

/-- Advancing from another token than the end leaves less to consume. -/
theorem remaining_advance_lt {c d : Cursor} (h : c.advance = .ok d)
    (hc : c.current.kind ≠ .endOfInput) : d.remaining < c.remaining := by
  simp only [advance, hc, if_false, take] at h
  split at h
  · cases h
    simp_all only [remaining, ne_eq, if_false, List.length_cons]
    split <;> omega
  · cases h
  · cases h
    simp [remaining, hc, Token.endAt]

/-- Advancing never leaves more to consume. -/
theorem remaining_advance_le {c d : Cursor} (h : c.advance = .ok d) :
    d.remaining ≤ c.remaining := by
  by_cases hc : c.current.kind = .endOfInput
  · simp only [advance, hc, if_true, Except.ok.injEq] at h
    exact h ▸ Nat.le_refl _
  · exact Nat.le_of_lt (remaining_advance_lt h hc)

end Cursor
end HangulScript
