import HangulScript.Token.Lexeme

/-!
# From source text to tokens

A token stream is a list of tokens and, possibly, the fault that ended it early.
Scanning a source makes one: gaps are skipped, each lexeme becomes a token, and the
first character that begins no lexeme is the fault.  A source without faults yields
an end-of-input token last, at the place just past its last character.

The fault stands *behind* the tokens before it, and whoever consumes the stream
meets it only when asking for a token that is not there.  That is why a stream is a
value with two fields and not a list or an error: an error in the tokens before a
fault is reported before the fault.
-/

namespace HangulScript

/-- A character that begins no lexeme, and its place. -/
structure ScanFault where
  character : Char
  place : Position
  deriving DecidableEq

/-- Tokens, and what stopped the scanner after them if something did. -/
structure TokenStream where
  tokens : List Token
  fault : Option ScanFault
  deriving DecidableEq

namespace TokenStream

/-- A stream with a token put before it. -/
def cons (t : Token) (s : TokenStream) : TokenStream := ⟨t :: s.tokens, s.fault⟩

/-- The token of a lexeme that begins at a position.  A lexeme holds no newline, so
its last character stands in the same row. -/
def tokenAt (p : Position) (l : Lexeme) : Token :=
  ⟨l.kind, String.ofList l.text, ⟨p, p.right l.more.length⟩⟩

/-- The tokens of a text that begins at a position. -/
def scanFrom (p : Position) : List Char → TokenStream
  | [] => ⟨[Token.endAt p], none⟩
  | c :: rest =>
    if Text.isGap c then scanFrom (p.next c) rest
    else
      match Lexeme.read? c rest with
      | none => ⟨[], some ⟨c, p⟩⟩
      | some l =>
        cons (tokenAt p l) (scanFrom (p.right l.spelling.length) (rest.drop l.more.length))
termination_by text => text.length
decreasing_by all_goals simp only [List.length_cons, List.length_drop]; omega

/-- The tokens of a source text. -/
def scan (source : String) : TokenStream := scanFrom Position.origin source.toList

/-- The range of the end of a source text: the place just past its last
character. -/
def endOfInput (source : String) : Range :=
  Range.point (Position.origin.after source.toList)

end TokenStream
end HangulScript
