import HangulScript.Json.Basic
import HangulScript.Number.Decimal

/-!
# Reading JSON

The reader takes the texts of the standard and, beyond it, the words `NaN`,
`Infinity` and `-Infinity`, because tree files hold any number of the language.  It
refuses control characters inside strings, numbers with leading zeros and commas that
nothing follows.

A number without a fraction and without an exponent is an integer; any other is the
number of the language nearest to it.  Two escapes of surrogates that belong together
are one character; a surrogate without its partner stands for no character and is read
as the replacement character.

Values are nested, and every part of a value begins at a later character than the
value itself, except that the first element of a list begins where the list of
elements does.  Twice the length of the text therefore bounds the nesting of calls.
-/

namespace HangulScript
namespace Json

/-- The rest of a text after its blanks. -/
def skipBlanks (text : List Char) : List Char :=
  text.dropWhile fun c => c == ' ' || c == '\t' || c == '\n' || c == '\r'

/-- The rest of a text after a word it begins with. -/
def skip? (word text : List Char) : Option (List Char) :=
  if word.isPrefixOf text then some (text.drop word.length) else none

/-! ## Strings -/

/-- The value of a hexadecimal digit. -/
def hexValue? (c : Char) : Option Nat :=
  if '0' ≤ c ∧ c ≤ '9' then some (c.toNat - 48)
  else if 'a' ≤ c ∧ c ≤ 'f' then some (c.toNat - 87)
  else if 'A' ≤ c ∧ c ≤ 'F' then some (c.toNat - 55)
  else none

/-- Four hexadecimal digits and what follows them. -/
def fourHex? : List Char → Option (Nat × List Char)
  | a :: b :: c :: d :: rest => do
    let digits ← [a, b, c, d].mapM hexValue?
    return (digits.foldl (fun n digit => 16 * n + digit) 0, rest)
  | _ => none

/-- The second of two surrogates, written as an escape. -/
def lowSurrogate? : List Char → Option (Nat × List Char)
  | '\\' :: 'u' :: rest => do
    let (unit, rest) ← fourHex? rest
    if 0xdc00 ≤ unit ∧ unit < 0xe000 then some (unit, rest) else none
  | _ => none

/-- The character of a 16-bit unit, together with the unit after it if the two belong
together. -/
def unitChar (unit : Nat) (rest : List Char) : Char × List Char :=
  if 0xd800 ≤ unit ∧ unit < 0xdc00 then
    match lowSurrogate? rest with
    | some (low, rest) => (Char.ofNat (0x10000 + (unit - 0xd800) * 0x400 + (low - 0xdc00)), rest)
    | none => ('\ufffd', rest)
  else if 0xdc00 ≤ unit ∧ unit < 0xe000 then ('\ufffd', rest)
  else (Char.ofNat unit, rest)

/-- The character of an escape, given what follows the backslash. -/
def escape? : List Char → Option (Char × List Char)
  | '"' :: rest => some ('"', rest)
  | '\\' :: rest => some ('\\', rest)
  | '/' :: rest => some ('/', rest)
  | 'b' :: rest => some ('\x08', rest)
  | 'f' :: rest => some ('\x0c', rest)
  | 'n' :: rest => some ('\n', rest)
  | 'r' :: rest => some ('\r', rest)
  | 't' :: rest => some ('\t', rest)
  | 'u' :: rest => (fourHex? rest).map fun (unit, rest) => unitChar unit rest
  | _ => none

/-- The characters of a string after its opening quote, and what follows its closing
one. -/
def stringTail? : (bound : Nat) → List Char → Option (List Char × List Char)
  | 0, _ => none
  | _ + 1, [] => none
  | bound + 1, c :: rest =>
    if c = '"' then some ([], rest)
    else if c = '\\' then do
      let (c, rest) ← escape? rest
      let (others, rest) ← stringTail? bound rest
      return (c :: others, rest)
    else if c.toNat < 0x20 then none
    else do
      let (others, rest) ← stringTail? bound rest
      return (c :: others, rest)

/-! ## Numbers -/

/-- Whether a character is one of the ten digits. -/
def isDigit (c : Char) : Bool := '0' ≤ c && c ≤ '9'

/-- The values of digits. -/
def digitValues (digits : List Char) : List Nat := digits.map fun c => c.toNat - 48

/-- The digits of the whole part: a single zero, or digits that begin with another. -/
def whole? : List Char → Option (List Char × List Char)
  | '0' :: rest => some (['0'], rest)
  | text =>
    match text.takeWhile isDigit with
    | [] => none
    | digits => some (digits, text.dropWhile isDigit)

/-- The digits after a point; none without a point that a digit follows. -/
def fraction : List Char → List Char × List Char
  | '.' :: rest =>
    match rest.takeWhile isDigit with
    | [] => ([], '.' :: rest)
    | digits => (digits, rest.dropWhile isDigit)
  | text => ([], text)

/-- The power of ten after an `e`; nothing without an `e` that a number follows. -/
def power? : List Char → Option (Int × List Char)
  | e :: rest =>
    if e = 'e' ∨ e = 'E' then
      let (negative, rest) := match rest with
        | '+' :: rest => (false, rest)
        | '-' :: rest => (true, rest)
        | rest => (false, rest)
      match rest.takeWhile isDigit with
      | [] => none
      | digits =>
        let size : Int := ofDigits (digitValues digits)
        some (if negative then -size else size, rest.dropWhile isDigit)
    else none
  | [] => none

/-- A number after its sign. -/
def unsigned? (negative : Bool) (text : List Char) : Option (Json × List Char) := do
  let (whole, rest) ← whole? text
  let (fraction, rest) := fraction rest
  match fraction, power? rest with
  | [], none =>
    let size : Int := ofDigits (digitValues whole)
    return (integer (if negative then -size else size), rest)
  | _, none =>
    return (number (.ofDecimal negative (digitValues (whole ++ fraction)) (-fraction.length)), rest)
  | _, some (power, rest) =>
    return (number (.ofDecimal negative (digitValues (whole ++ fraction)) (power - fraction.length)),
      rest)

/-! ## Values -/

/-- A word and the value it stands for. -/
def word? (word : List Char) (value : Json) (text : List Char) : Option (Json × List Char) :=
  (skip? word text).map fun rest => (value, rest)

/-- A number with or without a sign, or one of the words. -/
def atom? (text : List Char) : Option (Json × List Char) :=
  (word? ['n', 'u', 'l', 'l'] null text)
    |>.or (word? ['t', 'r', 'u', 'e'] (boolean true) text)
    |>.or (word? ['f', 'a', 'l', 's', 'e'] (boolean false) text)
    |>.or (word? ['N', 'a', 'N'] (number .nan) text)
    |>.or (word? "Infinity".toList (number (.infinite false)) text)
    |>.or (word? "-Infinity".toList (number (.infinite true)) text)
    |>.or (match text with
      | '-' :: rest => unsigned? true rest
      | text => unsigned? false text)

mutual

/-- A value that begins at the first character. -/
def value? : (bound : Nat) → List Char → Option (Json × List Char)
  | 0, _ => none
  | _ + 1, '"' :: rest => do
    let (content, rest) ← stringTail? (rest.length + 1) rest
    return (string (String.ofList content), rest)
  | bound + 1, '[' :: rest =>
    match skipBlanks rest with
    | ']' :: rest => some (array [], rest)
    | rest => do
      let (elements, rest) ← elements? bound rest
      return (array elements, rest)
  | bound + 1, '\x7b' :: rest =>
    match skipBlanks rest with
    | '\x7d' :: rest => some (object [], rest)
    | rest => do
      let (members, rest) ← members? bound [] rest
      return (object members, rest)
  | _ + 1, text => atom? text

/-- The elements of an array up to its closing bracket. -/
def elements? : (bound : Nat) → List Char → Option (List Json × List Char)
  | 0, _ => none
  | bound + 1, text => do
    let (element, rest) ← value? bound text
    match skipBlanks rest with
    | ']' :: rest => return ([element], rest)
    | ',' :: rest =>
      let (others, rest) ← elements? bound (skipBlanks rest)
      return (element :: others, rest)
    | _ => none

/-- The members of an object up to its closing brace, put into those read before. -/
def members? : (bound : Nat) → List (String × Json) → List Char →
    Option (List (String × Json) × List Char)
  | 0, _, _ => none
  | bound + 1, known, '"' :: rest => do
    let (name, rest) ← stringTail? (rest.length + 1) rest
    match skipBlanks rest with
    | ':' :: rest =>
      let (value, rest) ← value? bound (skipBlanks rest)
      let known := insert (String.ofList name) value known
      match skipBlanks rest with
      | '\x7d' :: rest => return (known, rest)
      | ',' :: rest => members? bound known (skipBlanks rest)
      | _ => none
    | _ => none
  | _ + 1, _, _ => none

end

/-- The value that a whole text holds, blanks around it aside. -/
def ofText? (text : List Char) : Option Json := do
  let (value, rest) ← value? (2 * text.length + 2) (skipBlanks text)
  if (skipBlanks rest).isEmpty then some value else none

end Json
end HangulScript
