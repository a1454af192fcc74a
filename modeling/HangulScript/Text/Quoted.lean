import HangulScript.Text.Printable

/-!
# Quoted text

Messages show a piece of source text in quotes, in a form that is printable, fits
on one line and lets the text be recovered.

* The quotes are single ones, unless the text holds a single quote and no double
  one; then they are double.
* The chosen quote and the backslash are written with a backslash before them.
* Newline, carriage return and tab are `\n`, `\r` and `\t`.
* Every other unprintable character is named by its code point in lower-case
  hexadecimal: `\x` with two digits, `\u` with four or `\U` with eight, whichever
  is the first that holds it.
-/

namespace HangulScript
namespace Text

/-- A hexadecimal digit, in lower case. -/
def hexDigit (n : Nat) : Char :=
  if n < 10 then Char.ofNat (48 + n) else Char.ofNat (87 + n)

/-- The last `width` hexadecimal digits of a number, leading zeros included. -/
def hexDigits : Nat → Nat → List Char
  | 0, _ => []
  | width + 1, n => hexDigits width (n / 16) ++ [hexDigit (n % 16)]

/-- What is no hexadecimal digit does not stand among them. -/
theorem not_mem_hexDigits {c : Char} (h : ∀ n < 16, hexDigit n ≠ c) (width n : Nat) :
    c ∉ hexDigits width n := by
  induction width generalizing n with
  | zero => simp [hexDigits]
  | succ width ih =>
    simp only [hexDigits, List.mem_append, List.mem_singleton, not_or]
    exact ⟨ih _, fun he => h _ (Nat.mod_lt n (by decide)) he.symm⟩

/-- The name of a character by its code point. -/
def codePointEscape (c : Char) : List Char :=
  if c.toNat < 0x100 then '\\' :: 'x' :: hexDigits 2 c.toNat
  else if c.toNat < 0x10000 then '\\' :: 'u' :: hexDigits 4 c.toNat
  else '\\' :: 'U' :: hexDigits 8 c.toNat

/-- One character as it stands between the given quotes. -/
def quotedChar (quote c : Char) : List Char :=
  if c = quote || c = '\\' then ['\\', c]
  else if c = '\n' then ['\\', 'n']
  else if c = '\r' then ['\\', 'r']
  else if c = '\t' then ['\\', 't']
  else if isPrintable c then [c]
  else codePointEscape c

/-- The quote a text is put in: the double one exactly when the text holds a
single quote and no double one. -/
def quoteFor (text : List Char) : Char :=
  if '\x27' ∈ text ∧ '"' ∉ text then '"' else '\x27'

/-- A text in quotes. -/
def quoted (text : String) : String :=
  let quote := quoteFor text.toList
  String.ofList (quote :: text.toList.flatMap (quotedChar quote) ++ [quote])

end Text
end HangulScript
