import HangulScript.Text.DecimalDigit
import HangulScript.Text.Quoted

/-!
# The options of the command

The command takes options and one file to run, in any order.

    -v               tell more of what happens; repeated, still more
    --debug-file F   tell it to a file
    --emit-ast F     write the tree of a program into a file
    --ast F          run a tree file; not together with --emit-ast

Reading the arguments goes in two steps.  First every argument is classified by its
own text alone: an option, possibly with something attached to it, or a plain argument.
Then the classified arguments are gone through from left to right, and an option that
needs a value takes it from what is attached or from the plain argument behind it.

A long option may be shortened as long as only one begins like that.  Letters may be
written together behind one dash, the first two also with an equals sign between them;
if one of them is no option, what is left is something attached to the letter before it.
After `--` everything is a plain argument.  What looks like a negative number or holds
a blank is a plain argument unless it is an option.  Plain arguments after the first,
and options that do not exist, are collected and refused together at the end, so an
error in an option before them or behind them comes first.
-/

namespace HangulScript
namespace Command

/-- The options. -/
inductive Flag where
  | help
  | verbose
  | debugFile
  | emitTree
  | runTree
  deriving DecidableEq

namespace Flag

/-- How an option is written. -/
def spellings : Flag → List String
  | help => ["-h", "--help"]
  | verbose => ["-v"]
  | debugFile => ["--debug-file"]
  | emitTree => ["--emit-ast"]
  | runTree => ["--ast"]

/-- All options. -/
def all : List Flag := [help, verbose, debugFile, emitTree, runTree]

/-- All spellings with what they spell. -/
def spelled : List (List Char × Flag) :=
  all.flatMap fun f => f.spellings.map fun s => (s.toList, f)

/-- The option that a text spells in full. -/
def ofSpelling? (text : List Char) : Option Flag := spelled.lookup text

/-- Whether an option needs a value. -/
def takesValue : Flag → Bool
  | help | verbose => false
  | debugFile | emitTree | runTree => true

/-- How messages name an option. -/
def label (f : Flag) : String := "/".intercalate f.spellings

end Flag

/-- Why the arguments are not carried out. -/
inductive Stop where
  /-- They ask for an account of the options. -/
  | help
  /-- They are wrong. -/
  | misuse (message : String)
  deriving DecidableEq

namespace Stop

/-- Wrong use of one option. -/
def misuseOf (f : Flag) (message : String) : Stop :=
  misuse ("argument " ++ f.label ++ ": " ++ message)

/-- Something is attached to an option that takes nothing. -/
def ignored (f : Flag) (text : List Char) : Stop :=
  misuseOf f ("ignored explicit argument " ++ Text.quoted (String.ofList text))

end Stop

/-! ## Classifying arguments -/

/-- What is written behind an option in the same argument.  Behind an option of one
letter it can be further letters. -/
structure Attached where
  text : List Char
  letters : Bool
  deriving DecidableEq

/-- A classified argument. -/
inductive Word where
  | plain (text : String)
  | separator
  | flag (f : Flag) (attached : Option Attached)
  | unknown (text : String)
  deriving DecidableEq

/-- Whether a text begins with two dashes. -/
def isLong : List Char → Bool
  | '-' :: '-' :: _ => true
  | _ => false

/-- A text up to its first equals sign, and what is attached behind it. -/
def splitEquals (text : List Char) : List Char × Option Attached :=
  match text.dropWhile (· != '=') with
  | [] => (text, none)
  | _ :: rest => (text.takeWhile (· != '='), some ⟨rest, !isLong text⟩)

/-- A text without the newline that ends it, if one does. -/
def withoutLineEnd (text : List Char) : List Char :=
  if text.getLast? = some '\n' then text.dropLast else text

/-- Whether a text is a dash and a decimal number. -/
def isNegative : List Char → Bool
  | '-' :: rest =>
    match rest.dropWhile Text.isDecimalDigit with
    | [] => !rest.isEmpty
    | '.' :: fraction => !fraction.isEmpty && fraction.all Text.isDecimalDigit
    | _ => false
  | _ => false

/-- Whether a text looks like a negative number; a newline behind it does not matter. -/
def looksNegative (text : List Char) : Bool := isNegative (withoutLineEnd text)

/-- The options that a text which spells none in full can stand for: behind two
dashes, those that begin like it; behind one, the option of the letter. -/
def candidates (text : List Char) : List (List Char × Flag × Option Attached) :=
  match text with
  | '-' :: '-' :: _ =>
    let (stem, attached) := splitEquals text
    (Flag.spelled.filter fun s => stem.isPrefixOf s.1).map fun s => (s.1, s.2, attached)
  | '-' :: letter :: tail =>
    match Flag.ofSpelling? ['-', letter] with
    | some f => [(['-', letter], f, some ⟨tail, true⟩)]
    | none => []
  | _ => []

/-- Classifies an argument by its text. -/
def classify (text : String) : Except Stop Word :=
  let chars := text.toList
  if chars.head? ≠ some '-' then .ok (.plain text)
  else
    match Flag.ofSpelling? chars with
    | some f => .ok (.flag f none)
    | none =>
      if chars = ['-'] then .ok (.plain text)
      else
        let (stem, attached) := splitEquals chars
        match attached.bind fun a => (Flag.ofSpelling? stem).map fun f => (f, a) with
        | some (f, a) => .ok (.flag f (some a))
        | none =>
          match candidates chars with
          | [(_, f, a)] => .ok (.flag f a)
          | [] =>
            if looksNegative chars ∨ ' ' ∈ chars then .ok (.plain text) else .ok (.unknown text)
          | several =>
            let names := several.map fun s => String.ofList s.1
            .error (.misuse ("ambiguous option: " ++ text ++ " could match " ++
              ", ".intercalate names))

/-- Classifies all arguments. -/
def classifyAll : List String → Except Stop (List Word)
  | [] => .ok []
  | text :: rest =>
    if text = "--" then .ok (.separator :: rest.map .plain)
    else do
      let word ← classify text
      let words ← classifyAll rest
      return word :: words

/-! ## Carrying them out -/

/-- What the arguments ask for. -/
structure Options where
  verbosity : Nat
  debugFile : Option String
  emitTree : Option String
  runTree : Option String
  program : Option String
  deriving DecidableEq

namespace Options

/-- What no arguments ask for. -/
def empty : Options := ⟨0, none, none, none, none⟩

/-- Gives an option its value.  A tree is either written or run. -/
def give (o : Options) (f : Flag) (value : String) : Except Stop Options :=
  match f with
  | .debugFile => .ok { o with debugFile := some value }
  | .emitTree =>
    if o.runTree.isSome then .error (.misuseOf f ("not allowed with argument " ++ Flag.runTree.label))
    else .ok { o with emitTree := some value }
  | .runTree =>
    if o.emitTree.isSome then
      .error (.misuseOf f ("not allowed with argument " ++ Flag.emitTree.label))
    else .ok { o with runTree := some value }
  | .help | .verbose => .ok o

/-- Carries out an option without a value. -/
def turnOn (o : Options) : Flag → Except Stop Options
  | .help => .error .help
  | .verbose => .ok { o with verbosity := o.verbosity + 1 }
  | .debugFile | .emitTree | .runTree => .ok o

end Options

/-- The options that an option and the letters behind it stand for.  A letter that is
no option leaves the option before it with something that it does not take. -/
def cluster (f : Flag) : List Char → Except Stop (List Flag)
  | [] => .error (.ignored f [])
  | letter :: rest =>
    match Flag.ofSpelling? ['-', letter] with
    | none => .error (.ignored f (letter :: rest))
    | some g => if rest = [] then .ok [f, g] else (cluster g rest).map (f :: ·)

/-- The options that an option without a value stands for, with what is attached to
it. -/
def together (f : Flag) : Option Attached → Except Stop (List Flag)
  | none => .ok [f]
  | some a => if a.letters then cluster f a.text else .error (.ignored f a.text)

/-- How far the arguments have been carried out.  The separator is dropped before the
program and right behind it; elsewhere it is one argument too many. -/
structure Progress where
  options : Options
  extras : List String
  atProgram : Bool

namespace Progress

/-- A plain argument: the program, or one too many. -/
def plain (p : Progress) (text : String) : Progress :=
  if p.options.program.isNone then
    { p with options := { p.options with program := some text }, atProgram := true }
  else { p with extras := p.extras ++ [text], atProgram := false }

/-- The separator. -/
def separator (p : Progress) : Progress :=
  if p.options.program.isNone || p.atProgram then { p with atProgram := false }
  else { p with extras := p.extras ++ ["--"], atProgram := false }

/-- An argument that is no option. -/
def extra (p : Progress) (text : String) : Progress :=
  { p with extras := p.extras ++ [text], atProgram := false }

/-- An option with a value.  The separator is no value: where it is attached, the
option has an empty one. -/
def give (p : Progress) (f : Flag) (value : String) : Except Stop Progress := do
  let value := if value = "--" then "" else value
  return { p with options := ← p.options.give f value, atProgram := false }

/-- An option without a value, and the letters attached to it. -/
def turnOn (p : Progress) (f : Flag) (attached : Option Attached) : Except Stop Progress := do
  let flags ← together f attached
  return { p with options := ← flags.foldlM Options.turnOn p.options, atProgram := false }

end Progress

/-- Goes through classified arguments. -/
def carryOut (p : Progress) : List Word → Except Stop Progress
  | [] => .ok p
  | .plain text :: rest => carryOut (p.plain text) rest
  | .separator :: rest => carryOut p.separator rest
  | .unknown text :: rest => carryOut (p.extra text) rest
  | .flag f attached :: rest =>
    if f.takesValue then
      match attached with
      | some a => do carryOut (← p.give f (String.ofList a.text)) rest
      | none =>
        match rest with
        | .plain text :: rest => do carryOut (← p.give f text) rest
        | _ => .error (.misuseOf f "expected one argument")
    else do carryOut (← p.turnOn f attached) rest

/-- What the arguments of the command ask for. -/
def Options.ofArguments (args : List String) : Except Stop Options := do
  let words ← classifyAll args
  let p ← carryOut ⟨Options.empty, [], false⟩ words
  if p.extras.isEmpty then return p.options
  else .error (.misuse ("unrecognized arguments: " ++ " ".intercalate p.extras))

end Command
end HangulScript
