/-
The words of a command line, told apart by their look before any of them is
acted on. A word that starts with a dash is a switch if it spells one, in
full or, with two dashes, by as many characters as tell it from the others; a
value may be attached after an equals sign, or straight to the letter after a
single dash. A single dash, a negative number, and an unknown word with a
space in it are ordinary values. After a word of two dashes alone every word
is a value.
-/
import Brainfuck.CommandLine.Switch

namespace Brainfuck.CommandLine

/-- A word by its look. What is attached to a switch keeps its equals sign. -/
inductive Word where
  | value (text : String)
  | separator
  | switch (s : Switch) (long : Bool) (attached : List Char)
  | unknown (text : String)
  deriving DecidableEq, Repr

namespace Word

/-- Whether a character is a decimal digit. -/
def isDigit (c : Char) : Bool :=
  (Numeral.digit? c).isSome

/-- Characters without a line feed at their end. -/
def dropLineFeed (cs : List Char) : List Char :=
  if cs.getLast? == some '\n' then cs.dropLast else cs

/-- Whether the characters after a dash make a number: digits, or digits, a
point and digits, where those before the point may be missing. -/
def isNumber (cs : List Char) : Bool :=
  let cs := dropLineFeed cs
  match cs.dropWhile isDigit with
  | [] => !cs.isEmpty
  | '.' :: places => !places.isEmpty && places.all isDigit
  | _ => false

/-- A word with a dash in front that spells no switch. -/
def ofOther (text : String) : Word :=
  let cs := text.toList
  if isNumber (cs.drop 1) || cs.contains ' ' then value text else unknown text

/-- A word with two dashes in front that spells no switch in full: `name` is
what stands before an equals sign, `attached` the rest. -/
def ofShortened (text : String) (name attached : List Char) : Except Misuse Word :=
  match Switch.candidates name with
  | [] => .ok (ofOther text)
  | [(_, s)] => .ok (switch s true attached)
  | several => .error (.ambiguous text (several.map (·.1)))

/-- A word by its look. -/
def classify (text : String) : Except Misuse Word :=
  match text.toList with
  | '-' :: c :: cs =>
    let name := ('-' :: c :: cs).takeWhile (· != '=')
    let attached := ('-' :: c :: cs).dropWhile (· != '=')
    match Switch.ofSpelling? name with
    | some s => .ok (switch s (c == '-') attached)
    | none =>
      if c == '-' then ofShortened text name attached
      else
        match Switch.ofLetter? c with
        | some s => .ok (switch s false cs)
        | none => .ok (ofOther text)
  | _ => .ok (value text)

/-- The words of a command line. -/
def ofArguments : List String → Except Misuse (List Word)
  | [] => .ok []
  | text :: rest =>
    if text == "--" then .ok (separator :: rest.map value)
    else
      match classify text with
      | .error e => .error e
      | .ok w =>
        match ofArguments rest with
        | .error e => .error e
        | .ok ws => .ok (w :: ws)

end Word

end Brainfuck.CommandLine
