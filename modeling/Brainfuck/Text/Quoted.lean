/-
Texts and bytes as they are shown inside a message: between quotes, with
escapes for whatever cannot be printed. The quote is an apostrophe, unless
the text holds an apostrophe and no quotation mark.
-/
import Brainfuck.Text.Numeral
import Brainfuck.Text.Printable

namespace Brainfuck.Text

/-- The apostrophe. -/
def apostrophe : Char := '\x27'

/-- The quotation mark. -/
def quotationMark : Char := '\x22'

/-- The quote to put around a text. -/
def quoteFor (cs : List Char) : Char :=
  if cs.contains apostrophe && !cs.contains quotationMark then quotationMark else apostrophe

/-- The escape of a character by its code, as short as the code allows. -/
def codeEscape (n : Nat) : String :=
  if n < 0x100 then "\\x" ++ Numeral.hex 2 n
  else if n < 0x10000 then "\\u" ++ Numeral.hex 4 n
  else "\\U" ++ Numeral.hex 8 n

/-- A character as it stands between two of the given quotes, where
`printable` says which characters may stand for themselves. -/
def escape (printable : Char → Bool) (quote c : Char) : String :=
  if c == quote || c == '\\' then String.ofList ['\\', c]
  else if c == '\n' then "\\n"
  else if c == '\r' then "\\r"
  else if c == '\t' then "\\t"
  else if printable c then String.singleton c
  else codeEscape c.toNat

/-- Characters between quotes. -/
def quotedBy (printable : Char → Bool) (cs : List Char) : String :=
  let quote := quoteFor cs
  String.singleton quote ++ String.join (cs.map (escape printable quote)) ++ String.singleton quote

/-- A text between quotes. -/
def quoted (s : String) : String :=
  quotedBy isPrintable s.toList

/-- Bytes between quotes, after the letter that marks them: only ASCII is
printed as it is. -/
def quotedBytes (bs : List UInt8) : String :=
  "b" ++ quotedBy (fun c => isPrintable c && c.toNat < 0x80) (bs.map fun b => Char.ofNat b.toNat)

/-! ## Enumerations -/

/-- Texts one after another with commas between them. -/
def enumerated (ss : List String) : String :=
  String.intercalate ", " ss

/-- An enumeration in parentheses, where a single text is followed by a comma. -/
def tuple : List String → String
  | [s] => "(" ++ s ++ ",)"
  | ss => "(" ++ enumerated ss ++ ")"

end Brainfuck.Text
