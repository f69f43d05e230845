/-
The encodings that a program file may be in, the names they go by, and how
the bytes of a file become a text. In a text every line ends in a line feed,
whichever of the three usual line ends stands in the file.

A name is understood whatever its case and whatever stands between its words.

The encodings of this library are not all there are. What other names stand
for is up to the codecs at hand where a program runs (`Codecs`), of which
nothing is known: one may give a text, or say which bytes are no text, or fail
in a way of its own.
-/
import Brainfuck.Encoding.Utf8
import Brainfuck.Encoding.Utf16

namespace Brainfuck

/-- An encoding of text as bytes. -/
inductive Encoding where
  | ascii
  | latin1
  | utf8
  /-- UTF-8 that may start with a mark. -/
  | utf8Marked
  | utf16 (order : Encoding.Utf16.Order)
  deriving DecidableEq, Repr

namespace Encoding

/-! ## Names -/

/-- A name in plain form: lower case, and one underscore in place of whatever
stands between two words; nothing around them. `gap` says that something has
been left out since the last character of a word. -/
def plainFrom (gap : Bool) : List Char → List Char
  | [] => []
  | c :: cs =>
    if c.isAlphanum || c == '.' then
      if gap then '_' :: c.toLower :: plainFrom false cs else c.toLower :: plainFrom false cs
    else plainFrom true cs

/-- A name in plain form. -/
def plainName (name : String) : String :=
  String.ofList (plainFrom false (name.toList.dropWhile fun c => !(c.isAlphanum || c == '.')))

/-- The names in plain form that an encoding is listed under. -/
def aliases : List (String × Encoding) :=
  [("646", .ascii), ("ansi_x3.4_1968", .ascii), ("ansi_x3_4_1968", .ascii),
    ("ansi_x3.4_1986", .ascii), ("cp367", .ascii), ("csascii", .ascii), ("ibm367", .ascii),
    ("iso646_us", .ascii), ("iso_646.irv_1991", .ascii), ("iso_ir_6", .ascii), ("us", .ascii),
    ("us_ascii", .ascii),
    ("8859", .latin1), ("cp819", .latin1), ("csisolatin1", .latin1), ("ibm819", .latin1),
    ("iso8859", .latin1), ("iso8859_1", .latin1), ("iso_8859_1", .latin1),
    ("iso_8859_1_1987", .latin1), ("iso_ir_100", .latin1), ("l1", .latin1), ("latin", .latin1),
    ("latin1", .latin1),
    ("u8", .utf8), ("utf", .utf8), ("utf8", .utf8), ("utf8_ucs2", .utf8), ("utf8_ucs4", .utf8),
    ("cp65001", .utf8),
    ("unicodebigunmarked", .utf16 .bigEndian), ("utf_16be", .utf16 .bigEndian),
    ("unicodelittleunmarked", .utf16 .littleEndian), ("utf_16le", .utf16 .littleEndian)]

/-- The proper names of the encodings in plain form. -/
def properNames : List (String × Encoding) :=
  [("ascii", .ascii), ("latin_1", .latin1), ("utf_8", .utf8), ("utf_8_sig", .utf8Marked),
    ("utf_16_be", .utf16 .bigEndian), ("utf_16_le", .utf16 .littleEndian)]

/-- A plain name with underscores in place of dots. -/
def dotless (name : String) : String :=
  String.ofList (name.toList.map fun c => if c == '.' then '_' else c)

/-- The encoding of a name. Among the listed names dots may stand for
underscores; a proper name has none. -/
def ofName? (name : String) : Option Encoding :=
  let plain := plainName name
  aliases.lookup plain <|> aliases.lookup (dotless plain) <|> properNames.lookup plain

/-- The name an encoding goes by in messages. -/
def codec : Encoding → String
  | ascii => "ascii"
  | latin1 => "latin-1"
  | utf8 | utf8Marked => "utf-8"
  | utf16 .littleEndian => "utf-16-le"
  | utf16 .bigEndian => "utf-16-be"

/-! ## Decoding -/

/-- The character at the front of bytes that are left. -/
def head : Encoding → UInt8 → List UInt8 → Head
  | ascii, b, _ =>
    if b.toNat < 0x80 then .char (Char.ofNat b.toNat) 0 else .bad 0 "ordinal not in range(128)"
  | latin1, b, _ => .char (Char.ofNat b.toNat) 0
  | utf8, b, bs | utf8Marked, b, bs => Utf8.head b bs
  | utf16 order, b, bs => Utf16.head order b bs

/-- The bytes of a file that hold its text. -/
def payload : Encoding → List UInt8 → List UInt8
  | utf8Marked, bs => Utf8.dropMark bs
  | _, bs => bs

/-- The characters of a file. Places in an error count from the first byte
that holds text. -/
def decode (e : Encoding) (file : List UInt8) : Except DecodeError (List Char) :=
  let bytes := e.payload file
  match scan e.head bytes with
  | .ok cs => .ok cs
  | .error flaw => .error ⟨e.codec, bytes, flaw.start, flaw.stop, flaw.reason⟩

/-- A text with a line feed for every line end: a carriage return counts as
one, together with a line feed that follows it. -/
def lineFeeds : List Char → List Char
  | [] => []
  | '\r' :: '\n' :: cs => '\n' :: lineFeeds cs
  | '\r' :: cs => '\n' :: lineFeeds cs
  | c :: cs => c :: lineFeeds cs

/-- The text of a file. -/
def readText (e : Encoding) (file : List UInt8) : Except DecodeError String :=
  match e.decode file with
  | .ok cs => .ok (String.ofList (lineFeeds cs))
  | .error d => .error d

/-! ## Codecs at hand -/

/-- What comes of decoding a file: its text, or the bytes that are none, or a
failure of another kind, which is not one of the system either. Half a
character in a text stands as the character U+FFFD; both are comment. -/
inductive Decoding where
  | text (s : String)
  | undecodable (d : DecodeError)
  | failed (kind message : String)
  deriving DecidableEq, Repr

/-- A decoding whose text has a line feed for every line end. -/
def Decoding.withLineFeeds : Decoding → Decoding
  | text s => text (String.ofList (lineFeeds s.toList))
  | decoding => decoding

/-- What comes of decoding a file in one of the encodings. -/
def decoding (e : Encoding) (file : List UInt8) : Decoding :=
  match e.readText file with
  | .ok s => .text s
  | .error d => .undecodable d

/-! ## Encoding -/

/-- The bytes of a character, if the encoding has the character. -/
def encodeChar? : Encoding → Char → Option (List UInt8)
  | ascii, c => if c.toNat < 0x80 then some [UInt8.ofNat c.toNat] else none
  | latin1, c => if c.toNat < 0x100 then some [UInt8.ofNat c.toNat] else none
  | utf8, c | utf8Marked, c => some (Utf8.encodeChar c)
  | utf16 order, c => some (Utf16.encodeChar order c)

/-- The bytes of characters, if the encoding has them all. -/
def encodeChars? (e : Encoding) : List Char → Option (List UInt8)
  | [] => some []
  | c :: cs =>
    match e.encodeChar? c, e.encodeChars? cs with
    | some bs, some rest => some (bs ++ rest)
    | _, _ => none

/-- The file that holds a text, if the encoding has all of its characters. A
marked file starts with the mark. -/
def encode? (e : Encoding) (s : String) : Option (List UInt8) :=
  match e with
  | utf8Marked => (e.encodeChars? s.toList).map (Utf8.mark ++ ·)
  | _ => e.encodeChars? s.toList

end Encoding

/-- The codecs at hand beside the encodings above, each by any of its names. -/
abbrev Codecs : Type :=
  String → Option (List UInt8 → Encoding.Decoding)

namespace Codecs

/-- No other codecs. -/
def empty : Codecs :=
  fun _ => none

/-- What comes of decoding a file under a name, if the name is known. -/
def decoding? (codecs : Codecs) (name : String) (file : List UInt8) : Option Encoding.Decoding :=
  match Encoding.ofName? name with
  | some e => some (e.decoding file)
  | none => (codecs name).map fun decode => (decode file).withLineFeeds

end Codecs

end Brainfuck
