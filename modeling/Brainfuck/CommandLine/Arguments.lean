/-
What a command line asks for. Its words act from left to right: the first
value that belongs to no switch names the program file, and of several values
for one switch the last one counts. Words that mean nothing are gathered and
refused at the end, after a missing program file.
-/
import Brainfuck.CommandLine.Word
import Brainfuck.MemorySize
import Brainfuck.Options

namespace Brainfuck.CommandLine

/-- Why a command line is not carried out: it asks for help, or it is wrong. -/
inductive Exit where
  | help
  | misuse (e : Misuse)
  deriving DecidableEq, Repr

/-- What a command line asks for. -/
structure Arguments where
  inputFile : String
  memorySize : Int
  encoding : String
  verbose : Bool
  deriving DecidableEq, Repr

/-- What has been asked for so far, and the words that mean nothing. -/
structure Reading where
  inputFile? : Option String
  memorySize : Int
  encoding : String
  verbose : Bool
  extras : List String
  deriving DecidableEq, Repr

namespace Reading

/-- Nothing has been asked for. -/
def start : Reading :=
  ⟨none, MemorySize.usual.cells, Options.usualEncoding, false, []⟩

/-- Acts on a switch and the value that belongs to it, if one does. -/
def act (r : Reading) (s : Switch) (value : String) : Except Exit Reading :=
  match s with
  | .help => .error .help
  | .verbose => .ok { r with verbose := true }
  | .encoding => .ok { r with encoding := value }
  | .memorySize =>
    match Numeral.readInt? value.toList with
    | some n => .ok { r with memorySize := n }
    | none => .error (.misuse (.invalidInteger value))

/-- Acts on switches without a value. -/
def actAll (r : Reading) : List Switch → Except Exit Reading
  | [] => .ok r
  | s :: ss =>
    match r.act s "" with
    | .ok r => r.actAll ss
    | .error e => .error e

/-- Sets aside a word that means nothing. -/
def setAside (r : Reading) (word : String) : Reading :=
  { r with extras := r.extras ++ [word] }

/-- The file and the settings, if nothing is missing and nothing left over. -/
def finish (r : Reading) : Except Exit Arguments :=
  match r.inputFile? with
  | none => .error (.misuse .missingFile)
  | some file =>
    if r.extras.isEmpty then .ok ⟨file, r.memorySize, r.encoding, r.verbose⟩
    else .error (.misuse (.unrecognized r.extras))

end Reading

/-! ## What is attached to a switch -/

/-- How the text attached to a switch ends: with a value for the last switch
it spells, with a switch and nothing after it, or with letters that mean
nothing. -/
inductive Last where
  | valued (s : Switch) (value : List Char)
  | bare (s : Switch)
  | meaningless (word : List Char)
  deriving DecidableEq, Repr

/-- The switches that one word spells: some that take no value, and the last. -/
structure Spelled where
  flags : List Switch
  last : Last
  deriving DecidableEq, Repr

/-- A word that spells one more switch in front. -/
def Spelled.cons (s : Switch) (w : Spelled) : Spelled :=
  ⟨s :: w.flags, w.last⟩

/-- An attached text as a value: without its equals sign. -/
def attachedValue : List Char → List Char
  | '=' :: value => value
  | value => value

/-- The text attached to a switch after one dash: the value if the switch
takes one, else more letters, each a switch of its own. -/
def spellLetters (s : Switch) (attached : List Char) : Except Misuse Spelled :=
  match attached with
  | [] => .ok ⟨[], .bare s⟩
  | c :: more =>
    if s.takesValue then .ok ⟨[], .valued s (attachedValue (c :: more))⟩
    else if c == '=' || c == '-' then
      .error (.unusedValue s (String.ofList (attachedValue (c :: more))))
    else
      match Switch.ofLetter? c with
      | none => .ok ⟨[s], .meaningless ('-' :: c :: more)⟩
      | some next => (spellLetters next more).map (Spelled.cons s)

/-- The switches that a word spells. Two dashes make one switch only. -/
def spell (s : Switch) (long : Bool) (attached : List Char) : Except Misuse Spelled :=
  if long && !s.takesValue && !attached.isEmpty then
    .error (.unusedValue s (String.ofList (attachedValue attached)))
  else spellLetters s attached

/-! ## Words in order -/

namespace Reading

/-- Acts on the words in order. A separator is passed over if it stands next
to the program file, as it does when `beside` holds: no file has been named
yet, or the word before named it. -/
def readWords (r : Reading) (beside : Bool) : List Word → Except Exit Reading
  | [] => .ok r
  | .unknown text :: ws => (r.setAside text).readWords r.inputFile?.isNone ws
  | .separator :: ws => (if beside then r else r.setAside "--").readWords false ws
  | .value text :: ws =>
    match r.inputFile? with
    | none => { r with inputFile? := some text }.readWords true ws
    | some _ => (r.setAside text).readWords false ws
  | .switch s long attached :: ws =>
    match spell s long attached with
    | .error e => .error (.misuse e)
    | .ok ⟨flags, .meaningless word⟩ =>
      match (r.setAside (String.ofList word)).actAll flags with
      | .error e => .error e
      | .ok r => r.readWords r.inputFile?.isNone ws
    | .ok ⟨flags, .valued s value⟩ =>
      match r.actAll flags with
      | .error e => .error e
      | .ok r =>
        match r.act s (String.ofList value) with
        | .error e => .error e
        | .ok r => r.readWords r.inputFile?.isNone ws
    | .ok ⟨flags, .bare s⟩ =>
      if s.takesValue then
        match ws with
        | .value text :: ws =>
          match r.actAll flags with
          | .error e => .error e
          | .ok r =>
            match r.act s text with
            | .error e => .error e
            | .ok r => r.readWords r.inputFile?.isNone ws
        | _ => .error (.misuse (.missingValue s))
      else
        match r.actAll (flags ++ [s]) with
        | .error e => .error e
        | .ok r => r.readWords r.inputFile?.isNone ws

end Reading

/-- What a command line asks for. -/
def Arguments.parse (argv : List String) : Except Exit Arguments :=
  match Word.ofArguments argv with
  | .error e => .error (.misuse e)
  | .ok words =>
    match Reading.start.readWords true words with
    | .error e => .error e
    | .ok r => r.finish

end Brainfuck.CommandLine
