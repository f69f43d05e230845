/-
Errors of reading a program text. A `SourceError` names the path as the user
wrote it and the cause. What a failing call reports (`Trouble`) is boiled
down to one of three causes: there is no such file, the system refused for a
reason it gives, or something else that speaks for itself.
-/
import Brainfuck.Error.Hint
import Brainfuck.Value

namespace Brainfuck

/-- Why a program text could not be read. -/
inductive Cause where
  | missing
  | system (reason : String)
  | other (text : String)
  deriving DecidableEq, Repr

/-- A program text that could not be read. -/
structure SourceError where
  path : String
  cause : Cause
  deriving DecidableEq, Repr

namespace SourceError

/-- The wording of the error. A path is put between apostrophes as it is. -/
def message (e : SourceError) : String :=
  match e.cause with
  | .missing => "no such file: '" ++ e.path ++ "'"
  | .system reason => reason ++ ": '" ++ e.path ++ "'"
  | .other text => text

/-- The hint that goes with the error. -/
def hint? (e : SourceError) : Option Hint :=
  Hint.about? .source e.message

end SourceError

/-! ## Undecodable bytes -/

/-- Bytes that are not text in an encoding: the bytes from `start` on and
before `stop`, and why not. -/
structure DecodeError where
  codec : String
  bytes : List UInt8
  start : Int
  stop : Int
  reason : String
  deriving DecidableEq, Repr

namespace DecodeError

/-- The bad byte, if it is a single one. -/
def badByte? (e : DecodeError) : Option UInt8 :=
  if 0 ≤ e.start ∧ e.stop = e.start + 1 then e.bytes[e.start.toNat]? else none

/-- Where the bad bytes are; a single one is shown. -/
def place (e : DecodeError) : String :=
  match e.badByte? with
  | some b => "byte 0x" ++ Numeral.hex 2 b.toNat ++ " in position " ++ Numeral.ofInt e.start
  | none =>
    "bytes in position " ++ Numeral.ofInt e.start ++ "-" ++ Numeral.ofInt (e.stop - 1)

/-- The wording of the error. -/
def message (e : DecodeError) : String :=
  "'" ++ e.codec ++ "' codec can't decode " ++ e.place ++ ": " ++ e.reason

end DecodeError

/-! ## Reports of failing calls -/

/-- The family a failed system call is reported under. -/
inductive SystemFamily where
  /-- No particular family: the error number decides. -/
  | general
  /-- The file does not exist. -/
  | missingFile
  /-- Some other particular family. -/
  | particular
  deriving DecidableEq, Repr

/-- What a failing call reports. The details of a failed system call are, in
this order, the error number, the reason, and the file concerned; after them
may come a number that is not used here and a second file. -/
inductive Trouble where
  | system (family : SystemFamily) (details : List Value)
  | key (details : List Value)
  | undecodable (e : DecodeError)
  | plain (details : List Value)

namespace Trouble

/-- Details in their own words: nothing, one of them alone, or all of them. -/
def textOf : List Value → String
  | [] => ""
  | [v] => v.plain
  | vs => Text.tuple (Value.shownAll vs)

/-- A file named in a report, if one is. -/
def fileText : Value → Option String
  | .none => none
  | v => some v.shown

/-- A failed system call in words. -/
def systemText (details : List Value) : String :=
  match details with
  | [number, reason] => "[Errno " ++ number.plain ++ "] " ++ reason.plain
  | number :: reason :: file :: more =>
    let said := "[Errno " ++ number.plain ++ "] " ++ reason.plain
    match more with
    | [] | [_] => said ++ ((fileText file).map (": " ++ ·)).getD ""
    | [_, second] =>
      match fileText file with
      | none => said
      | some f => said ++ ": " ++ f ++ ((fileText second).map (" -> " ++ ·)).getD ""
    | _ => textOf details
  | _ => textOf details

/-- The reason a failed system call gives, if it is told apart from the rest. -/
def reason? (details : List Value) : Option Value :=
  if 2 ≤ details.length && details.length ≤ 5 then details[1]? else none

/-- Whether a failed system call says that the file does not exist. -/
def saysMissing (family : SystemFamily) (details : List Value) : Bool :=
  match family, details with
  | .missingFile, _ => true
  | .general, .int 2 :: _ => (reason? details).isSome
  | _, _ => false

/-- The report in its own words. -/
def text : Trouble → String
  | system _ details => systemText details
  | key [v] => v.shown
  | key details => textOf details
  | undecodable e => e.message
  | plain details => textOf details

/-- The cause a report comes down to. -/
def cause : Trouble → Cause
  | t@(system family details) =>
    if saysMissing family details then .missing
    else
      match reason? details with
      | some reason => if reason.isGiven then .system reason.plain else .other t.text
      | none => .other t.text
  | t => .other t.text

end Trouble

end Brainfuck
