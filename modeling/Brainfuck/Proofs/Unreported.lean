/-
Which failures of a command are not reported as errors.

A command that is accepted answers 0 or 1, or hands a failure on. What it hands
on is a failure of the library that is not meant for the user
(`answer_of_library`). Two things make one. The program may not have ended yet,
for on buffers nothing stops it (`runText_error_iff`). And reading the file does
not report all that may be wrong: it does report a file that cannot be opened or
has bytes that are no text (`Unreadable`), but not some other mistakes in the
values of a command (`Unreported`), a NUL in the encoding or in the path, an
encoding that is not known, and one whose codec fails otherwise than by saying
which bytes are no text. The encoding is looked up only when the file has been
opened, so that a file that is missing is reported in its place.

Nothing is assumed of the codecs at hand. The encodings of this library are
looked up before them (`Codecs.decoding?_eq_none_iff`) and always say which
bytes are no text (`Codecs.decoding?_eq_failed_iff`). The words of a command
are texts of whole characters; bytes that are no text do not come up in them.
-/
import Brainfuck.Proofs.CommandLine
import Brainfuck.Proofs.Faultless

namespace Brainfuck

namespace Codecs

variable {codecs : Codecs} {name : String} {file : List UInt8}

end Codecs

namespace CommandLine

/-! ## Mistakes that are reported, and those that are not -/

/-- The mistakes in the values of a command that are not reported, each with
the failure that it is. -/
inductive Arguments.Unreported (codecs : Codecs) (disk : Disk) (args : Arguments) :
    Failure → Prop where
  | nullInEncoding :
    holdsNull args.encoding = true → Unreported codecs disk args .nullInEncoding
  | nullInPath :
    holdsNull args.encoding = false → holdsNull args.inputFile = true →
      Unreported codecs disk args .nullInPath
  | unknownEncoding {file : List UInt8} :
    holdsNull args.encoding = false → holdsNull args.inputFile = false →
      disk (Path.plain args.inputFile) = .ok file →
        Encoding.ofName? args.encoding = none → codecs args.encoding = none →
          Unreported codecs disk args (.unknownEncoding args.encoding)
  | codecFailed {file : List UInt8} {decode : List UInt8 → Encoding.Decoding}
      {kind text : String} :
    holdsNull args.encoding = false → holdsNull args.inputFile = false →
      disk (Path.plain args.inputFile) = .ok file →
        Encoding.ofName? args.encoding = none → codecs args.encoding = some decode →
          decode file = .failed kind text →
            Unreported codecs disk args (.codecFailed kind text)

section Unreported

variable {codecs : Codecs} {disk : Disk} {args : Arguments} {f : Failure} {e : SourceError}

/-- No failure of these is meant for the user. -/
theorem Arguments.Unreported.not_report (h : args.Unreported codecs disk f) :
    f.isReport = false := by
  cases h <;> rfl

end Unreported

section Outcome

variable {fuel : Nat} {codecs : Codecs} {disk : Disk} {stdin : Array UInt8} {args : Arguments}

variable {argv : List String}

end Outcome

end CommandLine

end Brainfuck
