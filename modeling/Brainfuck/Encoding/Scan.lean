/-
Decoding one character at a time. What an encoding says is how the next
character is read off the bytes that are left (`Head`); going through a whole
file is the same for every encoding. The first bytes that cannot be read end
the scan, with their place.
-/
import Brainfuck.Error.Source

namespace Brainfuck.Encoding

/-- What stands at the front of bytes that are left. Beside its first byte it
takes up `more` bytes. -/
inductive Head where
  | char (c : Char) (more : Nat)
  | bad (more : Nat) (reason : String)
  deriving DecidableEq, Repr

/-- Bytes that could not be read, by place, and why not. -/
structure Flaw where
  start : Nat
  stop : Nat
  reason : String
  deriving DecidableEq, Repr

/-- Reads all bytes, the first of which is at place `pos`; `read` are the
characters already read, last one first. -/
def scanFrom (head : UInt8 → List UInt8 → Head) (pos : Nat) (read : List Char) :
    List UInt8 → Except Flaw (List Char)
  | [] => .ok read.reverse
  | b :: bs =>
    match head b bs with
    | .char c more => scanFrom head (pos + 1 + more) (c :: read) (bs.drop more)
    | .bad more reason => .error ⟨pos, pos + 1 + more, reason⟩
termination_by bs => bs.length
decreasing_by simp only [List.length_drop, List.length_cons]; omega

/-- Reads all bytes. -/
def scan (head : UInt8 → List UInt8 → Head) (bs : List UInt8) : Except Flaw (List Char) :=
  scanFrom head 0 [] bs

end Brainfuck.Encoding
