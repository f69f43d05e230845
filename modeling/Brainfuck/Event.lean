/-
What an interpreter notes down while it works, and the line of the log that
each note becomes.
-/
import Brainfuck.Text.Numeral

namespace Brainfuck

/-- Something worth a line in the log. -/
inductive Event where
  /-- A tape of so many cells was made. -/
  | allocated (cells : Nat)
  /-- An execution began, of so many instructions with loops nested so deep. -/
  | executing (length depth : Nat)
  /-- For the first time in this execution there was no input for the cell. -/
  | exhausted (cell : Nat)
  /-- An execution ended by itself, having written so many bytes. -/
  | finished (written : Nat)
  deriving DecidableEq, Repr

namespace Event

/-- The part of the program that an event comes from. -/
def origin : Event → String
  | allocated _ => "bfi.tape"
  | _ => "bfi.interpreter"

/-- An event in words. -/
def message : Event → String
  | allocated cells => "allocated tape with " ++ Numeral.ofNat cells ++ " cells"
  | executing length depth =>
    "executing " ++ Numeral.ofNat length ++ " top-level instructions (loop depth " ++
      Numeral.ofNat depth ++ ")"
  | exhausted cell =>
    "input exhausted at cell " ++ Numeral.ofNat cell ++ ", leaving cells unchanged"
  | finished written => "execution finished, " ++ Numeral.ofNat written ++ " bytes written"

/-- The line of the log. -/
def line (e : Event) : String :=
  e.origin ++ ": DEBUG: " ++ e.message

end Event

end Brainfuck
