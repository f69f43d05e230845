/-
What a run may be asked for beside its program and its input: the size of the
memory and the encoding of the program file. Options are made from what the
caller gives only if the size is valid; the encoding is looked up when a file
has been opened.

Options make a check of their own, before there is any memory, and it is the
stricter one: what passes it makes a memory (`MemorySize.ofValue_of_options`),
but an integer of fixed width would do for a memory, and is refused here.
-/
import Brainfuck.MemorySize

namespace Brainfuck

/-- The options of a run. -/
structure Options where
  memorySize : MemorySize
  encoding : String

namespace Options

/-- The encoding of a file when none is asked for. -/
def usualEncoding : String := "utf-8"

/-- The options of a run that asks for nothing. -/
def usual : Options := ⟨.usual, usualEncoding⟩

/-- The options that a caller asks for. -/
def ofValue (memorySize : Value) (encoding : String) : Except ConfigError Options :=
  match memorySize with
  | .int (.ofNat (n + 1)) => .ok ⟨⟨n + 1, n.succ_pos⟩, encoding⟩
  | v => .error ⟨"memory_size", v⟩

end Options

/-- A value that options accept makes a memory of the size they have. -/
theorem MemorySize.ofValue_of_options {v : Value} {encoding : String} {options : Options}
    (h : Options.ofValue v encoding = .ok options) :
    MemorySize.ofValue v = .ok options.memorySize := by
  unfold Options.ofValue at h
  split at h
  · cases h; rfl
  · cases h

/-- A value that makes a memory is accepted by options too, or is an integer
of fixed width. -/
theorem Options.ofValue_of_memorySize {v : Value} {size : MemorySize} (encoding : String)
    (h : MemorySize.ofValue v = .ok size) :
    ofValue v encoding = .ok ⟨size, encoding⟩ ∨ ∃ shown, v = .fixedInt size.cells shown := by
  unfold MemorySize.ofValue at h
  split at h
  · cases h; exact .inl rfl
  · cases h; exact .inr ⟨_, rfl⟩
  · cases h

end Brainfuck
