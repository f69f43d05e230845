/-
The size of a memory: a positive number of cells. Anything else that is
asked for is refused with a `ConfigError`, truth values and floating-point
numbers included. A memory takes its size from integers of any kind.
-/
import Brainfuck.Error.Hint
import Brainfuck.Value

namespace Brainfuck

/-- A setting that must be a positive integer and is not. -/
structure ConfigError where
  field : String
  value : Value

namespace ConfigError

/-- The wording of the error. -/
def message (e : ConfigError) : String :=
  "invalid " ++ e.field ++ ": " ++ e.value.shown ++ " (must be a positive integer)"

/-- The hint that goes with the error. -/
def hint? (e : ConfigError) : Option Hint :=
  Hint.about? .config e.message

end ConfigError

/-- A positive number of cells. -/
structure MemorySize where
  cells : Nat
  cells_pos : 0 < cells

namespace MemorySize

/-- The size of a memory when none is asked for. -/
def usual : MemorySize := ⟨30000, by decide⟩

/-- The size of the memory that is made when a value is asked for. -/
def ofValue (v : Value) : Except ConfigError MemorySize :=
  match v with
  | .int (.ofNat (n + 1)) | .fixedInt (.ofNat (n + 1)) _ => .ok ⟨n + 1, n.succ_pos⟩
  | v => .error ⟨"memory_size", v⟩

end MemorySize

end Brainfuck
