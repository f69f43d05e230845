/-
The memory of a program: a circular tape of 8-bit cells with a cursor. The
cursor always stands on a cell, so reading and writing cannot fail; moving
off either end leads to the other one, and counting past either end of a
cell's range leads to the other end too.
-/
import Brainfuck.MemorySize

namespace Brainfuck

/-- A circular tape with its cursor. -/
structure Tape where
  cells : Array UInt8
  cursor : Nat
  cursor_lt : cursor < cells.size
  deriving DecidableEq, Repr

namespace Tape

/-- A tape of zeros with the cursor on the first cell. -/
def blank (size : MemorySize) : Tape :=
  ⟨Array.replicate size.cells 0, 0, by simpa using size.cells_pos⟩

/-- The number of cells. -/
def size (t : Tape) : Nat :=
  t.cells.size

/-- The cell under the cursor. -/
def read : Tape → UInt8
  | ⟨cells, cursor, _⟩ => cells[cursor]

/-- Puts a byte into the cell under the cursor. -/
def put (b : UInt8) : Tape → Tape
  | ⟨cells, cursor, h⟩ => ⟨cells.set cursor b h, cursor, by simpa using h⟩

/-- The byte that stands for an integer: its remainder modulo 256. -/
def byteOf (v : Int) : UInt8 :=
  UInt8.ofNat (v % 256).toNat

/-- Writes an integer, modulo 256, into the cell under the cursor. -/
def write (v : Int) (t : Tape) : Tape :=
  t.put (byteOf v)

/-- Makes all cells zero and puts the cursor on the first one. -/
def clear : Tape → Tape
  | ⟨cells, _, h⟩ => ⟨Array.replicate cells.size 0, 0, by simpa using Nat.zero_lt_of_lt h⟩

/-- Moves the cursor to the next cell, from the last cell to the first. -/
def advance : Tape → Tape
  | ⟨cells, cursor, h⟩ =>
    if atEnd : cursor + 1 = cells.size then ⟨cells, 0, Nat.zero_lt_of_lt h⟩
    else ⟨cells, cursor + 1, by omega⟩

/-- Moves the cursor to the previous cell, from the first cell to the last. -/
def retreat : Tape → Tape
  | ⟨cells, 0, h⟩ => ⟨cells, cells.size - 1, by omega⟩
  | ⟨cells, cursor + 1, h⟩ => ⟨cells, cursor, by omega⟩

/-- Adds one to the cell under the cursor; 255 becomes 0. -/
def increment : Tape → Tape
  | ⟨cells, cursor, h⟩ => ⟨cells.set cursor (cells[cursor] + 1) h, cursor, by simpa using h⟩

/-- Takes one from the cell under the cursor; 0 becomes 255. -/
def decrement : Tape → Tape
  | ⟨cells, cursor, h⟩ => ⟨cells.set cursor (cells[cursor] - 1) h, cursor, by simpa using h⟩

/-- Moves the cursor by a number of cells, backwards if it is negative. -/
def move : Int → Tape → Tape
  | .ofNat n, t => Nat.repeat advance n t
  | .negSucc n, t => Nat.repeat retreat (n + 1) t

/-! ## The size stays -/

@[simp] theorem size_blank (size : MemorySize) : (blank size).size = size.cells :=
  Array.size_replicate

@[simp] theorem size_put (b : UInt8) (t : Tape) : (t.put b).size = t.size := by
  obtain ⟨cells, cursor, h⟩ := t
  exact Array.size_set h

@[simp] theorem size_write (v : Int) (t : Tape) : (t.write v).size = t.size :=
  t.size_put (byteOf v)

@[simp] theorem size_clear (t : Tape) : t.clear.size = t.size :=
  Array.size_replicate

@[simp] theorem size_advance (t : Tape) : t.advance.size = t.size := by
  obtain ⟨cells, cursor, h⟩ := t
  by_cases atEnd : cursor + 1 = cells.size
  · simp only [advance, atEnd]; rfl
  · simp only [advance, atEnd]; rfl

@[simp] theorem size_retreat (t : Tape) : t.retreat.size = t.size := by
  obtain ⟨cells, cursor, h⟩ := t
  cases cursor <;> rfl

@[simp] theorem size_increment (t : Tape) : t.increment.size = t.size := by
  obtain ⟨cells, cursor, h⟩ := t
  exact Array.size_set h

@[simp] theorem size_decrement (t : Tape) : t.decrement.size = t.size := by
  obtain ⟨cells, cursor, h⟩ := t
  exact Array.size_set h

@[simp] theorem size_move (n : Int) (t : Tape) : (t.move n).size = t.size := by
  have repeated (f : Tape → Tape) (hf : ∀ t, (f t).size = t.size) (k : Nat) :
      (Nat.repeat f k t).size = t.size := by
    induction k with
    | zero => rfl
    | succ k ih => exact (hf _).trans ih
  cases n with
  | ofNat k => exact repeated advance size_advance k
  | negSucc k => exact repeated retreat size_retreat (k + 1)

@[simp] theorem read_clear (t : Tape) : t.clear.read = 0 := by
  obtain ⟨cells, cursor, h⟩ := t
  simp [clear, read]

/-- Clearing leaves nothing but the size. -/
theorem clear_eq_blank {t : Tape} {size : MemorySize} (h : t.size = size.cells) :
    t.clear = blank size := by
  obtain ⟨cells, cursor, hc⟩ := t
  have hcells : cells.size = size.cells := h
  simp only [clear, blank, hcells]

/-! ## Views -/

/-- The cell that a bound of a slice falls on among `size` cells: negative
bounds count from the end, and what lies outside is moved to the nearer end. -/
def bound (size : Nat) (i : Int) : Nat :=
  if i < 0 then (i + size).toNat else min i.toNat size

/-- The cells from `start` on and before `stop`; a missing bound is open. -/
def snapshot (t : Tape) (start stop : Option Int) : Array UInt8 :=
  t.cells.extract ((start.map (bound t.size)).getD 0) ((stop.map (bound t.size)).getD t.size)

/-- The cells that are not zero, with their positions, in order. -/
def nonzero (t : Tape) : List (Nat × UInt8) :=
  t.cells.toList.zipIdx.filterMap fun p => if p.1 = 0 then none else some (p.2, p.1)

/-- The size and the cursor in words. -/
def shown (t : Tape) : String :=
  "Tape(size=" ++ Numeral.ofNat t.size ++ ", current_idx=" ++ Numeral.ofNat t.cursor ++ ")"

end Tape

end Brainfuck
