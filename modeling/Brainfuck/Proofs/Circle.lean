/-
The circular tape counted round and round: every integer falls on a cell, and
two integers on the same one exactly when they are equal modulo the number of
cells (`Tape.cellAt`). Seen so, moving the cursor is adding one or taking one
away, whichever end it may pass (`cursor_advance`, `cursor_retreat`), and a
cell that is put is put at every integer that falls on it (`cellAt_put`).

What the actions undo follows: moves there and back leave the tape as it was,
counting up and down too, and so do as many moves one way as there are cells,
and 256 counts one way.
-/
import Mathlib.Logic.Function.Iterate
import Brainfuck.Tape

namespace Brainfuck.Tape

theorem eq_of_cells_cursor {t u : Tape} (hcells : t.cells = u.cells) (hcursor : t.cursor = u.cursor) :
    t = u := by
  obtain ⟨cells, cursor, h⟩ := t
  cases hcells
  cases hcursor
  rfl

theorem size_pos (t : Tape) : 0 < t.size :=
  Nat.zero_lt_of_lt t.cursor_lt

/-! ## Counting round and round -/

theorem emod_size_lt (t : Tape) (p : Int) : (p % t.cells.size).toNat < t.cells.size := by
  have hpos : (0 : Int) < t.cells.size := Int.natCast_pos.mpr t.size_pos
  have hnonneg : 0 ≤ p % (t.cells.size : Int) := Int.emod_nonneg p (by omega)
  have hlt : p % (t.cells.size : Int) < t.cells.size := Int.emod_lt_of_pos p hpos
  omega

/-- The cell that an integer falls on. -/
def cellAt (t : Tape) (p : Int) : UInt8 :=
  have := t.emod_size_lt p
  t.cells[(p % t.cells.size).toNat]

theorem cellAt_congr {t : Tape} {p q : Int} (h : p % t.size = q % t.size) :
    t.cellAt p = t.cellAt q := by
  have hindex : (p % (t.cells.size : Int)).toNat = (q % (t.cells.size : Int)).toNat :=
    congrArg Int.toNat h
  simp only [cellAt, hindex]

theorem cellAt_natCast (t : Tape) {k : Nat} (h : k < t.cells.size) : t.cellAt k = t.cells[k] := by
  have hindex : ((k : Int) % (t.cells.size : Int)).toNat = k := by
    rw [Int.emod_eq_of_lt (Int.natCast_nonneg k) (Int.ofNat_lt.mpr h)]
    exact Int.toNat_natCast k
  simp only [cellAt, hindex]

theorem cursor_emod (t : Tape) : (t.cursor : Int) % t.size = t.cursor :=
  Int.emod_eq_of_lt (Int.natCast_nonneg _) (Int.ofNat_lt.mpr t.cursor_lt)

theorem cellAt_cursor (t : Tape) : t.cellAt t.cursor = t.read :=
  t.cellAt_natCast t.cursor_lt

/-! ## Clearing and putting -/

@[simp] theorem cursor_clear (t : Tape) : t.clear.cursor = 0 := rfl

@[simp] theorem cellAt_clear (t : Tape) (p : Int) : t.clear.cellAt p = 0 := by
  simp [cellAt, clear]

@[simp] theorem cursor_put (b : UInt8) (t : Tape) : (t.put b).cursor = t.cursor := rfl

theorem cellAt_put (b : UInt8) (t : Tape) (p : Int) :
    (t.put b).cellAt p = if p % t.size = t.cursor then b else t.cellAt p := by
  have hnonneg : 0 ≤ p % (t.cells.size : Int) :=
    Int.emod_nonneg p (Int.natCast_ne_zero.mpr (Nat.ne_of_gt t.size_pos))
  have hindex : p % (t.size : Int) = t.cursor ↔ t.cursor = (p % (t.cells.size : Int)).toNat := by
    show p % (t.cells.size : Int) = t.cursor ↔ _
    omega
  simp only [hindex]
  obtain ⟨cells, cursor, h⟩ := t
  simp [cellAt, put, Array.getElem_set]

@[simp] theorem read_put (b : UInt8) (t : Tape) : (t.put b).read = b := by
  rw [← cellAt_cursor, cellAt_put, cursor_put, if_pos t.cursor_emod]

@[simp] theorem put_put (a b : UInt8) (t : Tape) : (t.put a).put b = t.put b := by
  refine eq_of_cells_cursor ?_ rfl
  obtain ⟨cells, cursor, h⟩ := t
  exact Array.set_set _ _

@[simp] theorem put_read (t : Tape) : t.put t.read = t := by
  refine eq_of_cells_cursor ?_ rfl
  obtain ⟨cells, cursor, h⟩ := t
  exact Array.set_getElem_self h

/-! ## Moving -/

theorem cells_advance (t : Tape) : t.advance.cells = t.cells := by
  obtain ⟨cells, cursor, h⟩ := t
  simp only [advance]
  split <;> rfl

theorem cells_retreat (t : Tape) : t.retreat.cells = t.cells := by
  obtain ⟨cells, cursor, h⟩ := t
  cases cursor <;> rfl

theorem cursor_advance (t : Tape) : (t.advance.cursor : Int) = (t.cursor + 1) % t.size := by
  obtain ⟨cells, cursor, h⟩ := t
  by_cases atEnd : cursor + 1 = cells.size
  · have hself : ((cursor : Int) + 1) % (cells.size : Int) = 0 := by
      rw [← atEnd]
      exact Int.emod_self
    simp only [advance, atEnd, dite_true]
    exact hself.symm
  · have hlt : (cursor : Int) + 1 < cells.size := by omega
    simp only [advance, atEnd, dite_false]
    exact (Int.emod_eq_of_lt (by omega) hlt).symm

theorem cursor_retreat (t : Tape) : (t.retreat.cursor : Int) = (t.cursor - 1) % t.size := by
  obtain ⟨cells, cursor, h⟩ := t
  cases cursor with
  | zero =>
    have hlast : ((0 : Nat) : Int) - 1 = (cells.size - 1) + cells.size * (-1) := by omega
    show ((cells.size - 1 : Nat) : Int) = (((0 : Nat) : Int) - 1) % (cells.size : Int)
    rw [hlast, Int.add_mul_emod_self_left, Int.emod_eq_of_lt (by omega) (by omega)]
    omega
  | succ cursor =>
    show (cursor : Int) = (((cursor + 1 : Nat) : Int) - 1) % (cells.size : Int)
    rw [Int.emod_eq_of_lt (by omega) (by omega)]
    omega

theorem cellAt_advance (t : Tape) (p : Int) : t.advance.cellAt p = t.cellAt p := by
  simp only [cellAt, cells_advance]

theorem cellAt_retreat (t : Tape) (p : Int) : t.retreat.cellAt p = t.cellAt p := by
  simp only [cellAt, cells_retreat]

/-! ## What is undone -/

theorem increment_eq_put (t : Tape) : t.increment = t.put (t.read + 1) := rfl

theorem decrement_eq_put (t : Tape) : t.decrement = t.put (t.read - 1) := rfl

theorem decrement_increment (t : Tape) : t.increment.decrement = t := by
  rw [decrement_eq_put, increment_eq_put, read_put, put_put, UInt8.add_sub_cancel, put_read]

theorem increment_decrement (t : Tape) : t.decrement.increment = t := by
  rw [increment_eq_put, decrement_eq_put, read_put, put_put, UInt8.sub_add_cancel, put_read]

theorem retreat_advance (t : Tape) : t.advance.retreat = t := by
  refine eq_of_cells_cursor (by rw [cells_retreat, cells_advance]) ?_
  rw [← Int.natCast_inj, cursor_retreat, size_advance, cursor_advance, Int.emod_sub_emod,
    Int.add_sub_cancel, cursor_emod]

theorem advance_retreat (t : Tape) : t.retreat.advance = t := by
  refine eq_of_cells_cursor (by rw [cells_advance, cells_retreat]) ?_
  rw [← Int.natCast_inj, cursor_advance, size_retreat, cursor_retreat, Int.emod_add_emod,
    Int.sub_add_cancel, cursor_emod]

theorem iterate_increment (n : Nat) (t : Tape) :
    increment^[n] t = t.put (t.read + UInt8.ofNat n) := by
  induction n with
  | zero => simp
  | succ n ih =>
    rw [Function.iterate_succ_apply', ih, increment_eq_put, read_put, put_put, UInt8.add_assoc,
      UInt8.ofNat_add]
    rfl

theorem iterate_advance (n : Nat) (t : Tape) :
    (advance^[n] t).cells = t.cells ∧ ((advance^[n] t).cursor : Int) = (t.cursor + n) % t.size := by
  induction n with
  | zero => exact ⟨rfl, by simpa using t.cursor_emod.symm⟩
  | succ n ih =>
    obtain ⟨hcells, hcursor⟩ := ih
    have hsize : (advance^[n] t).size = t.size := congrArg Array.size hcells
    rw [Function.iterate_succ_apply']
    refine ⟨(cells_advance _).trans hcells, ?_⟩
    rw [cursor_advance, hcursor, hsize, Int.emod_add_emod, Int.add_assoc]
    rfl

/-- Counting up through all values of a byte. -/
theorem iterate_increment_256 (t : Tape) : increment^[256] t = t := by
  rw [iterate_increment]
  have hzero : UInt8.ofNat 256 = 0 := rfl
  rw [hzero, UInt8.add_zero, put_read]

/-- Going forwards once around. -/
theorem iterate_advance_size (t : Tape) : advance^[t.size] t = t := by
  obtain ⟨hcells, hcursor⟩ := t.iterate_advance t.size
  refine eq_of_cells_cursor hcells ?_
  rw [← Int.natCast_inj, hcursor, Int.add_emod_right, cursor_emod]

theorem iterate_decrement_256 (t : Tape) : decrement^[256] t = t := by
  -- Counting up takes it back, and is no change itself.
  have hback : increment^[256] (decrement^[256] t) = t :=
    Function.LeftInverse.iterate increment_decrement 256 t
  rwa [iterate_increment_256] at hback

theorem size_iterate_retreat (n : Nat) (t : Tape) : (retreat^[n] t).size = t.size := by
  induction n with
  | zero => rfl
  | succ n ih => rw [Function.iterate_succ_apply', size_retreat, ih]

theorem iterate_retreat_size (t : Tape) : retreat^[t.size] t = t := by
  have hback : advance^[t.size] (retreat^[t.size] t) = t :=
    Function.LeftInverse.iterate advance_retreat t.size t
  have haround := iterate_advance_size (retreat^[t.size] t)
  rw [size_iterate_retreat] at haround
  rwa [haround] at hback

end Brainfuck.Tape
