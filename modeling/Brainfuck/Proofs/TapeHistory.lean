/-
What a tape holds after any sequence of operations, told from the sequence
alone and in integers without bounds.

Only the operations since the last clearing count (`TapeOperation.sinceClear`).
Of those, the advances less the retreats say where the cursor is
(`TapeOperation.distance`), and for each cell the operations made at it
(`TapeOperation.madeAt`) say what it holds: the last value written, and the
increments less the decrements after it (`TapeOperation.balance`). The tape
agrees with this account modulo its size and modulo 256.

What carries the proof is that both sides change in the same way under one
more operation: the distance by a step, which `cursor_perform` makes of the
cursor modulo the size, and the balance of the cell under the cursor by the
same change that the byte in it undergoes (`byteOf_valueAfter`), while every
other cell has no operation more made at it.
-/
import Mathlib.Data.List.DropRight
import Brainfuck.Proofs.Circle

namespace Brainfuck

/-- Something done with a tape. -/
inductive TapeOperation where
  | clear
  | advance
  | retreat
  | increment
  | decrement
  | write (v : Int)
  | read
  | snapshot (start stop : Option Int)
  deriving DecidableEq

/-- What an operation answers: nothing, the cell it reads, or the cells it copies. -/
inductive TapeAnswer where
  | done
  | cell (b : UInt8)
  | cells (bs : Array UInt8)

/-- Does an operation with a tape: its answer, and the tape it leaves. -/
def Tape.perform (t : Tape) : TapeOperation → TapeAnswer × Tape
  | .clear => (.done, t.clear)
  | .advance => (.done, t.advance)
  | .retreat => (.done, t.retreat)
  | .increment => (.done, t.increment)
  | .decrement => (.done, t.decrement)
  | .write v => (.done, t.write v)
  | .read => (.cell t.read, t)
  | .snapshot start stop => (.cells (t.snapshot start stop), t)

/-- The tape after a sequence of operations, whatever they answer. -/
def Tape.performAll (t : Tape) (ops : List TapeOperation) : Tape :=
  ops.foldl (fun t op => (t.perform op).2) t

/-! ## The account of a sequence -/

namespace TapeOperation

/-- The value of a write. -/
def written? : TapeOperation → Option Int
  | write v => some v
  | _ => none

/-- The operations after the last clearing. -/
def sinceClear (ops : List TapeOperation) : List TapeOperation :=
  ops.rtakeWhile (· ≠ clear)

/-- The operations after the last write. -/
def sinceWrite (ops : List TapeOperation) : List TapeOperation :=
  ops.rtakeWhile (·.written?.isNone)

/-- How far operations move the cursor: advances less retreats. -/
def distance (ops : List TapeOperation) : Int :=
  (ops.count advance : Int) - ops.count retreat

/-- The operations made at a cell, if the cursor starts on cell 0 of so many. -/
def madeAt (size cell : Nat) (ops : List TapeOperation) : List TapeOperation :=
  ops.zipIdx.filterMap fun (op, i) =>
    if distance (ops.take i) % size = cell then some op else none

/-- What operations on one and the same cell come to: the last value written,
or 0, and the increments less the decrements after it. -/
def balance (ops : List TapeOperation) : Int :=
  (ops.filterMap written?).getLastD 0 +
    (((sinceWrite ops).count increment : Int) - (sinceWrite ops).count decrement)

/-! ## One operation more -/

/-- How far an operation moves the cursor. -/
def step : TapeOperation → Int
  | advance => 1
  | retreat => -1
  | _ => 0

/-- What an operation makes of the value it is made at. -/
def valueAfter : TapeOperation → Int → Int
  | increment, v => v + 1
  | decrement, v => v - 1
  | write v, _ => v
  | _, v => v

/-- What an operation makes of the byte under the cursor. -/
def byteAfter : TapeOperation → UInt8 → UInt8
  | increment, b => b + 1
  | decrement, b => b - 1
  | write v, _ => Tape.byteOf v
  | _, b => b

theorem sinceClear_concat_clear (ops : List TapeOperation) : sinceClear (ops ++ [clear]) = [] :=
  List.rtakeWhile_concat_neg _ _ _ (by simp)

theorem sinceClear_concat {op : TapeOperation} (h : op ≠ clear) (ops : List TapeOperation) :
    sinceClear (ops ++ [op]) = sinceClear ops ++ [op] :=
  List.rtakeWhile_concat_pos _ _ _ (by simpa using h)

theorem distance_concat (ops : List TapeOperation) (op : TapeOperation) :
    distance (ops ++ [op]) = distance ops + op.step := by
  unfold distance
  rw [List.count_append, List.count_append]
  cases op <;> simp [step] <;> omega

theorem madeAt_concat (size cell : Nat) (ops : List TapeOperation) (op : TapeOperation) :
    madeAt size cell (ops ++ [op]) =
      madeAt size cell ops ++ if distance ops % size = cell then [op] else [] := by
  unfold madeAt
  rw [List.zipIdx_append, List.filterMap_append]
  congr 1
  · -- The operations before are made where they were made without the last one.
    refine List.filterMap_congr fun ⟨made, i⟩ hmem => ?_
    have hi : i < ops.length := by simpa using List.snd_lt_of_mem_zipIdx hmem
    simp only [List.take_append_of_le_length (Nat.le_of_lt hi)]
  · simp only [Nat.zero_add, List.zipIdx_singleton, List.filterMap_cons, List.filterMap_nil,
      List.take_left]
    split_ifs <;> rfl

theorem balance_concat (ops : List TapeOperation) (op : TapeOperation) :
    balance (ops ++ [op]) = op.valueAfter (balance ops) := by
  unfold balance sinceWrite
  rw [List.filterMap_append, List.rtakeWhile_concat]
  cases op <;> simp [written?, valueAfter] <;> omega

end TapeOperation

/-! ## The tape and the account -/

namespace Tape

open TapeOperation

theorem performAll_concat (t : Tape) (ops : List TapeOperation) (op : TapeOperation) :
    t.performAll (ops ++ [op]) = ((t.performAll ops).perform op).2 := by
  simp [performAll]

theorem size_perform (t : Tape) (op : TapeOperation) : (t.perform op).2.size = t.size := by
  cases op <;> simp [perform]

theorem size_performAll (t : Tape) (ops : List TapeOperation) :
    (t.performAll ops).size = t.size := by
  induction ops using List.reverseRecOn with
  | nil => rfl
  | append_singleton ops op ih => rw [performAll_concat, size_perform, ih]

theorem cursor_perform (t : Tape) {op : TapeOperation} (h : op ≠ .clear) :
    ((t.perform op).2.cursor : Int) = (t.cursor + op.step) % t.size := by
  have stays : (t.cursor : Int) = (t.cursor + 0) % t.size := by
    rw [Int.add_zero, cursor_emod]
  cases op with
  | clear => exact absurd rfl h
  | advance => exact t.cursor_advance
  | retreat => exact t.cursor_retreat
  | increment | decrement | write | read | snapshot => exact stays

/-- The byte under the cursor, replaced by what a function makes of it. -/
theorem cellAt_put_read (t : Tape) (f : UInt8 → UInt8) (p : Int) :
    (t.put (f t.read)).cellAt p =
      if p % t.size = t.cursor then f (t.cellAt p) else t.cellAt p := by
  rw [cellAt_put]
  split_ifs with hp
  · rw [← cellAt_cursor, cellAt_congr (by rw [hp, cursor_emod] : p % t.size = t.cursor % t.size)]
  · rfl

theorem cellAt_perform (t : Tape) {op : TapeOperation} (h : op ≠ .clear) (p : Int) :
    (t.perform op).2.cellAt p =
      if p % t.size = t.cursor then op.byteAfter (t.cellAt p) else t.cellAt p := by
  have stays : t.cellAt p = if p % t.size = t.cursor then t.cellAt p else t.cellAt p := by
    split_ifs <;> rfl
  cases op with
  | clear => exact absurd rfl h
  | advance => exact (t.cellAt_advance p).trans stays
  | retreat => exact (t.cellAt_retreat p).trans stays
  | read | snapshot => exact stays
  | increment => exact t.cellAt_put_read (· + 1) p
  | decrement => exact t.cellAt_put_read (· - 1) p
  | write v => exact t.cellAt_put_read (fun _ => byteOf v) p

/-- Only the cell under the cursor can change. -/
theorem getElem?_perform (t : Tape) {op : TapeOperation} (h : op ≠ .clear) {i : Nat}
    (hi : i ≠ t.cursor) : (t.perform op).2.cells[i]? = t.cells[i]? := by
  have hsize : (t.perform op).2.cells.size = t.cells.size := t.size_perform op
  by_cases hlt : i < t.cells.size
  · have hcell := t.cellAt_perform h i
    rw [show (i : Int) % t.size = i from Int.emod_eq_of_lt (by omega) (Int.ofNat_lt.mpr hlt),
      if_neg (by omega), cellAt_natCast _ hlt, cellAt_natCast _ (by omega)] at hcell
    rw [Array.getElem?_eq_getElem hlt, Array.getElem?_eq_getElem (by omega), hcell]
  · rw [Array.getElem?_eq_none (by omega), Array.getElem?_eq_none (by omega)]

theorem toNat_byteOf (v : Int) : ((byteOf v).toNat : Int) = v % 256 := by
  unfold byteOf
  rw [UInt8.toNat_ofNat']
  omega

theorem byteOf_valueAfter (op : TapeOperation) (v : Int) :
    byteOf (op.valueAfter v) = op.byteAfter (byteOf v) := by
  have hv := toNat_byteOf v
  cases op with
  | increment =>
    rw [← UInt8.toNat_inj, valueAfter, byteAfter, UInt8.toNat_add]
    have := toNat_byteOf (v + 1)
    simp
    omega
  | decrement =>
    rw [← UInt8.toNat_inj, valueAfter, byteAfter, UInt8.toNat_sub]
    have := toNat_byteOf (v - 1)
    simp
    omega
  | clear | advance | retreat | write | read | snapshot => rfl

section Account

variable (size : MemorySize) (ops : List TapeOperation)

theorem cursor_performAll :
    (((blank size).performAll ops).cursor : Int) = distance (sinceClear ops) % size.cells := by
  induction ops using List.reverseRecOn with
  | nil => rfl
  | append_singleton ops op ih =>
    by_cases h : op = .clear
    · subst h
      rw [performAll_concat, sinceClear_concat_clear]
      rfl
    · rw [performAll_concat, cursor_perform _ h, size_performAll, size_blank, ih,
        sinceClear_concat h, distance_concat, Int.emod_add_emod]

theorem cellAt_performAll {i : Nat} (hi : i < size.cells) :
    ((blank size).performAll ops).cellAt i =
      byteOf (balance (madeAt size.cells i (sinceClear ops))) := by
  induction ops using List.reverseRecOn with
  | nil => simp [performAll, cellAt, blank]; rfl
  | append_singleton ops op ih =>
    by_cases h : op = .clear
    · subst h
      rw [performAll_concat, sinceClear_concat_clear]
      exact cellAt_clear _ _
    · -- The operation is made at the cell exactly if the cursor is on it.
      have hself : (i : Int) % size.cells = i := Int.emod_eq_of_lt (by omega) (by omega)
      have hcursor := cursor_performAll size ops
      rw [performAll_concat, cellAt_perform _ h, size_performAll, size_blank, hself, ih,
        sinceClear_concat h, madeAt_concat, ← hcursor]
      by_cases hat : (i : Int) = ((blank size).performAll ops).cursor
      · rw [if_pos hat, if_pos hat.symm, balance_concat, byteOf_valueAfter]
      · rw [if_neg hat, if_neg (Ne.symm hat), List.append_nil]

/-- The cells as numbers. -/
theorem cells_performAll :
    ((blank size).performAll ops).cells.toList.map (fun b => (b.toNat : Int)) =
      (List.range size.cells).map fun i =>
        balance (madeAt size.cells i (sinceClear ops)) % 256 := by
  have hsize : ((blank size).performAll ops).cells.size = size.cells :=
    (size_performAll _ ops).trans (size_blank size)
  refine List.ext_getElem (by simp [hsize]) fun i hi _ => ?_
  have hlt : i < size.cells := by simpa [hsize] using hi
  have hcell := cellAt_performAll size ops hlt
  rw [cellAt_natCast _ (hsize ▸ hlt)] at hcell
  simp [hcell, toNat_byteOf]

end Account

/-- **The tape computes modular arithmetic.** After any operations on a new
tape the size is as it was, the cursor is where the advances and retreats since
the last clearing take it, modulo the size, and every cell holds what the
operations made at it since then come to, modulo 256. Reading answers that
number for the cell under the cursor and changes nothing, and no operation but
clearing changes another cell. -/
theorem performAll_modular (size : MemorySize) (ops : List TapeOperation) :
    let t := (blank size).performAll ops
    let recent := sinceClear ops
    t.size = size.cells ∧
      (t.cursor : Int) = distance recent % size.cells ∧
      t.cells.toList.map (fun b => (b.toNat : Int)) =
        (List.range size.cells).map (fun i => balance (madeAt size.cells i recent) % 256) ∧
      (∃ b : UInt8, t.perform .read = (.cell b, t) ∧
        (b.toNat : Int) = balance (madeAt size.cells t.cursor recent) % 256) ∧
      ∀ op i, op = .clear ∨ i = t.cursor ∨ (t.perform op).2.cells[i]? = t.cells[i]? := by
  intro t recent
  have hsize : t.size = size.cells := (size_performAll _ ops).trans (size_blank size)
  refine ⟨hsize, cursor_performAll size ops, cells_performAll size ops, ⟨t.read, rfl, ?_⟩, ?_⟩
  · have hcursor : t.cursor < size.cells := by
      rw [← hsize]
      exact t.cursor_lt
    have hread : t.cellAt t.cursor = _ := cellAt_performAll size ops hcursor
    rw [← t.cellAt_cursor, hread, toNat_byteOf]
  · intro op i
    by_cases hop : op = .clear
    · exact .inl hop
    · by_cases hi : i = t.cursor
      · exact .inr (.inl hi)
      · exact .inr (.inr (t.getElem?_perform hop hi))

example :
    ((blank ⟨3, by decide⟩).performAll
      [.increment, .clear, .retreat, .write (-300), .decrement, .advance, .increment]).cells =
        #[1, 0, 211] := by
  decide

end Tape

end Brainfuck
