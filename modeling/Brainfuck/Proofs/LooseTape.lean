/-
A tape that knows nothing of itself: its cells are any integers and its
cursor is any integer. Looking at the cell under the cursor is an access by
index and may find no cell there, and what is put into a cell or handed to a
sink may be no byte; both are a `Defect`. Moves and counts are as plain as
they can be: the cursor starts again when it equals the number of cells, and
a count is reduced modulo 256 before it is put back.

`Tape` cannot even express these mistakes. What is proved here is that it
loses nothing by that: seen as a loose tape, every action that it performs is
the action of the loose tape, which never comes to a defect
(`World.perform_loose`).
-/
import Brainfuck.Proofs.World

namespace Brainfuck

/-- What could go wrong inside, when a text is read and when it is executed: a
symbol or a command that a table does not list, a body asked of a stack that
has none, an index without a cell, a number that is no byte, something in the
code that is no instruction. -/
inductive Defect where
  | noCommand (symbol : String)
  | noAction (c : Command)
  | noBody
  | noCell (index : Int)
  | noByte (value : Int)
  | noInstruction (f : Foreign)

/-- A tape of which nothing is known. -/
structure LooseTape where
  cells : Array Int
  cursor : Int

namespace LooseTape

/-- The cell under the cursor. -/
def fetch (t : LooseTape) : Except Defect Int :=
  if h : 0 ≤ t.cursor ∧ t.cursor.toNat < t.cells.size then .ok t.cells[t.cursor.toNat]
  else .error (.noCell t.cursor)

/-- Puts a number into the cell under the cursor. -/
def store (v : Int) (t : LooseTape) : Except Defect LooseTape :=
  if h : 0 ≤ t.cursor ∧ t.cursor.toNat < t.cells.size then
    if 0 ≤ v ∧ v < 256 then .ok { t with cells := t.cells.set t.cursor.toNat v h.2 }
    else .error (.noByte v)
  else .error (.noCell t.cursor)

/-- Adds to the cell under the cursor, modulo 256. -/
def add (d : Int) (t : LooseTape) : Except Defect LooseTape := do
  let v ← t.fetch
  t.store ((v + d) % 256)

/-- Makes all cells zero and puts the cursor on the first one. -/
def clear (t : LooseTape) : LooseTape :=
  ⟨Array.replicate t.cells.size 0, 0⟩

/-- Moves the cursor on; where the cells end it starts again. -/
def advance (t : LooseTape) : LooseTape :=
  if t.cursor + 1 = t.cells.size then { t with cursor := 0 } else { t with cursor := t.cursor + 1 }

/-- Moves the cursor back; from zero, as if from behind the last cell. -/
def retreat (t : LooseTape) : LooseTape :=
  if t.cursor = 0 then { t with cursor := t.cells.size - 1 } else { t with cursor := t.cursor - 1 }

/-- A tape of the given size, the cursor on one of its cells, a byte in each. -/
structure Sound (size : Nat) (t : LooseTape) : Prop where
  size_eq : t.cells.size = size
  cursor_nonneg : 0 ≤ t.cursor
  cursor_lt : t.cursor < size
  isByte : ∀ v ∈ t.cells, 0 ≤ v ∧ v < 256

end LooseTape

/-! ## A tape seen as a loose tape -/

namespace Tape

def loose (t : Tape) : LooseTape :=
  ⟨t.cells.map fun b => (b.toNat : Int), t.cursor⟩

theorem sound_loose (t : Tape) : t.loose.Sound t.size := by
  refine ⟨Array.size_map, Int.natCast_nonneg _, Int.ofNat_lt.mpr t.cursor_lt, ?_⟩
  intro v hv
  obtain ⟨b, -, rfl⟩ := Array.mem_map.mp hv
  have hb : b.toNat < 256 := b.toNat_lt
  omega

theorem inside_loose (t : Tape) :
    0 ≤ t.loose.cursor ∧ t.loose.cursor.toNat < t.loose.cells.size := by
  have hcursor := t.cursor_lt
  simp only [loose, Array.size_map]
  omega

theorem fetch_loose (t : Tape) : t.loose.fetch = .ok (t.read.toNat : Int) := by
  rw [LooseTape.fetch, dif_pos t.inside_loose]
  obtain ⟨cells, cursor, h⟩ := t
  simp [loose, read]

theorem store_loose (b : UInt8) (t : Tape) : t.loose.store b.toNat = .ok (t.put b).loose := by
  have hb : 0 ≤ (b.toNat : Int) ∧ (b.toNat : Int) < 256 := by
    have := b.toNat_lt
    omega
  rw [LooseTape.store, dif_pos t.inside_loose, if_pos hb]
  obtain ⟨cells, cursor, h⟩ := t
  simp [loose, put]

theorem clear_loose (t : Tape) : t.loose.clear = t.clear.loose := by
  obtain ⟨cells, cursor, h⟩ := t
  simp [loose, clear, LooseTape.clear]

theorem advance_loose (t : Tape) : t.loose.advance = t.advance.loose := by
  obtain ⟨cells, cursor, h⟩ := t
  by_cases atEnd : cursor + 1 = cells.size
  · have hend : ((cursor : Int) + 1 = cells.size) := by omega
    simp [loose, advance, LooseTape.advance, atEnd, hend]
  · have hend : ¬ ((cursor : Int) + 1 = cells.size) := by omega
    simp [loose, advance, LooseTape.advance, atEnd, hend]

theorem retreat_loose (t : Tape) : t.loose.retreat = t.retreat.loose := by
  obtain ⟨cells, cursor, h⟩ := t
  cases cursor with
  | zero =>
    have hlast : ((cells.size - 1 : Nat) : Int) = (cells.size : Int) - 1 := by omega
    simp [loose, retreat, LooseTape.retreat, hlast]
  | succ cursor =>
    have hpos : ¬ ((cursor : Int) + 1 = 0) := by omega
    simp [loose, retreat, LooseTape.retreat, hpos]

theorem increment_loose (t : Tape) : t.loose.add 1 = .ok t.increment.loose := by
  have hput : t.increment = t.put (t.read + 1) := rfl
  have hbyte : ((t.read.toNat : Int) + 1) % 256 = ((t.read + 1).toNat : Int) := by
    rw [UInt8.toNat_add]
    simp
  rw [LooseTape.add, fetch_loose, hput, ← store_loose, ← hbyte]
  rfl

theorem decrement_loose (t : Tape) : t.loose.add (-1) = .ok t.decrement.loose := by
  have hput : t.decrement = t.put (t.read - 1) := rfl
  have hbyte : ((t.read.toNat : Int) + -1) % 256 = ((t.read - 1).toNat : Int) := by
    rw [UInt8.toNat_sub]
    simp
    omega
  rw [LooseTape.add, fetch_loose, hput, ← store_loose, ← hbyte]
  rfl

end Tape

/-! ## Actions -/

/-- A loose tape and two streams. -/
structure LooseWorld where
  tape : LooseTape
  source : Source
  sink : Sink

namespace LooseWorld

/-- The byte that a sink is handed for a number. -/
def byteOf (v : Int) : Except Defect UInt8 :=
  if 0 ≤ v ∧ v < 256 then .ok (UInt8.ofNat v.toNat) else .error (.noByte v)

/-- What an action does, if it comes to no defect: the fault that stops it, if
any, and the world it leaves. -/
def perform : Action → LooseWorld → Except Defect (Option Fault × LooseWorld)
  | .next, w => .ok (none, { w with tape := w.tape.advance })
  | .previous, w => .ok (none, { w with tape := w.tape.retreat })
  | .increment, w => do
    let tape ← w.tape.add 1
    return (none, { w with tape := tape })
  | .decrement, w => do
    let tape ← w.tape.add (-1)
    return (none, { w with tape := tape })
  | .output, w => do
    let b ← byteOf (← w.tape.fetch)
    if w.sink.accepts then return (none, { w with sink := w.sink.push b })
    else return (some (.sinkFailed w.sink.refusal), w)
  | .input, w =>
    match w.source.next with
    | .data (b :: _) => do
      let tape ← w.tape.store (b.toNat % 256)
      return (none, { w with source := w.source.advance, tape := tape })
    | .data [] | .absent => .ok (none, { w with source := w.source.advance })
    | .failure text => .ok (some (.sourceFailed text), { w with source := w.source.advance })

theorem byteOf_toNat (b : UInt8) : byteOf b.toNat = .ok b := by
  have hb : 0 ≤ (b.toNat : Int) ∧ (b.toNat : Int) < 256 := by
    have := b.toNat_lt
    omega
  rw [byteOf, if_pos hb]
  simp

end LooseWorld

namespace World

def loose (w : World) : LooseWorld :=
  ⟨w.tape.loose, w.source, w.sink⟩

/-- The actions on a tape are those on the loose tape that it is, and none of
them comes to a defect. -/
theorem perform_loose (a : Action) (w : World) :
    w.loose.perform a = .ok ((w.perform a).1, (w.perform a).2.loose) := by
  cases a with
  | next => simp only [LooseWorld.perform, loose, Tape.advance_loose]; rfl
  | previous => simp only [LooseWorld.perform, loose, Tape.retreat_loose]; rfl
  | increment => simp only [LooseWorld.perform, loose, Tape.increment_loose]; rfl
  | decrement => simp only [LooseWorld.perform, loose, Tape.decrement_loose]; rfl
  | output =>
    simp only [LooseWorld.perform, perform, loose, Tape.fetch_loose, bind, Except.bind,
      LooseWorld.byteOf_toNat]
    by_cases h : w.sink.accepts
    · simp only [h]; rfl
    · simp only [h]; rfl
  | input =>
    simp only [LooseWorld.perform, perform, loose]
    cases w.source.next with
    | data bytes =>
      cases bytes with
      | nil => rfl
      | cons b bs =>
        have hb : (b.toNat : Int) % 256 = b.toNat := by
          have := b.toNat_lt
          omega
        simp only [hb, Tape.store_loose]
        rfl
    | absent => rfl
    | failure text => rfl

end World

end Brainfuck
