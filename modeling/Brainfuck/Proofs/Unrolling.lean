/-
A circular tape that is large enough cannot be told from one without ends.

Take as many neighbouring cells of the endless tape as the circular one has,
from the leftmost position of a run on. Counted modulo the size each of them
has a cell of its own on the circular tape, and `Tape.Rolled` says that the two
hold the same. As long as the run does not leave this window, every action
keeps that: the cell under the cursor is the same on both, and a byte that is
put there is put nowhere else in the window, for no other position in it falls
on the same cell (`eq_of_emod_eq`). So the two runs go in step
(`Machine.runFor_rolled`). That the window holds the whole run is just what a
span below the size says, and the cells of the window that the run has not
visited are zero on the endless tape, and so on the circular one.
-/
import Brainfuck.Proofs.Actions
import Brainfuck.Proofs.Circle
import Brainfuck.Proofs.EndlessTape

namespace Brainfuck

/-! ## The window -/

/-- The circular tape holds what stands on the endless one from `lo` on, as
far as its size goes, and the cursors are on the same cell. -/
structure Tape.Rolled (lo : Int) (t : Tape) (e : EndlessTape) : Prop where
  cursor : (t.cursor : Int) = e.position % t.size
  cell : ∀ p, lo ≤ p → p < lo + t.size → t.cellAt p = e.cells p

/-- A position inside the window of a tape. -/
def Tape.Within (lo : Int) (t : Tape) (p : Int) : Prop :=
  lo ≤ p ∧ p < lo + t.size

/-- No two positions of a window fall on the same cell. -/
theorem Tape.eq_of_emod_eq {t : Tape} {lo p q : Int} (hp : t.Within lo p) (hq : t.Within lo q)
    (h : p % t.size = q % t.size) : p = q := by
  have hrest {r : Int} (hr : t.Within lo r) : (r % t.size - lo) % t.size = r - lo := by
    obtain ⟨hlo, hhi⟩ := hr
    rw [Int.emod_sub_emod, Int.emod_eq_of_lt (by omega) (by omega)]
  have hsame : p - lo = q - lo := by rw [← hrest hp, h, hrest hq]
  omega

namespace Tape.Rolled

variable {lo : Int} {t : Tape} {e : EndlessTape}

theorem read_eq (h : t.Rolled lo e) (hin : t.Within lo e.position) : t.read = e.read := by
  calc t.read
    _ = t.cellAt t.cursor := t.cellAt_cursor.symm
    _ = t.cellAt e.position := cellAt_congr (by rw [cursor_emod, h.cursor])
    _ = e.read := h.cell e.position hin.1 hin.2

theorem put (h : t.Rolled lo e) (hin : t.Within lo e.position) (b : UInt8) :
    (t.put b).Rolled lo (e.put b) := by
  constructor
  · rw [cursor_put, size_put]
    exact h.cursor
  · intro p hlo hhi
    rw [size_put] at hhi
    have hsame : p % t.size = t.cursor ↔ p = e.position := by
      rw [h.cursor]
      exact ⟨eq_of_emod_eq ⟨hlo, hhi⟩ hin, fun hp => by rw [hp]⟩
    simp only [cellAt_put, EndlessTape.cells_put, hsame, h.cell p hlo hhi]

theorem advance (h : t.Rolled lo e) : t.advance.Rolled lo (e.move 1) := by
  constructor
  · rw [cursor_advance, size_advance, h.cursor, Int.emod_add_emod]
    rfl
  · intro p hlo hhi
    rw [size_advance] at hhi
    rw [cellAt_advance]
    exact h.cell p hlo hhi

theorem retreat (h : t.Rolled lo e) : t.retreat.Rolled lo (e.move (-1)) := by
  constructor
  · rw [cursor_retreat, size_retreat, h.cursor, Int.emod_sub_emod]
    rfl
  · intro p hlo hhi
    rw [size_retreat] at hhi
    rw [cellAt_retreat]
    exact h.cell p hlo hhi

end Tape.Rolled

/-! ## One step -/

/-- A world whose tape is rolled up, with the same streams. -/
structure World.Rolled (lo : Int) (w : World) (e : EndlessWorld) : Prop where
  tape : w.tape.Rolled lo e.tape
  source : w.source = e.source
  sink : w.sink = e.sink

theorem World.Rolled.perform {lo : Int} {w : World} {e : EndlessWorld} (h : w.Rolled lo e)
    (hin : w.tape.Within lo e.tape.position) (a : Action) :
    (w.perform a).1 = (e.perform a).1 ∧ (w.perform a).2.Rolled lo (e.perform a).2 := by
  obtain ⟨htape, hsource, hsink⟩ := h
  have hread := htape.read_eq hin
  cases a with
  | next => exact ⟨rfl, htape.advance, hsource, hsink⟩
  | previous => exact ⟨rfl, htape.retreat, hsource, hsink⟩
  | increment =>
    refine ⟨rfl, ?_, hsource, hsink⟩
    show w.tape.increment.Rolled lo (e.tape.put (e.tape.read + 1))
    rw [Tape.increment_eq_put, hread]
    exact htape.put hin _
  | decrement =>
    refine ⟨rfl, ?_, hsource, hsink⟩
    show w.tape.decrement.Rolled lo (e.tape.put (e.tape.read - 1))
    rw [Tape.decrement_eq_put, hread]
    exact htape.put hin _
  | output =>
    simp only [World.perform, EndlessWorld.perform, hsink, hread]
    split
    · exact ⟨rfl, htape, hsource, rfl⟩
    · exact ⟨rfl, htape, hsource, hsink⟩
  | input =>
    simp only [World.perform, EndlessWorld.perform, hsource]
    cases e.source.next with
    | data bytes =>
      cases bytes with
      | nil => exact ⟨rfl, htape, rfl, hsink⟩
      | cons b bs => exact ⟨rfl, htape.put hin b, rfl, hsink⟩
    | absent => exact ⟨rfl, htape, rfl, hsink⟩
    | failure text => exact ⟨rfl, htape, rfl, hsink⟩

/-- Two executions stand at the same place of the code, or have ended alike. -/
inductive Progress.InStepWith : Progress → EndlessProgress → Prop where
  | running {frame : Frame} {outer : List Frame} {i : Interpreter} {w : EndlessWorld} :
    InStepWith (.running ⟨frame, outer, i⟩) (.running ⟨frame, outer, w⟩)
  | finished {i : Interpreter} {w : EndlessWorld} : InStepWith (.finished i) (.finished w)
  | stopped {f : Fault} {i : Interpreter} {w : EndlessWorld} :
    InStepWith (.stopped f i) (.stopped f w)

/-- At the same place of the code, with the tape rolled up. -/
def Progress.Rolled (lo : Int) (p : Progress) (q : EndlessProgress) : Prop :=
  p.InStepWith q ∧ p.state.world.Rolled lo q.world

namespace Machine

theorem step_rolled {lo : Int} {m : Machine} {e : EndlessMachine}
    (h : (Progress.running m).Rolled lo (.running e))
    (hin : m.state.tape.Within lo e.world.tape.position) : m.step.Rolled lo e.step := by
  obtain ⟨hplace, hworld⟩ := h
  cases hplace with
  | @running frame outer i w =>
    have hworld' : i.world.Rolled lo w := hworld
    have hread : i.tape.read = w.tape.read := hworld'.tape.read_eq hin
    obtain ⟨body, todo⟩ := frame
    cases todo with
    | nil =>
      cases outer with
      | nil => exact ⟨.finished, hworld'⟩
      | cons parent outer =>
        simp only [step, EndlessMachine.step, hread]
        split
        · exact ⟨.running, hworld'⟩
        · exact ⟨.running, hworld'⟩
    | act a rest =>
      obtain ⟨hfault, hafter⟩ := hworld'.perform hin a
      rw [← Interpreter.perform_world] at hfault hafter
      simp only [step, EndlessMachine.step]
      generalize w.perform a = left at hfault hafter
      obtain ⟨fault, w'⟩ := left
      cases hi : i.perform a with
      | done j =>
        rw [hi] at hfault hafter
        obtain rfl : fault = none := hfault.symm
        exact ⟨.running, hafter⟩
      | fault f j =>
        rw [hi] at hfault hafter
        obtain rfl : fault = some f := hfault.symm
        exact ⟨.stopped, hafter⟩
    | loop inner rest =>
      simp only [step, EndlessMachine.step, hread]
      split
      · exact ⟨.running, hworld'⟩
      · exact ⟨.running, hworld'⟩
    | foreign f rest => exact ⟨.stopped, hworld'⟩

/-- As long as a run stays inside the window, the two go in step. -/
theorem runFor_rolled {lo : Int} (n : Nat) {m : Machine} {e : EndlessMachine}
    (h : (Progress.running m).Rolled lo (.running e))
    (hin : ∀ s, s ≤ n → m.state.tape.Within lo (e.position s)) :
    (m.runFor n).Rolled lo (e.runFor n) := by
  induction n generalizing m e with
  | zero => exact h
  | succ n ih =>
    obtain ⟨hplace, hworld⟩ := step_rolled h (hin 0 (Nat.zero_le _))
    have hsize : m.step.state.tape.size = m.state.tape.size := by
      rw [← runFor_one]
      exact m.size_runFor 1
    rw [runFor_succ, EndlessMachine.runFor_succ]
    generalize hm : m.step = p at hplace hworld hsize
    generalize he : e.step = q at hplace hworld
    cases hplace with
    | @running frame outer i w =>
      refine ih ⟨.running, hworld⟩ fun s hs => ?_
      have hthere := hin (s + 1) (Nat.succ_le_succ hs)
      rw [EndlessMachine.position_succ he] at hthere
      have hsize' : i.tape.size = m.state.tape.size := hsize
      show i.tape.Within lo _
      rw [Tape.Within, hsize']
      exact hthere
    | finished => exact ⟨.finished, hworld⟩
    | stopped => exact ⟨.stopped, hworld⟩

end Machine

/-! ## Whole runs -/

/-- How an execution ends; one that is still going on is unfinished. -/
def EndlessProgress.ending : EndlessProgress → Ending
  | running _ => .unfinished
  | finished _ => .finished
  | stopped f _ => .stopped f

theorem Progress.InStepWith.ending_eq {p : Progress} {q : EndlessProgress} (h : p.InStepWith q) :
    p.close.1 = q.ending := by
  cases h <;> rfl

/-- A circular tape shows an endless one as far as it has been visited: the
cursors are at the same position, up to the size of the tape; the cell of every
visited position is the same; and the cells of no visited position are zero. -/
structure Tape.Shows (t : Tape) (e : EndlessTape) (visits : Int → Prop) : Prop where
  cursor : (t.cursor : Int) = e.position % t.size
  visited : ∀ p, visits p → t.cellAt p = e.cells p
  others : ∀ p, (∀ q, visits q → p % t.size ≠ q % t.size) → t.cellAt p = 0

/-- Every cell of a circular tape is that of a position in any window. -/
theorem Tape.exists_within (t : Tape) (lo p : Int) : ∃ q, t.Within lo q ∧ q % t.size = p % t.size := by
  have hpos : (0 : Int) < t.size := Int.natCast_pos.mpr t.size_pos
  have hnonneg := Int.emod_nonneg (p - lo) (Int.ne_of_gt hpos)
  have hlt := Int.emod_lt_of_pos (p - lo) hpos
  refine ⟨(p - lo) % t.size + lo, ⟨by omega, by omega⟩, ?_⟩
  rw [Int.emod_add_emod, Int.sub_add_cancel]

/-- An execution on a circular tape stands where one without ends does, with
the same streams, and its tape shows the other one. -/
structure Progress.Shows (p : Progress) (q : EndlessProgress) (visits : Int → Prop) : Prop where
  place : p.InStepWith q
  source : p.state.source = q.world.source
  sink : p.state.sink = q.world.sink
  tape : p.state.tape.Shows q.world.tape visits

namespace Machine

variable {m : Machine} {e : EndlessMachine} {n : Nat}

/-- The positions of a run that spans less than the tape are inside one window. -/
theorem within_leftmost (h : e.rightmost n - e.leftmost n < m.state.tape.size) {s : Nat}
    (hs : s ≤ n) : m.state.tape.Within (e.leftmost n) (e.position s) := by
  have hleft := EndlessMachine.leftmost_le (m := e) hs
  have hright := EndlessMachine.le_rightmost (m := e) hs
  exact ⟨hleft, by omega⟩

/-- From blank tapes, the two go in step while the run spans less than the tape. -/
theorem runFor_shows (hstart : ∀ lo, (Progress.running m).Rolled lo (.running e))
    (hblank : ∀ p, e.world.tape.cells p = 0)
    (h : e.rightmost n - e.leftmost n < m.state.tape.size) :
    (m.runFor n).Shows (e.runFor n) (e.Visits n) := by
  have hin (s : Nat) (hs : s ≤ n) := within_leftmost h hs
  obtain ⟨hplace, htape, hsource, hsink⟩ := runFor_rolled n (hstart (e.leftmost n)) hin
  have hsize : (m.runFor n).state.tape.size = m.state.tape.size := m.size_runFor n
  refine ⟨hplace, hsource, hsink, htape.cursor, ?_, ?_⟩
  · rintro p ⟨s, hs, rfl⟩
    obtain ⟨hlo, hhi⟩ := hin s hs
    exact htape.cell _ hlo (by rwa [Interpreter.world_tape, hsize])
  · intro p hp
    obtain ⟨q, ⟨hlo, hhi⟩, hq⟩ := (m.runFor n).state.tape.exists_within (e.leftmost n) p
    have hunvisited : ∀ s, s ≤ n → e.position s ≠ q := fun s hs heq => hp q ⟨s, hs, heq⟩ hq.symm
    calc (m.runFor n).state.tape.cellAt p
      _ = (m.runFor n).state.tape.cellAt q := Tape.cellAt_congr hq.symm
      _ = (e.runFor n).world.tape.cells q := htape.cell q hlo hhi
      _ = e.world.tape.cells q := e.cells_runFor n hunvisited
      _ = 0 := hblank q

end Machine

namespace Interpreter

theorem rolled_machine (size : MemorySize) (source : Source) (sink : Sink) (code : Code) (lo : Int) :
    (Progress.running ((new size source sink).machine code)).Rolled lo
      (.running (.ofCode code source sink)) := by
  refine ⟨.running, ⟨?_, ?_⟩, rfl, rfl⟩
  · show ((Tape.blank size).clear.cursor : Int) = 0 % _
    rw [Int.zero_emod]
    rfl
  · intro p _ _
    exact Tape.cellAt_clear _ p

/-- **A large enough tape is as good as one without ends.** Run any code for
any number of steps, with any streams, on a tape without ends, and on a circular
tape that has more cells than lie between the leftmost and the rightmost
position so far. Both have gone the same steps and stand at the same place, or
have ended alike, with the same input and output; the cursor of the circular
tape is the position modulo its size, the cell of every visited position is
the same, and all others are zero. So on any two sizes that are large enough
the run has the same ending, output and input. -/
theorem run_as_on_endless_tape (code : Code) (source : Source) (sink : Sink) (n : Nat) :
    let endless := EndlessMachine.ofCode code source sink
    let span := endless.rightmost n - endless.leftmost n
    (∀ size : MemorySize, span < size.cells →
      (((new size source sink).machine code).runFor n).Shows (endless.runFor n)
        (endless.Visits n) ∧
      ((new size source sink).run n code).1 = (endless.runFor n).ending) ∧
    ∀ size size' : MemorySize, span < size.cells → span < size'.cells →
      ((new size source sink).run n code).1 = ((new size' source sink).run n code).1 ∧
        ((new size source sink).run n code).2.sink = ((new size' source sink).run n code).2.sink ∧
        ((new size source sink).run n code).2.source =
          ((new size' source sink).run n code).2.source := by
  intro endless span
  have hshows (size : MemorySize) (h : span < size.cells) :
      (((new size source sink).machine code).runFor n).Shows (endless.runFor n)
        (endless.Visits n) := by
    have hsize : ((new size source sink).machine code).state.tape.size = size.cells :=
      (Tape.size_clear _).trans (Tape.size_blank size)
    exact Machine.runFor_shows (rolled_machine size source sink code) (fun _ => rfl) (hsize ▸ h)
  refine ⟨fun size h => ⟨hshows size h, (hshows size h).place.ending_eq⟩, fun size size' h h' => ?_⟩
  have hs := hshows size h
  have hs' := hshows size' h'
  refine ⟨hs.place.ending_eq.trans hs'.place.ending_eq.symm, ?_, ?_⟩
  · rw [run, run, Progress.sink_close, Progress.sink_close, hs.sink, hs'.sink]
  · rw [run, run, Progress.source_close, Progress.source_close, hs.source, hs'.source]

/-- Left of the start and back, on three cells and on five. -/
theorem run_as_on_endless_tape_left :
    let code := Code.parse (.text "<+>>,[<]<.")
    let endless := EndlessMachine.ofCode code (.ofBytes #[1]) (.empty none)
    endless.rightmost 12 - endless.leftmost 12 = 2 ∧
      (((new ⟨3, by decide⟩ (.ofBytes #[1]) (.empty none)).machine code).runFor 12).Shows
        (endless.runFor 12) (endless.Visits 12) ∧
      ((new ⟨3, by decide⟩ (.ofBytes #[1]) (.empty none)).run 12 code).1 =
        ((new ⟨5, by decide⟩ (.ofBytes #[1]) (.empty none)).run 12 code).1 := by
  intro code endless
  have hspan : endless.rightmost 12 - endless.leftmost 12 = 2 := by decide
  have hrun := run_as_on_endless_tape code (.ofBytes #[1]) (.empty none) 12
  have hthree : endless.rightmost 12 - endless.leftmost 12 < 3 := by omega
  have hfive : endless.rightmost 12 - endless.leftmost 12 < 5 := by omega
  exact ⟨hspan, (hrun.1 ⟨3, by decide⟩ hthree).1, (hrun.2 ⟨3, by decide⟩ ⟨5, by decide⟩ hthree hfive).1⟩

end Interpreter

end Brainfuck
