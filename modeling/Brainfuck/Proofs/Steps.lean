/-
One step of the machine, and any number of them.

`Machine.Moves` says once what a step that goes on can do, and
`Machine.Halts` how one that does not ends; what a step keeps is proved by
cases on these. A run is then counted in steps (`runFor_add`): it comes to at
most one result, and it is endless exactly when it comes to none.
-/
import Brainfuck.Machine
import Brainfuck.Semantics

namespace Brainfuck

/-- Where an execution stands when it has come to a result. -/
def Result.progress : Result → Progress
  | finished i => .finished i
  | stopped f i => .stopped f i

theorem Result.progress_ne_running (r : Result) (m : Machine) : r.progress ≠ .running m := by
  cases r <;> simp [progress]

theorem Result.progress_inj {r s : Result} (h : r.progress = s.progress) : r = s := by
  cases r <;> cases s <;> simp_all [progress]

theorem Progress.running_or_result (p : Progress) :
    (∃ m, p = .running m) ∨ ∃ r : Result, p = r.progress := by
  cases p with
  | running m => exact .inl ⟨m, rfl⟩
  | finished i => exact .inr ⟨.finished i, rfl⟩
  | stopped f i => exact .inr ⟨.stopped f i, rfl⟩

/-- Where an execution stands after so many steps more. -/
def Progress.further (n : Nat) : Progress → Progress
  | running m => m.runFor n
  | p => p

@[simp] theorem Result.further_progress (r : Result) (n : Nat) :
    r.progress.further n = r.progress := by
  cases r <;> rfl

namespace Machine

/-! ## One step -/

/-- The five ways to go on: perform an action; skip a loop, or enter it; at
the end of a loop's body begin it again, or leave it. -/
inductive Moves : Machine → Machine → Prop where
  | act {a : Action} {body rest : Code} {outer : List Frame} {i j : Interpreter} :
    i.perform a = .done j → Moves ⟨⟨body, .act a rest⟩, outer, i⟩ ⟨⟨body, rest⟩, outer, j⟩
  | skip {body inner rest : Code} {outer : List Frame} {i : Interpreter} :
    i.tape.read = 0 → Moves ⟨⟨body, .loop inner rest⟩, outer, i⟩ ⟨⟨body, rest⟩, outer, i⟩
  | enter {body inner rest : Code} {outer : List Frame} {i : Interpreter} :
    i.tape.read ≠ 0 →
      Moves ⟨⟨body, .loop inner rest⟩, outer, i⟩ ⟨⟨inner, inner⟩, ⟨body, .loop inner rest⟩ :: outer, i⟩
  | again {body : Code} {parent : Frame} {outer : List Frame} {i : Interpreter} :
    i.tape.read ≠ 0 → Moves ⟨⟨body, .nil⟩, parent :: outer, i⟩ ⟨⟨body, body⟩, parent :: outer, i⟩
  | leave {body : Code} {parent : Frame} {outer : List Frame} {i : Interpreter} :
    i.tape.read = 0 →
      Moves ⟨⟨body, .nil⟩, parent :: outer, i⟩ ⟨⟨parent.body, parent.todo.tail⟩, outer, i⟩

/-- The three ways to end: with the last frame, by a fault of an action, or
at something that is no instruction. -/
inductive Halts : Machine → Result → Prop where
  | finish {body : Code} {i : Interpreter} : Halts ⟨⟨body, .nil⟩, [], i⟩ (.finished i)
  | fault {a : Action} {body rest : Code} {outer : List Frame} {i j : Interpreter} {f : Fault} :
    i.perform a = .fault f j → Halts ⟨⟨body, .act a rest⟩, outer, i⟩ (.stopped f j)
  | foreign {f : Foreign} {body rest : Code} {outer : List Frame} {i : Interpreter} :
    Halts ⟨⟨body, .foreign f rest⟩, outer, i⟩ (.stopped (.unknownInstruction f) i)

theorem Moves.step_eq {m m' : Machine} (h : Moves m m') : m.step = .running m' := by
  cases h with
  | act hp => simp [step, hp]
  | skip hz | enter hz | again hz | leave hz => simp [step, hz]

theorem Halts.step_eq {m : Machine} {r : Result} (h : Halts m r) : m.step = r.progress := by
  cases h with
  | finish | foreign => rfl
  | fault hp => simp [step, hp, Result.progress]

/-- Every step is one of these eight. -/
theorem moves_or_halts (m : Machine) : (∃ m', Moves m m') ∨ ∃ r, Halts m r := by
  obtain ⟨⟨body, todo⟩, outer, i⟩ := m
  cases todo with
  | nil =>
    cases outer with
    | nil => exact .inr ⟨_, .finish⟩
    | cons parent outer =>
      by_cases hz : i.tape.read = 0
      · exact .inl ⟨_, .leave hz⟩
      · exact .inl ⟨_, .again hz⟩
  | act a rest =>
    cases hp : i.perform a with
    | done j => exact .inl ⟨_, .act hp⟩
    | fault f j => exact .inr ⟨_, .fault hp⟩
  | loop inner rest =>
    by_cases hz : i.tape.read = 0
    · exact .inl ⟨_, .skip hz⟩
    · exact .inl ⟨_, .enter hz⟩
  | foreign f rest => exact .inr ⟨_, .foreign⟩

/-! ## Many steps -/

@[simp] theorem runFor_zero (m : Machine) : m.runFor 0 = .running m := rfl

theorem runFor_succ (n : Nat) (m : Machine) : m.runFor (n + 1) = m.step.further n := by
  rw [runFor]
  cases m.step <;> rfl

theorem runFor_add (n k : Nat) (m : Machine) : m.runFor (n + k) = (m.runFor n).further k := by
  induction n generalizing m with
  | zero => rw [Nat.zero_add]; rfl
  | succ n ih =>
    rw [Nat.add_right_comm, runFor_succ, runFor_succ]
    rcases m.step.running_or_result with ⟨m', h⟩ | ⟨r, h⟩
    · rw [h]; exact ih m'
    · rw [h]; simp

theorem Moves.runFor_succ {m m' : Machine} (h : Moves m m') (n : Nat) :
    m.runFor (n + 1) = m'.runFor n := by
  rw [Machine.runFor_succ, h.step_eq]
  rfl

theorem Halts.runFor_succ {m : Machine} {r : Result} (h : Halts m r) (n : Nat) :
    m.runFor (n + 1) = r.progress := by
  rw [Machine.runFor_succ, h.step_eq, Result.further_progress]

/-- A run that has come to a result stays there. -/
theorem runFor_of_ended {n t : Nat} {m : Machine} {r : Result} (h : m.runFor n = r.progress)
    (ht : n ≤ t) : m.runFor t = r.progress := by
  obtain ⟨d, rfl⟩ := Nat.exists_eq_add_of_le ht
  rw [runFor_add, h, Result.further_progress]

/-- A run that has come to a result came to it in a last step. -/
theorem halts_of_runFor {n : Nat} {m : Machine} {r : Result} (h : m.runFor n = r.progress) :
    ∃ k m', k < n ∧ m.runFor k = .running m' ∧ Halts m' r := by
  induction n generalizing m with
  | zero => exact absurd h.symm (r.progress_ne_running m)
  | succ n ih =>
    rcases m.moves_or_halts with ⟨m', hm⟩ | ⟨s, hs⟩
    · rw [hm.runFor_succ] at h
      obtain ⟨k, m'', hlt, hk, hr⟩ := ih h
      exact ⟨k + 1, m'', Nat.succ_lt_succ hlt, (hm.runFor_succ k).trans hk, hr⟩
    · rw [hs.runFor_succ] at h
      cases Result.progress_inj h
      exact ⟨0, m, Nat.succ_pos n, rfl, hs⟩

/-- The machine comes to a result. -/
def EndsAs (m : Machine) (r : Result) : Prop :=
  ∃ n, m.runFor n = r.progress

/-- The machine never comes to a result. -/
def Endless (m : Machine) : Prop :=
  ∀ n, ∃ m', m.runFor n = .running m'

theorem EndsAs.unique {m : Machine} {r s : Result} (hr : m.EndsAs r) (hs : m.EndsAs s) : r = s := by
  obtain ⟨n, hn⟩ := hr
  obtain ⟨k, hk⟩ := hs
  have h₁ : m.runFor (n + k) = r.progress := runFor_of_ended hn (Nat.le_add_right n k)
  have h₂ : m.runFor (n + k) = s.progress := runFor_of_ended hk (Nat.le_add_left k n)
  exact Result.progress_inj (h₁.symm.trans h₂)

theorem endless_iff {m : Machine} : m.Endless ↔ ¬ ∃ r, m.EndsAs r := by
  constructor
  · rintro h ⟨r, n, hn⟩
    obtain ⟨m', hm⟩ := h n
    exact r.progress_ne_running m' (hn.symm.trans hm)
  · intro h n
    rcases (m.runFor n).running_or_result with hm | ⟨r, hr⟩
    · exact hm
    · exact absurd ⟨r, n, hr⟩ h

end Machine

end Brainfuck
