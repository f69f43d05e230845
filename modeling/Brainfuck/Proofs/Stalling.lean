/-
A run can go on without performing actions in one way only: at a loop with an
empty body, while the cell under the cursor is not zero.

Between two actions the cell does not change, so it alone decides what the
steps between them can be. With zero in the cell loops are skipped and bodies
are left, and every such step takes weight off what the frames have left to do
(`Machine.ahead`). With anything else in it a body is begun again at most
once; from there on loops are entered, each the first instruction of the body
of the one before, until there is an instruction that is no loop, or no
instruction at all (`Machine.comesTo_of_read_ne_zero`). The frames form a path
in the tree of the code, so the weight of the code bounds both.
-/
import Brainfuck.Proofs.Actions
import Brainfuck.Proofs.Frames

namespace Brainfuck

namespace Code

/-- No loop has an empty body, at any depth. -/
def Filled : Code → Prop
  | nil => True
  | act _ k => k.Filled
  | loop b k => b ≠ nil ∧ b.Filled ∧ k.Filled
  | foreign _ k => k.Filled

instance decidableFilled : (k : Code) → Decidable k.Filled
  | nil => .isTrue trivial
  | act _ k => decidableFilled k
  | loop b k =>
    have := decidableFilled b
    have := decidableFilled k
    inferInstanceAs (Decidable (b ≠ nil ∧ b.Filled ∧ k.Filled))
  | foreign _ k => decidableFilled k

theorem filled_append {k l : Code} : (k ++ l).Filled ↔ k.Filled ∧ l.Filled := by
  induction k with
  | nil => simp [Filled]
  | act a k ih => simp [Filled, ih]
  | loop b k _ ih => simp [Filled, ih, and_assoc]
  | foreign f k ih => simp [Filled, ih]

theorem weight_pos (k : Code) : 0 < k.weight := by
  induction k with
  | nil => exact Nat.one_pos
  | act | foreign => exact Nat.succ_pos _
  | loop b k _ ih => exact Nat.add_pos_right b.weight ih

theorem weight_append (k l : Code) : (k ++ l).weight + 1 = k.weight + l.weight := by
  induction k with
  | nil => exact Nat.add_comm l.weight 1
  | act a k ih => simp only [act_append, weight]; omega
  | loop b k _ ih => simp only [loop_append, weight]; omega
  | foreign f k ih => simp only [foreign_append, weight]; omega

end Code

/-! ## What is ahead -/

/-- The weight of all that stands behind the loops that these frames are in front of. -/
def Frame.weightBehind : List Frame → Nat
  | [] => 0
  | parent :: outer => parent.todo.tail.weight + weightBehind outer

/-- The weight of what a machine has left to do, if it goes round no loop again. -/
def Machine.ahead (m : Machine) : Nat :=
  m.frame.todo.weight + Frame.weightBehind m.outer

namespace Path

variable {code : Code} {frame : Frame} {outer : List Frame}

theorem ahead_le (h : Path code frame outer) :
    frame.todo.weight + Frame.weightBehind outer ≤ code.weight := by
  induction h with
  | @top done todo hb =>
    have hweight := Code.weight_append done todo
    have hpos := done.weight_pos
    rw [← hb] at hweight
    simp only [Frame.weightBehind]
    omega
  | @inside body inner rest done todo outer _ hb ih =>
    have hweight := Code.weight_append done todo
    have hpos := done.weight_pos
    rw [← hb] at hweight
    simp only [Code.weight] at ih
    simp only [Frame.weightBehind, Code.tail]
    omega

/-- The body of an inner frame weighs less than the code. -/
theorem body_weight_lt {parent : Frame} (h : Path code frame (parent :: outer)) :
    frame.body.weight < code.weight := by
  cases h with
  | @inside body inner rest done todo _ hp _ =>
    have hle := hp.ahead_le
    have hpos := rest.weight_pos
    simp only [Code.weight] at hle
    show inner.weight < code.weight
    omega

theorem filled (h : Path code frame outer) (hk : code.Filled) : frame.todo.Filled := by
  induction h with
  | top hb => rw [hb] at hk; exact (Code.filled_append.mp hk).2
  | inside _ hb ih => rw [hb] at ih; exact (Code.filled_append.mp ih.2.1).2

theorem body_filled {parent : Frame} (h : Path code frame (parent :: outer)) (hk : code.Filled) :
    frame.body ≠ .nil := by
  cases h with
  | inside hp _ => exact (hp.filled hk).1

end Path

namespace Machine

/-! ## Where a run gets to -/

/-- The next step performs an action, or is the last one. -/
def Stirs (m : Machine) : Prop :=
  m.action? ≠ none ∨ ∃ r, m.Halts r

/-- The machine is about to test a loop with an empty body, in front of it or
inside it, and the cell under the cursor is not zero. -/
inductive AtEmptyLoop : Machine → Prop where
  | before {body rest : Code} {outer : List Frame} {i : Interpreter} :
    i.tape.read ≠ 0 → AtEmptyLoop ⟨⟨body, .loop .nil rest⟩, outer, i⟩
  | inside {parent : Frame} {outer : List Frame} {i : Interpreter} :
    i.tape.read ≠ 0 → AtEmptyLoop ⟨⟨.nil, .nil⟩, parent :: outer, i⟩

/-- In fewer than `n` steps the machine comes to where `P` holds. -/
def ComesTo (P : Machine → Prop) (n : Nat) (m : Machine) : Prop :=
  ∃ s m', s < n ∧ m.runFor s = .running m' ∧ P m'

namespace ComesTo

variable {P : Machine → Prop} {n k : Nat} {m m' : Machine}

theorem here (hn : 0 < n) (h : P m) : ComesTo P n m :=
  ⟨0, m, hn, rfl, h⟩

theorem of_moves (hm : m.Moves m') (h : ComesTo P n m') : ComesTo P (n + 1) m := by
  obtain ⟨s, m'', hs, hrun, hp⟩ := h
  exact ⟨s + 1, m'', Nat.succ_lt_succ hs, (hm.runFor_succ s).trans hrun, hp⟩

theorem mono (h : ComesTo P n m) (hn : n ≤ k) : ComesTo P k m := by
  obtain ⟨s, m', hs, hrun, hp⟩ := h
  exact ⟨s, m', Nat.lt_of_lt_of_le hs hn, hrun, hp⟩

theorem imp {Q : Machine → Prop} (h : ComesTo P n m)
    (hpq : ∀ s m', m.runFor s = .running m' → P m' → Q m') : ComesTo Q n m := by
  obtain ⟨s, m', hs, hrun, hp⟩ := h
  exact ⟨s, m', hs, hrun, hpq s m' hrun hp⟩

end ComesTo

/-! ## With zero in the cell -/

theorem Moves.ahead_lt {m m' : Machine} (hm : m.Moves m') (hz : m.state.tape.read = 0) :
    m.action? ≠ none ∨ (m'.ahead < m.ahead ∧ m'.state = m.state) := by
  cases hm with
  | act => exact .inl (Option.some_ne_none _)
  | @skip body inner rest outer i =>
    have hpos := inner.weight_pos
    refine .inr ⟨?_, rfl⟩
    simp only [ahead, Code.weight]
    omega
  | leave =>
    refine .inr ⟨?_, rfl⟩
    simp only [ahead, Frame.weightBehind, Code.weight]
    omega
  | enter hnz | again hnz => exact absurd hz hnz

theorem comesTo_of_read_eq_zero {m : Machine} (hz : m.state.tape.read = 0) :
    ComesTo Stirs m.ahead m := by
  have hpos : 0 < m.ahead := Nat.add_pos_left m.frame.todo.weight_pos _
  induction hn : m.ahead using Nat.strong_induction_on generalizing m with
  | _ n ih =>
    subst hn
    rcases m.moves_or_halts with ⟨m', hm⟩ | hr
    · rcases hm.ahead_lt hz with hact | ⟨hlt, hstate⟩
      · exact .here hpos (.inl hact)
      · have hz' : m'.state.tape.read = 0 := hstate ▸ hz
        have hpos' : 0 < m'.ahead := Nat.add_pos_left m'.frame.todo.weight_pos _
        exact ((ih m'.ahead hlt hz' hpos' rfl).of_moves hm).mono hlt
    · exact .here hpos (.inr hr)

/-! ## With anything else in the cell -/

/-- Down the first instructions of bodies. -/
theorem comesTo_of_read_ne_zero {todo : Code} (htodo : todo ≠ .nil) (body : Code)
    (outer : List Frame) {i : Interpreter} (hnz : i.tape.read ≠ 0) :
    ComesTo (fun m => m.Stirs ∨ m.AtEmptyLoop) todo.weight ⟨⟨body, todo⟩, outer, i⟩ := by
  induction todo generalizing body outer with
  | nil => exact absurd rfl htodo
  | act a rest => exact .here (Nat.succ_pos _) (.inl (.inl (Option.some_ne_none _)))
  | foreign f rest => exact .here (Nat.succ_pos _) (.inl (.inr ⟨_, .foreign⟩))
  | loop inner rest ih _ =>
    have hpos := rest.weight_pos
    by_cases hinner : inner = .nil
    · subst hinner
      exact .here (Code.weight_pos _) (.inr (.before hnz))
    · have hdown := ih hinner inner (⟨body, .loop inner rest⟩ :: outer)
      exact (hdown.of_moves (.enter hnz)).mono (Nat.add_le_add_left hpos inner.weight)

/-- From anywhere on a path: within the weight of the code something stirs, or
an empty loop is come to that is not left. -/
theorem comesTo_of_path {code : Code} {m : Machine} (hp : Path code m.frame m.outer) :
    ComesTo (fun m => m.Stirs ∨ m.AtEmptyLoop) code.weight m := by
  have hle : m.ahead ≤ code.weight := hp.ahead_le
  by_cases hz : m.state.tape.read = 0
  · exact ((comesTo_of_read_eq_zero hz).mono hle).imp fun _ _ _ => .inl
  · obtain ⟨⟨body, todo⟩, outer, i⟩ := m
    by_cases htodo : todo = .nil
    · subst htodo
      cases outer with
      | nil => exact .here code.weight_pos (.inl (.inr ⟨_, .finish⟩))
      | cons parent outer =>
        by_cases hbody : body = .nil
        · subst hbody
          exact .here code.weight_pos (.inr (.inside hz))
        · have hdown := comesTo_of_read_ne_zero hbody body (parent :: outer) hz
          exact (hdown.of_moves (.again hz)).mono hp.body_weight_lt
    · have hdown := comesTo_of_read_ne_zero htodo body outer hz
      exact hdown.mono (Nat.le_trans (Nat.le_add_right _ _) hle)

/-! ## At an empty loop -/

namespace AtEmptyLoop

variable {m : Machine}

theorem action?_eq_none (h : m.AtEmptyLoop) : m.action? = none := by
  cases h <;> rfl

/-- The loop is entered and begun again, and that is all. -/
theorem moves (h : m.AtEmptyLoop) : ∃ m', m.Moves m' ∧ m'.AtEmptyLoop ∧ m'.state = m.state := by
  cases h with
  | before hnz => exact ⟨_, .enter hnz, .inside hnz, rfl⟩
  | inside hnz => exact ⟨_, .again hnz, .inside hnz, rfl⟩

theorem runFor (h : m.AtEmptyLoop) (n : Nat) :
    ∃ m', m.runFor n = .running m' ∧ m'.AtEmptyLoop ∧ m'.state = m.state := by
  induction n generalizing m with
  | zero => exact ⟨m, rfl, h, rfl⟩
  | succ n ih =>
    obtain ⟨m', hm, hthere, hstate⟩ := h.moves
    obtain ⟨m'', hrun, hstays, hstate'⟩ := ih hthere
    exact ⟨m'', (hm.runFor_succ n).trans hrun, hstays, hstate'.trans hstate⟩

theorem runFor_add {m₀ : Machine} {t : Nat} (ht : m₀.runFor t = .running m) (h : m.AtEmptyLoop)
    (n : Nat) :
    ∃ m', m₀.runFor (t + n) = .running m' ∧ m'.AtEmptyLoop ∧ m'.state = m.state := by
  rw [Machine.runFor_add, ht]
  exact h.runFor n

end AtEmptyLoop

/-- There is no empty loop on a path in code without them. -/
theorem not_atEmptyLoop {code : Code} {m : Machine} (hk : code.Filled)
    (hp : Path code m.frame m.outer) : ¬ m.AtEmptyLoop := by
  intro h
  cases h with
  | before => exact (hp.filled hk).1 rfl
  | inside => exact hp.body_filled hk rfl

/-! ## Whole runs -/

/-- From some step on, no action is performed. -/
def ActsFinitely (m : Machine) : Prop :=
  ∃ n, ∀ t, n ≤ t → (m.runFor t).action? = none

theorem EndsAs.actsFinitely {m : Machine} {r : Result} (h : m.EndsAs r) : m.ActsFinitely := by
  obtain ⟨n, hn⟩ := h
  exact ⟨n, fun t ht => action?_of_ended hn ht⟩

section Runs

variable {k : Code} {i : Interpreter} {t : Nat} {m : Machine}

theorem stalls_of_atEmptyLoop (ht : (ofCode k i).runFor t = .running m) (h : m.AtEmptyLoop) :
    (ofCode k i).Endless ∧ (ofCode k i).ActsFinitely := by
  constructor
  · rw [endless_iff]
    rintro ⟨r, n, hn⟩
    obtain ⟨m', hrun, -, -⟩ := h.runFor_add ht n
    rw [runFor_of_ended hn (Nat.le_add_left n t)] at hrun
    exact r.progress_ne_running m' hrun
  · refine ⟨t, fun s hs => ?_⟩
    obtain ⟨n, rfl⟩ := Nat.exists_eq_add_of_le hs
    obtain ⟨m', hrun, hthere, -⟩ := h.runFor_add ht n
    rw [hrun]
    exact hthere.action?_eq_none

/-- A run that goes on and performs no more actions has come to an empty loop. -/
theorem atEmptyLoop_of_stalls (hendless : (ofCode k i).Endless)
    (hacts : (ofCode k i).ActsFinitely) :
    ∃ t m, (ofCode k i).runFor t = .running m ∧ m.AtEmptyLoop := by
  obtain ⟨n, hn⟩ := hacts
  obtain ⟨m, hm⟩ := hendless n
  obtain ⟨s, m', -, hs, hthere⟩ := comesTo_of_path (path_of_runFor hm)
  have hrun : (ofCode k i).runFor (n + s) = .running m' := by
    rw [runFor_add, hm]
    exact hs
  rcases hthere with (hact | ⟨r, hr⟩) | hempty
  · have hnone := hn (n + s) (Nat.le_add_right n s)
    rw [hrun] at hnone
    exact absurd hnone hact
  · have hend : (ofCode k i).runFor (n + s + 1) = r.progress := by
      rw [runFor_add, hrun]
      exact hr.runFor_succ 0
    exact absurd ⟨r, _, hend⟩ (endless_iff.mp hendless)
  · exact ⟨n + s, m', hrun, hempty⟩

end Runs

/-- **There is one way to stall.** In a run of code without empty loops, from
every state that it comes to, there are fewer steps than the weight of the code
before one that performs an action or ends the run; so the run ends if it
performs only finitely many actions. In a run of any code, once it is about to
test an empty loop with something else than zero in the cell, every step after
that leaves the interpreter, its tape and its streams as they are and is
followed by another; and these are the only runs that go on for ever while they
perform only finitely many actions. -/
theorem stalls_only_at_empty_loop (k : Code) :
    (k.Filled → ∀ i t m, (ofCode k i).runFor t = .running m → m.ComesTo Stirs k.weight) ∧
      (k.Filled → ∀ i, (ofCode k i).ActsFinitely ↔ ∃ r, (ofCode k i).EndsAs r) ∧
      (∀ i t m, (ofCode k i).runFor t = .running m → m.AtEmptyLoop → ∀ n, ∃ m',
        (ofCode k i).runFor (t + n) = .running m' ∧ m'.action? = none ∧ m'.state = m.state) ∧
      ∀ i, (ofCode k i).Endless ∧ (ofCode k i).ActsFinitely ↔
        ∃ t m, (ofCode k i).runFor t = .running m ∧ m.AtEmptyLoop := by
  refine ⟨?_, ?_, ?_, ?_⟩
  · intro hk i t m hm
    have hp : Path k m.frame m.outer := path_of_runFor hm
    refine (comesTo_of_path hp).imp fun s m' hs hthere => ?_
    exact hthere.resolve_right (not_atEmptyLoop hk (hp.of_runFor hs))
  · intro hk i
    refine ⟨fun hacts => ?_, fun ⟨r, hr⟩ => hr.actsFinitely⟩
    by_contra hends
    obtain ⟨t, m, hm, hempty⟩ := atEmptyLoop_of_stalls (endless_iff.mpr hends) hacts
    exact not_atEmptyLoop hk (path_of_runFor hm) hempty
  · intro i t m hm hempty n
    obtain ⟨m', hrun, hthere, hstate⟩ := hempty.runFor_add hm n
    exact ⟨m', hrun, hthere.action?_eq_none, hstate⟩
  · intro i
    constructor
    · rintro ⟨hendless, hacts⟩
      exact atEmptyLoop_of_stalls hendless hacts
    · rintro ⟨t, m, hm, hempty⟩
      exact stalls_of_atEmptyLoop hm hempty

/-- Three loops that begin with one another, and an empty loop inside a loop. -/
theorem stalls_in_nested_loops :
    let i := Interpreter.new ⟨2, by decide⟩ (.ofBytes #[]) (.empty none)
    let filled := Code.parse (.text "+[[[-]>]]")
    let hollow := Code.parse (.text "+[[]]")
    (filled.Filled ∧ filled.weight = 7 ∧
      ∃ m, (ofCode filled i).runFor 1 = .running m ∧ m.ComesTo Stirs 7) ∧
      ((ofCode filled i).ActsFinitely ∧ ∃ r, (ofCode filled i).EndsAs r) ∧
      ∃ m, (ofCode hollow i).runFor 2 = .running m ∧ m.AtEmptyLoop ∧ ∀ n, ∃ m',
        (ofCode hollow i).runFor (2 + n) = .running m' ∧ m'.action? = none ∧
          m'.state = m.state := by
  intro i filled hollow
  have hfilled : filled.Filled := by decide
  have hweight : filled.weight = 7 := by decide
  have hstalls := stalls_only_at_empty_loop filled
  have hends : ∃ r, (ofCode filled i).EndsAs r := ⟨.finished _, 10, rfl⟩
  have hcome : ∃ m, (ofCode hollow i).runFor 2 = .running m ∧ m.AtEmptyLoop :=
    ⟨_, rfl, .before (by decide)⟩
  obtain ⟨m, hm, hempty⟩ := hcome
  refine ⟨⟨hfilled, hweight, _, rfl, ?_⟩, ⟨(hstalls.2.1 hfilled i).mpr hends, hends⟩,
    m, hm, hempty, (stalls_only_at_empty_loop hollow).2.2.1 i 2 m hm hempty⟩
  exact hweight ▸ hstalls.1 hfilled i 1 _ rfl

end Machine

end Brainfuck
