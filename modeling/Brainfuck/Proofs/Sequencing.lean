/-
One program behind another.

In a text: behind commands with balanced brackets only the outermost body is
open, so what follows them is read as if it stood alone
(`Code.ofCommands_append`).

In a run: of all the frames only the outermost one knows what stands behind
the code that is run, and it comes to know it no sooner than all of that code
is done. So a machine with more code behind makes the very same steps
(`Machine.FollowedBy.runFor`), until the one without it has its last step
left; there the other one begins with what stands behind, in the same state.
That the outermost frame has another body to go back to does not matter, for
it is no loop and never goes back; and with nothing behind, the same lemma says
that this is a run of what stands behind by itself.
-/
import Brainfuck.Proofs.Passing
import Brainfuck.Proofs.RoundTrip

namespace Brainfuck

/-! ## Texts -/

/-- A program text that is two others of the same kind, one after the other. -/
inductive ProgramText.Joins : ProgramText → ProgramText → ProgramText → Prop where
  | text (s t : String) : Joins (.text s) (.text t) (.text (s ++ t))
  | pieces (ps qs : List String) : Joins (.pieces ps) (.pieces qs) (.pieces (ps ++ qs))

theorem ProgramText.Joins.commands {s t u : ProgramText} (h : Joins s t u) :
    u.commands = s.commands ++ t.commands := by
  cases h with
  | text s t => exact commands_append s t
  | pieces ps qs => exact commands_append_pieces ps qs

namespace Code

/-- What follows a program that was written down is read by itself. -/
theorem ofCommands_commands_append {k : Code} (hk : k.Proper) (cs : List Command) :
    ofCommands (k.commands ++ cs) = k ++ ofCommands cs := by
  calc ofCommands (k.commands ++ cs)
    _ = build (k.reverseOnto nil) [] cs := build_commands hk nil [] cs
    _ = k.reverse.reverse ++ (descend cs).1.1 := build_eq_descend _ [] cs
    _ = k ++ ofCommands cs := by rw [reverse_reverse, ofCommands_eq_ofGrammar]; rfl

/-- Balanced commands are those of the program that is read from them. -/
theorem commands_ofCommands_of_balanced {cs : List Command} (h : Command.Balanced cs) :
    (ofCommands cs).commands = cs := by
  obtain ⟨hreached, hlevel⟩ := h
  rw [commands_ofCommands, Command.completed, hreached, hlevel]
  exact List.append_nil cs

theorem ofCommands_append {cs : List Command} (h : Command.Balanced cs) (ds : List Command) :
    ofCommands (cs ++ ds) = ofCommands cs ++ ofCommands ds := by
  have hread := ofCommands_commands_append (proper_ofCommands cs) ds
  rwa [commands_ofCommands_of_balanced h] at hread

end Code

/-! ## Frames -/

/-- The same frames, but the outermost one has `l` to do behind the rest, and
its body may be any. -/
inductive Frame.FollowedBy (l : Code) : Frame → List Frame → Frame → List Frame → Prop where
  | top {body body' todo : Code} : FollowedBy l ⟨body, todo⟩ [] ⟨body', todo ++ l⟩ []
  | inside {frame : Frame} {body body' inner rest rest' : Code} {outer outer' : List Frame} :
    FollowedBy l ⟨body, .loop inner rest⟩ outer ⟨body', .loop inner rest'⟩ outer' →
      FollowedBy l frame (⟨body, .loop inner rest⟩ :: outer)
        frame (⟨body', .loop inner rest'⟩ :: outer')

/-- With nothing behind, outermost frames differ in their bodies alone. -/
theorem Frame.FollowedBy.top_nil {body body' todo : Code} :
    FollowedBy .nil ⟨body, todo⟩ [] ⟨body', todo⟩ [] := by
  have htop : FollowedBy .nil ⟨body, todo⟩ [] ⟨body', todo ++ .nil⟩ [] := .top
  rwa [Code.append_nil] at htop

/-- Past a loop in front of both. -/
theorem Frame.FollowedBy.past {l body body' inner rest rest' : Code} {outer outer' : List Frame}
    (h : FollowedBy l ⟨body, .loop inner rest⟩ outer ⟨body', .loop inner rest'⟩ outer') :
    FollowedBy l ⟨body, rest⟩ outer ⟨body', rest'⟩ outer' := by
  cases h with
  | top => exact .top
  | inside h => exact .inside h

/-- The same state, and frames that differ in what stands behind. -/
structure Machine.FollowedBy (l : Code) (m m' : Machine) : Prop where
  frames : Frame.FollowedBy l m.frame m.outer m'.frame m'.outer
  state : m'.state = m.state

/-- In the same place. Where the one has finished, the other is about to begin
with what stands behind; if that is nothing, it has finished too. -/
inductive Progress.FollowedBy (l : Code) : Progress → Progress → Prop where
  | running {m m' : Machine} : m.FollowedBy l m' → FollowedBy l (.running m) (.running m')
  | stopped {f : Fault} {i : Interpreter} : FollowedBy l (.stopped f i) (.stopped f i)
  | finished {i : Interpreter} {p : Progress} :
    (l = .nil → p = .finished i) → FollowedBy l (.finished i) p

namespace Machine.FollowedBy

variable {l : Code} {m m' : Machine}

theorem moves {n : Machine} (h : m.FollowedBy l m') (hm : m.Moves n) :
    ∃ n', m'.Moves n' ∧ n.FollowedBy l n' := by
  obtain ⟨frame', outer', i'⟩ := m'
  obtain ⟨hframes, rfl⟩ := h
  cases hm with
  | act hp =>
    cases hframes with
    | top => exact ⟨_, .act hp, .top, rfl⟩
    | inside hparent => exact ⟨_, .act hp, .inside hparent, rfl⟩
  | skip hz =>
    cases hframes with
    | top => exact ⟨_, .skip hz, .top, rfl⟩
    | inside hparent => exact ⟨_, .skip hz, .inside hparent, rfl⟩
  | enter hnz =>
    cases hframes with
    | top => exact ⟨_, .enter hnz, .inside .top, rfl⟩
    | inside hparent => exact ⟨_, .enter hnz, .inside (.inside hparent), rfl⟩
  | again hnz =>
    cases hframes with
    | inside hparent => exact ⟨_, .again hnz, .inside hparent, rfl⟩
  | leave hz =>
    cases hframes with
    | inside hparent => exact ⟨_, .leave hz, hparent.past, rfl⟩

theorem stops {f : Fault} {i : Interpreter} (h : m.FollowedBy l m') (hr : m.Halts (.stopped f i)) :
    m'.Halts (.stopped f i) := by
  obtain ⟨frame', outer', i'⟩ := m'
  obtain ⟨hframes, rfl⟩ := h
  cases hr with
  | fault hp =>
    cases hframes with
    | top => exact .fault hp
    | inside => exact .fault hp
  | foreign =>
    cases hframes with
    | top => exact .foreign
    | inside => exact .foreign

theorem finishes {i : Interpreter} (h : m.FollowedBy .nil m') (hr : m.Halts (.finished i)) :
    m'.Halts (.finished i) := by
  obtain ⟨frame', outer', i'⟩ := m'
  obtain ⟨hframes, rfl⟩ := h
  cases hr with
  | finish =>
    cases hframes with
    | top => exact .finish

/-- With more code behind, a machine makes the same steps. -/
theorem runFor (h : m.FollowedBy l m') (n : Nat) :
    Progress.FollowedBy l (m.runFor n) (m'.runFor n) := by
  induction n generalizing m m' with
  | zero => exact .running h
  | succ n ih =>
    rcases m.moves_or_halts with ⟨k, hm⟩ | ⟨r, hr⟩
    · obtain ⟨k', hm', hk⟩ := h.moves hm
      rw [hm.runFor_succ, hm'.runFor_succ]
      exact ih hk
    · rw [hr.runFor_succ]
      cases r with
      | stopped f i =>
        rw [(h.stops hr).runFor_succ]
        exact .stopped
      | finished i =>
        refine .finished ?_
        rintro rfl
        rw [(h.finishes hr).runFor_succ]
        rfl

/-- A machine at the end of its code, with more behind, is about to run that. -/
theorem behind {body : Code} {i : Interpreter} (h : FollowedBy l ⟨⟨body, .nil⟩, [], i⟩ m') :
    (ofCode l i).FollowedBy .nil m' := by
  obtain ⟨frame', outer', i'⟩ := m'
  obtain ⟨hframes, rfl⟩ := h
  cases hframes with
  | top => exact ⟨.top_nil, rfl⟩

end Machine.FollowedBy

theorem Machine.followedBy_ofCode (k l : Code) (i : Interpreter) :
    (ofCode k i).FollowedBy l (ofCode (k ++ l) i) :=
  ⟨.top, rfl⟩

/-- A run that has finished was at the end of its code before. -/
theorem Machine.exists_end {m : Machine} {n : Nat} {i : Interpreter} (h : m.runFor n = .finished i) :
    ∃ s body, s < n ∧ m.runFor s = .running ⟨⟨body, .nil⟩, [], i⟩ := by
  obtain ⟨s, m', hlt, hs, hr⟩ := halts_of_runFor (r := .finished i) h
  cases hr with
  | finish => exact ⟨s, _, hlt, hs⟩

/-! ## Executions -/

/-- What an execution comes to: its ending and the world it leaves. -/
def outcome (p : Ending × Interpreter) : Ending × World :=
  (p.1, p.2.world)

/-- As much of a run has the same outcome, unless it has finished where there
is more to do. -/
theorem Progress.FollowedBy.outcome_eq {l : Code} {p q : Progress} (h : FollowedBy l p q)
    (hl : p.close.1 ≠ .finished ∨ l = .nil) : outcome q.close = outcome p.close := by
  cases h with
  | @running m m' hm =>
    show (Ending.unfinished, m'.state.world) = (Ending.unfinished, m.state.world)
    rw [hm.state]
  | stopped => rfl
  | finished hq => rw [hq (hl.resolve_left fun hne => hne rfl)]

namespace Interpreter

/-- Runs code from the state as it is, for at most `fuel` steps. Nothing is
cleared. -/
def proceed (fuel : Nat) (code : Code) (i : Interpreter) : Ending × Interpreter :=
  ((Machine.ofCode code i).runFor fuel).close

/-- What was noted before does not matter. -/
theorem outcome_proceed (n : Nat) (code : Code) (i : Interpreter) :
    outcome (i.proceed n code) = outcome ({ i with log := [] }.proceed n code) := by
  have hmap : Machine.ofCode code i =
      (Machine.ofCode code { i with log := [] }).map (Change.logged i.log).apply := by
    simp only [Machine.ofCode, Machine.map, Change.apply, Change.logged, List.append_nil]
    rfl
  rw [proceed, hmap, Change.close_runFor_logged]
  rfl

theorem outcome_proceed_congr {i j : Interpreter} (h : { i with log := [] } = { j with log := [] })
    (n : Nat) (code : Code) : outcome (i.proceed n code) = outcome (j.proceed n code) := by
  rw [outcome_proceed, h, ← outcome_proceed]

theorem outcome_run (n : Nat) (code : Code) (i : Interpreter) :
    outcome (i.run n code) = outcome (i.begun.proceed n code) :=
  outcome_proceed n code (i.start code)

theorem outcome_proceed_append {n : Nat} {k : Code} {i : Interpreter}
    (h : (i.proceed n k).1 ≠ .finished) (l : Code) :
    outcome (i.proceed n (k ++ l)) = outcome (i.proceed n k) :=
  ((Machine.followedBy_ofCode k l i).runFor n).outcome_eq (.inl h)

theorem outcome_proceed_behind {n : Nat} {k : Code} {i j : Interpreter}
    (h : (Machine.ofCode k i).runFor n = .finished j) (l : Code) :
    ∃ s, s < n ∧ ∀ t, outcome (i.proceed (s + t) (k ++ l)) = outcome (j.proceed t l) := by
  obtain ⟨s, body, hs, hend⟩ := Machine.exists_end h
  refine ⟨s, hs, fun t => ?_⟩
  have hthere := (Machine.followedBy_ofCode k l i).runFor s
  rw [hend] at hthere
  cases hrun : (Machine.ofCode (k ++ l) i).runFor s with
  | running m' =>
    rw [hrun] at hthere
    cases hthere with
    | running hm =>
      rw [proceed, Machine.runFor_add, hrun]
      exact (hm.behind.runFor t).outcome_eq (.inr rfl)
  | stopped | finished => rw [hrun] at hthere; cases hthere

/-- **Executing two texts in one is executing one after the other.** If the
brackets of the first are balanced, the program of both together is that of the
first followed by that of the second. For as many steps as the first one alone
does not finish in, whether it is stopped by a fault, needs more or runs for
ever, both together have the outcome of the first. Where the first one finishes,
both together have come to the same state some steps before, and go on from it
as the second one does with nothing cleared. -/
theorem execute_joins (i : Interpreter) {s t u : ProgramText} (hu : ProgramText.Joins s t u)
    (hs : Command.Balanced s.commands) :
    Code.parse u = Code.parse s ++ Code.parse t ∧
      (∀ n, (i.execute n s).1 ≠ .finished →
        outcome (i.execute n u) = outcome (i.execute n s)) ∧
      ∀ n j, i.execute n s = (.finished, j) → ∃ m, m < n ∧
        ∀ k, outcome (i.execute (m + k) u) = outcome (j.proceed k (Code.parse t)) := by
  have hparse : Code.parse u = Code.parse s ++ Code.parse t := by
    rw [Code.parse, hu.commands, Code.ofCommands_append hs]
    rfl
  refine ⟨hparse, ?_, ?_⟩
  · intro n hn
    have hbegun : (i.begun.proceed n (Code.parse s)).1 ≠ .finished := by
      rw [execute, run_eq_begun] at hn
      exact hn
    rw [execute, execute, hparse, outcome_run, outcome_run, outcome_proceed_append hbegun]
  · intro n j hj
    rw [execute, run_eq_begun] at hj
    cases hrun : (Machine.ofCode (Code.parse s) i.begun).runFor n with
    | finished j' =>
      rw [hrun] at hj
      cases hj
      obtain ⟨m, hm, hbehind⟩ := outcome_proceed_behind hrun (Code.parse t)
      refine ⟨m, hm, fun k => ?_⟩
      -- The two states differ in what has been noted, and in nothing else.
      rw [execute, hparse, outcome_run, hbehind]
      refine outcome_proceed_congr ?_ k (Code.parse t)
      rfl
    | running | stopped => rw [hrun] at hj; cases hj

/-- A loop that finishes, and behind it one that is never closed; and a text
that is stopped by its input before it comes to what is behind it. -/
theorem execute_joins_unclosed :
    let i := Interpreter.new ⟨2, by decide⟩ (.ofReplies #[.data [2], .failure "gone"]) (.empty none)
    Command.Balanced (ProgramText.text ",[>+<-]").commands ∧
      Code.parse (.text ",[>+<-]>[.-") = Code.parse (.text ",[>+<-]") ++ Code.parse (.text ">[.-") ∧
      (∃ j m, i.execute 14 (.text ",[>+<-]") = (.finished, j) ∧ m < 14 ∧
        ∀ k, outcome (i.execute (m + k) (.text ",[>+<-]>[.-")) =
          outcome (j.proceed k (Code.parse (.text ">[.-")))) ∧
      (i.execute 9 (.pieces [",", ","])).1 = .stopped (.sourceFailed "gone") ∧
      outcome (i.execute 9 (.pieces [",", ",", "]", "."])) =
        outcome (i.execute 9 (.pieces [",", ","])) := by
  intro i
  have hloop : Command.Balanced (ProgramText.text ",[>+<-]").commands := by decide
  have hreads : Command.Balanced (ProgramText.pieces [",", ","]).commands := by decide
  have hjoins := execute_joins i (.text ",[>+<-]" ">[.-") hloop
  have hstopped : (i.execute 9 (.pieces [",", ","])).1 = .stopped (.sourceFailed "gone") := by decide
  obtain ⟨m, hm, hbehind⟩ := hjoins.2.2 14 _ rfl
  refine ⟨hloop, hjoins.1, ⟨_, m, rfl, hm, hbehind⟩, hstopped, ?_⟩
  refine (execute_joins i (.pieces [",", ","] ["]", "."]) hreads).2.1 9 ?_
  rw [hstopped]
  decide

end Interpreter

end Brainfuck
