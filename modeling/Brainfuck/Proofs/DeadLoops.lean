/-
A loop right behind a loop is dead, and so is a loop at the start of a program.

A loop is left at one place only, where the cell under the cursor is found to
be zero; wherever its body has taken the cursor, that is the cell under it now
(`Runs.read_eq_zero`). A loop that is met then is passed over. So it makes no
difference behind another loop, which is said of every state from which the two
can be run (`Code.alike_dead_loop`) and therefore holds in every text, for
balanced brackets are read as a loop in any place of it. A loop at the start of
a program is met with a clear tape, and from there alone it makes no difference.
-/
import Brainfuck.Proofs.Equivalence
import Brainfuck.Proofs.Sequencing

namespace Brainfuck

/-- A loop that finishes leaves zero under the cursor. -/
theorem Runs.read_eq_zero {b : Code} {i j : Interpreter}
    (h : Runs (.loop b .nil) i (.finished j)) : j.tape.read = 0 := by
  generalize hk : Code.loop b .nil = k at h
  generalize hr : Result.finished j = r at h
  induction h with
  | nil | act | actStopped | foreign => cases hk
  | skip hz hrest _ =>
    cases hk
    cases hrest
    cases hr
    exact hz
  | pass _ _ _ _ ih => exact ih hk hr
  | passStopped => cases hr

section Zero

variable {b k : Code} {i : Interpreter}

theorem Runs.loop_iff (hz : i.tape.read = 0) {r : Result} : Runs (.loop b k) i r ↔ Runs k i r := by
  constructor
  · intro h
    cases h with
    | skip _ hrest => exact hrest
    | pass hnz | passStopped hnz => exact absurd hz hnz
  · exact .skip hz

theorem Passes.loop_iff (hz : i.tape.read = 0) {s : Streams} :
    Passes (.loop b k) i s ↔ Passes k i s := by
  constructor
  · intro h
    cases h with
    | here => exact .here
    | skip _ hrest => exact hrest
    | inside hnz | pass hnz => exact absurd hz hnz
  · exact .skip hz

end Zero

namespace Code

/-- Behind a loop, another one makes no difference. -/
theorem alike_dead_loop (size : Nat) (a b : Code) :
    Alike size (loop a (loop b nil)) (loop a nil) := by
  constructor
  · intro i r _
    show Runs (loop a nil ++ loop b nil) i r ↔ Runs (loop a nil ++ nil) i r
    rw [Runs.append_iff, Runs.append_iff]
    refine or_congr Iff.rfl (exists_congr fun j => and_congr_right fun hj => ?_)
    exact Runs.loop_iff hj.read_eq_zero
  · intro i s _
    show Passes (loop a nil ++ loop b nil) i s ↔ Passes (loop a nil ++ nil) i s
    rw [Passes.append_iff, Passes.append_iff]
    refine or_congr Iff.rfl (exists_congr fun j => and_congr_right fun hj => ?_)
    exact Passes.loop_iff hj.read_eq_zero

section Balanced

variable {as bs : List Command} (ha : Command.Balanced as) (hb : Command.Balanced bs)
include hb

/-- Balanced commands between brackets are a loop. -/
theorem ofCommands_loop (after : List Command) :
    ofCommands (.openLoop :: (bs ++ .closeLoop :: after)) = loop (ofCommands bs) (ofCommands after) := by
  have hread := ofCommands_commands_append (k := loop (ofCommands bs) nil)
    ⟨proper_ofCommands bs, trivial⟩ after
  rw [commands_loop, commands_ofCommands_of_balanced hb, List.cons_append, List.append_assoc] at hread
  exact hread

include ha

/-- Two loops, one right behind the other, anywhere in a text. -/
theorem ofCommands_dead_loop (size : Nat) (before after : List Command) :
    Alike size
      (ofCommands (before ++
        .openLoop :: (as ++ .closeLoop :: .openLoop :: (bs ++ .closeLoop :: after))))
      (ofCommands (before ++ .openLoop :: (as ++ .closeLoop :: after))) := by
  have hpa : (ofCommands as).Proper := proper_ofCommands as
  have hpb : (ofCommands bs).Proper := proper_ofCommands bs
  have hread := ofCommands_replace (k := loop (ofCommands as) (loop (ofCommands bs) nil))
    (l := loop (ofCommands as) nil) ⟨hpa, hpb, trivial⟩ ⟨hpa, trivial⟩
    (alike_dead_loop size _ _) before after
  simpa only [commands_loop, commands_nil, commands_ofCommands_of_balanced ha,
    commands_ofCommands_of_balanced hb, List.cons_append, List.append_assoc,
    List.nil_append] using hread

end Balanced

end Code

/-! ## Executions -/

namespace Interpreter

/-- What code comes to when it finishes, nothing having been cleared. -/
theorem runs_of_proceed {n : Nat} {code : Code} {i j : Interpreter}
    (h : i.proceed n code = (.finished, j)) :
    ∃ j', Runs code i (.finished j') ∧ j'.tape = j.tape := by
  rw [proceed] at h
  cases hrun : (Machine.ofCode code i).runFor n with
  | finished j' =>
    rw [hrun] at h
    cases h
    exact ⟨j', Machine.endsAs_iff_runs.mp ⟨n, hrun⟩, rfl⟩
  | running | stopped => rw [hrun] at h; cases h

section Texts

variable {i : Interpreter} {s t : ProgramText} {as bs : List Command}

theorem ExecutesAlike.of_dead_loop (ha : Command.Balanced as) (hb : Command.Balanced bs)
    (before after : List Command)
    (hs : s.commands =
      before ++ .openLoop :: (as ++ .closeLoop :: .openLoop :: (bs ++ .closeLoop :: after)))
    (ht : t.commands = before ++ .openLoop :: (as ++ .closeLoop :: after)) :
    i.ExecutesAlike s t := by
  refine .of_alike ?_
  rw [Code.parse, Code.parse, hs, ht]
  exact Code.ofCommands_dead_loop ha hb _ before after

theorem ExecutesAlike.of_first_loop {after : List Command} (hb : Command.Balanced bs)
    (hs : s.commands = .openLoop :: (bs ++ .closeLoop :: after)) (ht : t.commands = after) :
    i.ExecutesAlike s t := by
  have hz : i.begun.tape.read = 0 := i.tape.read_clear
  have hparse : Code.parse s = .loop (Code.ofCommands bs) (Code.parse t) := by
    rw [Code.parse, Code.parse, hs, ht, Code.ofCommands_loop hb]
  refine .of_begun (fun r => ?_) fun s' => ?_
  · rw [hparse, Runs.loop_iff hz]
  · rw [hparse, Passes.loop_iff hz]

end Texts

/-- **A loop leaves zero behind, so a loop that follows it is dead.** From any
state and for any body, if a loop finishes, the cell then under the cursor is
zero. For any two texts with balanced brackets, one loop right behind another
can be left out of any text; so can a loop at the start of a text. The text is
executed alike, wherever the loops stand in it, whatever the first of them does,
and whether it comes as one or in pieces. -/
theorem executesAlike_dead_loop (i : Interpreter) :
    (∀ (n : Nat) (b : Code) (j j' : Interpreter),
      j.proceed n (.loop b .nil) = (.finished, j') → j'.tape.read = 0) ∧
    (∀ b : String, Command.Balanced (ProgramText.text b).commands → ∀ v : String,
      i.ExecutesAlike (.text ("[" ++ b ++ "]" ++ v)) (.text v) ∧
        ∀ a : String, Command.Balanced (ProgramText.text a).commands → ∀ u : String,
          i.ExecutesAlike (.text (u ++ "[" ++ a ++ "]" ++ "[" ++ b ++ "]" ++ v))
            (.text (u ++ "[" ++ a ++ "]" ++ v))) ∧
    ∀ bs : List String, Command.Balanced (ProgramText.pieces bs).commands → ∀ vs : List String,
      i.ExecutesAlike (.pieces (["["] ++ bs ++ ["]"] ++ vs)) (.pieces vs) ∧
        ∀ as : List String, Command.Balanced (ProgramText.pieces as).commands →
          ∀ us : List String,
            i.ExecutesAlike (.pieces (us ++ ["["] ++ as ++ ["]"] ++ ["["] ++ bs ++ ["]"] ++ vs))
              (.pieces (us ++ ["["] ++ as ++ ["]"] ++ vs)) := by
  have hopen : (ProgramText.text "[").commands = [.openLoop] := by decide
  have hclose : (ProgramText.text "]").commands = [.closeLoop] := by decide
  have hopens : (ProgramText.pieces ["["]).commands = [.openLoop] := by decide
  have hcloses : (ProgramText.pieces ["]"]).commands = [.closeLoop] := by decide
  refine ⟨?_, ?_, ?_⟩
  · intro n b j j' h
    obtain ⟨k, hk, htape⟩ := runs_of_proceed h
    rw [← htape]
    exact hk.read_eq_zero
  · intro b hb v
    refine ⟨.of_first_loop hb ?_ rfl, fun a ha u =>
      .of_dead_loop ha hb (ProgramText.text u).commands (ProgramText.text v).commands ?_ ?_⟩
    all_goals
      simp only [ProgramText.commands_append, hopen, hclose]
      simp only [List.append_assoc, List.cons_append, List.nil_append]
  · intro bs hb vs
    refine ⟨.of_first_loop hb ?_ rfl, fun as ha us =>
      .of_dead_loop ha hb (ProgramText.pieces us).commands (ProgramText.pieces vs).commands ?_ ?_⟩
    all_goals
      simp only [ProgramText.commands_append_pieces, hopens, hcloses]
      simp only [List.append_assoc, List.cons_append, List.nil_append]

/-- A loop whose body moves, in front of a dead loop inside a loop that is never
closed; and a loop with everything in it at the start. -/
theorem executesAlike_dead_loop_inside :
    let i := Interpreter.new ⟨3, by decide⟩ (.ofBytes #[2, 1]) (.empty (some 4))
    let j := (i.proceed 2 (.act .input .nil)).2
    (j.tape.read = 2 ∧ ∃ j', j.proceed 6 (.loop (.act .decrement .nil) .nil) = (.finished, j') ∧
      j'.tape.read = 0) ∧
      Command.Balanced (ProgramText.text ">,[-.]<").commands ∧
      Command.Balanced (ProgramText.text "[.>],").commands ∧
      i.ExecutesAlike (.text "[[.>],]+[.") (.text "+[.") ∧
      i.ExecutesAlike (.text ",[[>,[-.]<][[.>],]>") (.text ",[[>,[-.]<]>") ∧
      Command.Balanced (ProgramText.pieces ["+", "no", "."]).commands ∧
      i.ExecutesAlike (.pieces ["[", "+", "no", ".", "]", ","]) (.pieces [","]) := by
  intro i j
  have hmoves : Command.Balanced (ProgramText.text ">,[-.]<").commands := by decide
  have hdead : Command.Balanced (ProgramText.text "[.>],").commands := by decide
  have hpieces : Command.Balanced (ProgramText.pieces ["+", "no", "."]).commands := by decide
  have hloops := executesAlike_dead_loop i
  have hends : (j.proceed 6 (.loop (.act .decrement .nil) .nil)).1 = .finished := by decide
  have hj' : j.proceed 6 (.loop (.act .decrement .nil) .nil) = (.finished, _) := Prod.ext hends rfl
  refine ⟨⟨by decide, _, hj', hloops.1 6 _ j _ hj'⟩, hmoves, hdead, ?_, ?_, hpieces, ?_⟩
  · exact (hloops.2.1 _ hdead "+[.").1
  · exact (hloops.2.1 _ hdead ">").2 _ hmoves ",["
  · exact (hloops.2.2 _ hpieces [","]).1

end Interpreter

end Brainfuck
