/-
When one piece of a program text can stand for another.

Two pieces of code are alike on tapes of some size (`Code.Alike`) if, from
every state with such a tape, they come to the same results and past the same
streams. This is kept by all that code is made of: by what stands in front and
behind (`Alike.append`), and by a loop around it, however often it is run
(`Alike.loop`), for a run of the body leaves the size of the tape as it is.

It is kept by the reader too, and that for any brackets. Where the two pieces
stand in a text, some bodies are open, the same for both; after they are read
the innermost body is alike on both sides, and it stays so while the rest of
the text is read: bodies are ended and put into others on both sides at once
(`Code.build_alike`). If the text has ended before it comes to the pieces, there
is nothing to show. So texts that differ in alike pieces are alike as programs,
and are executed alike.
-/
import Mathlib.Data.List.Forall2
import Brainfuck.Proofs.Passing
import Brainfuck.Proofs.RoundTrip

namespace Brainfuck

theorem Runs.size_eq {k : Code} {i j : Interpreter} (h : Runs k i (.finished j)) :
    j.tape.size = i.tape.size := by
  obtain ⟨n, hn⟩ := h.endsAs
  have hsize := Machine.size_runFor n (.ofCode k i)
  rw [hn] at hsize
  exact hsize

namespace Code

/-- From every state with a tape of that size, two pieces of code come to the
same results and past the same streams. -/
structure Alike (size : Nat) (k l : Code) : Prop where
  runs : ∀ {i : Interpreter} {r : Result}, i.tape.size = size → (Runs k i r ↔ Runs l i r)
  passes : ∀ {i : Interpreter} {s : Streams}, i.tape.size = size → (Passes k i s ↔ Passes l i s)

namespace Alike

variable {size : Nat}

theorem refl (k : Code) : Alike size k k :=
  ⟨fun _ => Iff.rfl, fun _ => Iff.rfl⟩

theorem symm {k l : Code} (h : Alike size k l) : Alike size l k :=
  ⟨fun hi => (h.runs hi).symm, fun hi => (h.passes hi).symm⟩

theorem append {k k' l l' : Code} (hk : Alike size k k') (hl : Alike size l l') :
    Alike size (k ++ l) (k' ++ l') := by
  constructor
  · intro i r hi
    rw [Runs.append_iff, Runs.append_iff]
    have hstopped : (∃ f j, r = .stopped f j ∧ Runs k i r) ↔ ∃ f j, r = .stopped f j ∧ Runs k' i r := by
      simp only [hk.runs hi]
    have hfinished (j : Interpreter) :
        Runs k i (.finished j) ∧ Runs l j r ↔ Runs k' i (.finished j) ∧ Runs l' j r := by
      rw [hk.runs hi]
      exact and_congr_right fun hj => hl.runs (hj.size_eq.trans hi)
    exact or_congr hstopped (exists_congr hfinished)
  · intro i s hi
    rw [Passes.append_iff, Passes.append_iff]
    have hfinished (j : Interpreter) :
        Runs k i (.finished j) ∧ Passes l j s ↔ Runs k' i (.finished j) ∧ Passes l' j s := by
      rw [hk.runs hi]
      exact and_congr_right fun hj => hl.passes (hj.size_eq.trans hi)
    exact or_congr (hk.passes hi) (exists_congr hfinished)

theorem runs_loop {b c : Code} (h : Alike size b c) {i : Interpreter} {r : Result}
    (hi : i.tape.size = size) (hr : Runs (loop b nil) i r) : Runs (loop c nil) i r := by
  generalize hk : loop b nil = k at hr
  induction hr with
  | nil | act | actStopped | foreign => cases hk
  | skip hz hrest _ => cases hk; exact .skip hz hrest
  | pass hz hb _ _ ih =>
    cases hk
    exact .pass hz ((h.runs hi).mp hb) (ih (hb.size_eq.trans hi) rfl)
  | passStopped hz hb => cases hk; exact .passStopped hz ((h.runs hi).mp hb)

theorem passes_loop {b c : Code} (h : Alike size b c) {i : Interpreter} {s : Streams}
    (hi : i.tape.size = size) (hs : Passes (loop b nil) i s) : Passes (loop c nil) i s := by
  generalize hk : loop b nil = k at hs
  induction hs with
  | here => exact .here
  | act | actStopped => cases hk
  | skip hz hrest _ => cases hk; exact .skip hz hrest
  | inside hz hb _ => cases hk; exact .inside hz ((h.passes hi).mp hb)
  | pass hz hb _ ih =>
    cases hk
    exact .pass hz ((h.runs hi).mp hb) (ih (hb.size_eq.trans hi) rfl)

theorem loop {b c : Code} (h : Alike size b c) : Alike size (loop b nil) (loop c nil) :=
  ⟨fun hi => ⟨h.runs_loop hi, h.symm.runs_loop hi⟩,
    fun hi => ⟨h.passes_loop hi, h.symm.passes_loop hi⟩⟩

end Alike

/-! ## In a text -/

variable {size : Nat}

/-- Two bodies being written, newest instruction first, are alike once written. -/
def AlikeReversed (size : Nat) (k l : Code) : Prop :=
  Alike size k.reverse l.reverse

theorem AlikeReversed.act {k l : Code} (h : AlikeReversed size k l) (a : Action) :
    AlikeReversed size (act a k) (act a l) := by
  rw [AlikeReversed, reverse_act, reverse_act]
  exact h.append (.refl _)

theorem AlikeReversed.loop {b c k l : Code} (hb : AlikeReversed size b c)
    (hk : AlikeReversed size k l) :
    AlikeReversed size (loop b.reverse k) (loop c.reverse l) := by
  rw [AlikeReversed, reverse_loop, reverse_loop]
  exact Alike.append hk (Alike.loop hb)

theorem closeAll_alike {current current' : Code} {enclosing enclosing' : List Code}
    (h : AlikeReversed size current current')
    (henclosing : List.Forall₂ (AlikeReversed size) enclosing enclosing') :
    Alike size (closeAll current enclosing) (closeAll current' enclosing') := by
  induction henclosing generalizing current current' with
  | nil => exact h
  | cons houter _ ih => exact ih (h.loop houter)

/-- Reading on from stacks of open bodies that are alike. -/
theorem build_alike {current current' : Code} {enclosing enclosing' : List Code}
    (h : AlikeReversed size current current')
    (henclosing : List.Forall₂ (AlikeReversed size) enclosing enclosing') (cs : List Command) :
    Alike size (build current enclosing cs) (build current' enclosing' cs) := by
  induction cs generalizing current current' enclosing enclosing' with
  | nil => exact closeAll_alike h henclosing
  | cons c cs ih =>
    cases c with
    | act a => exact ih (h.act a) henclosing
    | openLoop => exact ih (.refl nil) (.cons h henclosing)
    | closeLoop =>
      cases henclosing with
      | nil => exact h
      | cons houter henclosing => exact ih (h.loop houter) henclosing

theorem reverse_reverseOnto (k l : Code) : (k.reverseOnto l).reverse = l.reverse ++ k := by
  rw [reverse, reverseOnto_reverseOnto, append_nil, reverseOnto_eq]

/-- Alike pieces in the same place of a text, whatever is open there. -/
theorem build_replace {k l : Code} (hk : k.Proper) (hl : l.Proper) (h : Alike size k l)
    (current : Code) (enclosing : List Code) (before after : List Command) :
    Alike size (build current enclosing (before ++ (k.commands ++ after)))
      (build current enclosing (before ++ (l.commands ++ after))) := by
  have hself (enclosing : List Code) : List.Forall₂ (AlikeReversed size) enclosing enclosing :=
    List.forall₂_same.mpr fun k _ => .refl k.reverse
  induction before generalizing current enclosing with
  | nil =>
    rw [List.nil_append, List.nil_append, build_commands hk, build_commands hl]
    refine build_alike ?_ (hself enclosing) after
    rw [AlikeReversed, reverse_reverseOnto, reverse_reverseOnto]
    exact (Alike.refl current.reverse).append h
  | cons c before ih =>
    cases c with
    | act a => exact ih (act a current) enclosing
    | openLoop => exact ih nil (current :: enclosing)
    | closeLoop =>
      cases enclosing with
      -- The text ends here, before it comes to the pieces.
      | nil => exact .refl current.reverse
      | cons outer enclosing => exact ih (loop current.reverse outer) enclosing

/-- Commands that differ in those of alike pieces are alike as programs. -/
theorem ofCommands_replace {k l : Code} (hk : k.Proper) (hl : l.Proper) (h : Alike size k l)
    (before after : List Command) :
    Alike size (ofCommands (before ++ (k.commands ++ after)))
      (ofCommands (before ++ (l.commands ++ after))) :=
  build_replace hk hl h nil [] before after

end Code

/-! ## Executions -/

/-- An interpreter executes two texts alike: one ends in some way exactly when
the other does, leaving the same tape, input and output; one runs for ever
exactly when the other does; and both come past the same states of the input
and the output, which is what there is to see of a run that never ends. -/
structure Interpreter.ExecutesAlike (i : Interpreter) (s t : ProgramText) : Prop where
  ends : ∀ (e : Ending) (w : World), e ≠ .unfinished →
    ((∃ n j, i.execute n s = (e, j) ∧ j.world = w) ↔ ∃ n j, i.execute n t = (e, j) ∧ j.world = w)
  endless : (∀ n, (i.execute n s).1 = .unfinished) ↔ ∀ n, (i.execute n t).1 = .unfinished
  streams : ∀ s' : Streams,
    (∃ n, (i.execute n s).2.streams = s') ↔ ∃ n, (i.execute n t).2.streams = s'

/-- Programs that come to the same from where an execution begins are executed
alike. -/
theorem Interpreter.ExecutesAlike.of_begun {i : Interpreter} {s t : ProgramText}
    (hruns : ∀ r, Runs (Code.parse s) i.begun r ↔ Runs (Code.parse t) i.begun r)
    (hpasses : ∀ s', Passes (Code.parse s) i.begun s' ↔ Passes (Code.parse t) i.begun s') :
    i.ExecutesAlike s t := by
  constructor
  · intro e w he
    simp only [execute, run_ends_iff he, hruns]
  · simp only [execute, run_unfinished_iff, hruns]
  · intro s'
    simp only [execute, run_streams_iff, hpasses]

/-- Programs that are alike on the interpreter's tape are executed alike. -/
theorem Interpreter.ExecutesAlike.of_alike {i : Interpreter} {s t : ProgramText}
    (h : Code.Alike i.tape.size (Code.parse s) (Code.parse t)) : i.ExecutesAlike s t := by
  have hsize : i.begun.tape.size = i.tape.size := i.tape.size_clear
  exact .of_begun (fun _ => h.runs hsize) fun _ => h.passes hsize

end Brainfuck
