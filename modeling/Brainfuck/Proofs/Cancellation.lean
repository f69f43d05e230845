/-
Commands that undo one another can stand anywhere in a program.

Moving and counting touch nothing but the tape, and a sequence of such actions
makes of a tape what the actions make of it one after another
(`Action.applyAll`). If every tape of some size comes out of that as it went in,
the sequence is alike to no code at all (`Code.alike_nil_of_restores`), and so it
can be put into any text at any place: in loops of any depth, whether they are
closed or not, and behind the end of the program.

What undoes itself so: a move or a count and the one against it, 256 counts
the same way, and as many moves the same way as the tape has cells.
-/
import Brainfuck.Proofs.Circle
import Brainfuck.Proofs.Equivalence

namespace Brainfuck

namespace Action

/-- Moving and counting: the actions that touch the tape only. -/
def OnTape (a : Action) : Prop :=
  a ≠ .output ∧ a ≠ .input

instance (a : Action) : Decidable a.OnTape :=
  inferInstanceAs (Decidable (a ≠ .output ∧ a ≠ .input))

/-- What moving and counting make of a tape. -/
def apply : Action → Tape → Tape
  | .next, t => t.advance
  | .previous, t => t.retreat
  | .increment, t => t.increment
  | .decrement, t => t.decrement
  | .output, t => t
  | .input, t => t

/-- What a sequence of moves and counts makes of a tape. -/
def applyAll : List Action → Tape → Tape
  | [], t => t
  | a :: as, t => applyAll as (a.apply t)

theorem applyAll_replicate (a : Action) (n : Nat) (t : Tape) :
    applyAll (List.replicate n a) t = a.apply^[n] t := by
  induction n generalizing t with
  | zero => rfl
  | succ n ih => exact ih (a.apply t)

end Action

theorem Interpreter.perform_onTape {a : Action} (h : a.OnTape) (i : Interpreter) :
    i.perform a = .done { i with tape := a.apply i.tape } := by
  cases a with
  | next | previous | increment | decrement => rfl
  | output => exact absurd rfl h.1
  | input => exact absurd rfl h.2

namespace Code

/-- The code that performs some actions. -/
def ofActions : List Action → Code
  | [] => nil
  | a :: as => act a (ofActions as)

theorem commands_ofActions (as : List Action) : (ofActions as).commands = as.map .act := by
  induction as with
  | nil => rfl
  | cons a as ih => rw [ofActions, commands_act, ih, List.map_cons]

theorem proper_ofActions (as : List Action) : (ofActions as).Proper := by
  induction as with
  | nil => trivial
  | cons a as ih => exact ih

section Actions

variable {as : List Action} {i : Interpreter}

theorem runs_ofActions (h : ∀ a ∈ as, a.OnTape) {r : Result} :
    Runs (ofActions as) i r ↔ r = .finished { i with tape := Action.applyAll as i.tape } := by
  induction as generalizing i with
  | nil =>
    constructor
    · rintro ⟨⟩
      rfl
    · rintro rfl
      exact .nil
  | cons a as ih =>
    obtain ⟨ha, has⟩ := List.forall_mem_cons.mp h
    have hperform := i.perform_onTape ha
    have hrest := @ih { i with tape := a.apply i.tape } has
    constructor
    · intro hr
      cases hr with
      | act hp hr =>
        rw [hperform] at hp
        cases hp
        exact hrest.mp hr
      | actStopped hp =>
        rw [hperform] at hp
        cases hp
    · intro hr
      exact .act hperform (hrest.mpr hr)

theorem passes_ofActions (h : ∀ a ∈ as, a.OnTape) {s : Streams} :
    Passes (ofActions as) i s ↔ s = i.streams := by
  constructor
  · intro hs
    induction as generalizing i with
    | nil => cases hs; rfl
    | cons a as ih =>
      obtain ⟨ha, has⟩ := List.forall_mem_cons.mp h
      have hperform := i.perform_onTape ha
      cases hs with
      | here => rfl
      | act hp hs =>
        rw [hperform] at hp
        cases hp
        exact @ih { i with tape := a.apply i.tape } has hs
      | actStopped hp =>
        rw [hperform] at hp
        cases hp
  · rintro rfl
    exact .here

end Actions

/-- Moves and counts that restore every tape of some size are alike to nothing. -/
theorem alike_nil_of_restores {size : Nat} {as : List Action} (h : ∀ a ∈ as, a.OnTape)
    (hrestores : ∀ t : Tape, t.size = size → Action.applyAll as t = t) :
    Alike size (ofActions as) nil := by
  have hnil : ∀ a ∈ ([] : List Action), a.OnTape := fun a ha => absurd ha List.not_mem_nil
  constructor
  · intro i r hi
    have hsame : Action.applyAll as i.tape = Action.applyAll [] i.tape := hrestores i.tape hi
    rw [runs_ofActions h, hsame, ← runs_ofActions hnil]
    rfl
  · intro i s _
    rw [passes_ofActions h, ← passes_ofActions hnil]
    rfl

end Code

/-! ## What undoes itself -/

/-- The texts that undo themselves on a tape of so many cells. -/
def selfUndoing (size : Nat) : List String :=
  ["+-", "-+", "<>", "><",
    String.ofList (List.replicate 256 '+'), String.ofList (List.replicate 256 '-'),
    String.ofList (List.replicate size '>'), String.ofList (List.replicate size '<')]

/-- A text of some moves and counts that restore every tape of some size. -/
structure Restores (size : Nat) (s : String) (as : List Action) : Prop where
  commands : (ProgramText.text s).commands = as.map .act
  onTape : ∀ a ∈ as, a.OnTape
  restores : ∀ t : Tape, t.size = size → Action.applyAll as t = t

namespace Restores

variable {size : Nat}

theorem pair {s : String} {a b : Action} (hs : (ProgramText.text s).commands = [.act a, .act b])
    (ha : a.OnTape) (hb : b.OnTape) (h : ∀ t, b.apply (a.apply t) = t) : Restores size s [a, b] := by
  refine ⟨hs, ?_, fun t _ => h t⟩
  simp only [List.mem_cons, List.not_mem_nil, or_false]
  rintro c (rfl | rfl)
  · exact ha
  · exact hb

theorem copies {a : Action} {n : Nat} (ha : a.OnTape)
    (h : ∀ t : Tape, t.size = size → a.apply^[n] t = t) :
    Restores size (String.ofList (List.replicate n a.symbol)) (List.replicate n a) := by
  have hsymbols : List.replicate n a.symbol =
      ((List.replicate n a).map Command.act).map Command.symbol := by
    simp only [List.map_replicate, Command.symbol]
  refine ⟨?_, fun b hb => List.eq_of_mem_replicate hb ▸ ha, fun t ht => ?_⟩
  · rw [hsymbols, ProgramText.commands_symbols]
  · rw [Action.applyAll_replicate, h t ht]

theorem of_mem_selfUndoing {w : String} (hw : w ∈ selfUndoing size) : ∃ as, Restores size w as := by
  simp only [selfUndoing, List.mem_cons, List.not_mem_nil, or_false] at hw
  rcases hw with rfl | rfl | rfl | rfl | rfl | rfl | rfl | rfl
  · exact ⟨_, pair (a := .increment) (b := .decrement) rfl (by decide) (by decide)
      Tape.decrement_increment⟩
  · exact ⟨_, pair (a := .decrement) (b := .increment) rfl (by decide) (by decide)
      Tape.increment_decrement⟩
  · exact ⟨_, pair (a := .previous) (b := .next) rfl (by decide) (by decide)
      Tape.advance_retreat⟩
  · exact ⟨_, pair (a := .next) (b := .previous) rfl (by decide) (by decide)
      Tape.retreat_advance⟩
  · exact ⟨_, copies (a := .increment) (by decide) fun t _ => t.iterate_increment_256⟩
  · exact ⟨_, copies (a := .decrement) (by decide) fun t _ => t.iterate_decrement_256⟩
  · exact ⟨_, copies (a := .next) (by decide) fun t ht => ht ▸ t.iterate_advance_size⟩
  · exact ⟨_, copies (a := .previous) (by decide) fun t ht => ht ▸ t.iterate_retreat_size⟩

end Restores

/-! ## In a text -/

namespace ProgramText

theorem commands_singletons (s : String) :
    (pieces (s.toList.map String.singleton)).commands = (text s).commands := by
  have hone : Command.ofText? ∘ String.singleton = Command.ofSymbol? := by
    funext c
    rw [Function.comp, Command.ofText?, String.toList_singleton]
  show ((s.toList.map String.singleton).filterMap Command.ofText?) = _
  rw [List.filterMap_map, hone, commands]

end ProgramText

/-- What undoes itself, among any commands, is as if it were not there. -/
theorem Code.alike_insert {size : Nat} {w : String} (hw : w ∈ selfUndoing size)
    (before after : List Command) :
    Alike size (ofCommands (before ++ ((ProgramText.text w).commands ++ after)))
      (ofCommands (before ++ after)) := by
  obtain ⟨as, hcommands, honTape, hrestores⟩ := Restores.of_mem_selfUndoing hw
  rw [hcommands, ← commands_ofActions]
  exact ofCommands_replace (proper_ofActions as) (l := nil) trivial
    (alike_nil_of_restores honTape hrestores) before after

/-- **What undoes itself can stand anywhere.** A text is executed alike with and
without a move or a count and the one against it, 256 counts the same way, or as
many moves the same way as the tape has cells; wherever in the text they stand,
and whether the text comes as one or in pieces. -/
theorem Interpreter.executesAlike_insert (i : Interpreter) {w : String}
    (hw : w ∈ selfUndoing i.tape.size) :
    (∀ u v : String, i.ExecutesAlike (.text (u ++ w ++ v)) (.text (u ++ v))) ∧
      ∀ us vs : List String,
        i.ExecutesAlike (.pieces (us ++ w.toList.map String.singleton ++ vs)) (.pieces (us ++ vs)) := by
  constructor
  · intro u v
    refine .of_alike ?_
    simp only [Code.parse, ProgramText.commands_append, List.append_assoc]
    exact Code.alike_insert hw _ _
  · intro us vs
    refine .of_alike ?_
    have hpieces (ps qs : List String) : (ProgramText.pieces (ps ++ qs)).commands =
        (ProgramText.pieces ps).commands ++ (ProgramText.pieces qs).commands :=
      List.filterMap_append
    simp only [Code.parse, hpieces, ProgramText.commands_singletons, List.append_assoc]
    exact Code.alike_insert hw _ _

/-- On three cells: once around in a loop that is never closed, and a pair behind
the end of a program. -/
theorem Interpreter.executesAlike_insert_three :
    let i := Interpreter.new ⟨3, by decide⟩ (.ofBytes #[7]) (.empty none)
    ">>>" ∈ selfUndoing i.tape.size ∧
      i.ExecutesAlike (.text ",[.->>>[<]") (.text ",[.-[<]") ∧
      i.ExecutesAlike (.pieces [",", "].", "]", "+", "-", "."]) (.pieces [",", "].", "]", "."]) := by
  intro i
  have haround : String.ofList (List.replicate 3 '>') ∈ selfUndoing 3 := by
    simp only [selfUndoing, List.mem_cons, true_or, or_true]
  have hpair : "+-" ∈ selfUndoing i.tape.size := .head _
  exact ⟨haround, (i.executesAlike_insert haround).1 ",[.-" "[<]",
    (i.executesAlike_insert hpair).2 [",", "].", "]"] ["."]⟩

end Brainfuck
