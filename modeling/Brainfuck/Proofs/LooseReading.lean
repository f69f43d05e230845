/-
A reader that takes nothing for granted. A text comes to it in pieces, every
character being one. Which pieces are symbols is said by one list, the command
of a symbol is looked up in a second, the action of a command in a third, and
nothing says that the three agree. The bodies that are open are on a stack
that may have none when one is asked for. A lookup that finds nothing and a
body that is not there are each a `Defect`.

`Code.parse` cannot even express these mistakes. What is proved here is that
it loses nothing by that: the loose reader comes to no defect on any text, and
reads the same program (`LooseReader.read_eq`). Every symbol is listed with
its command and every action with its own, so no lookup fails; and the stack
is the one of `Code.build` with each body in the order of its text, which
always has an innermost body (`LooseReader.scan_stack`).
-/
import Brainfuck.Proofs.Descent
import Brainfuck.Proofs.LooseTape

namespace Brainfuck

namespace Command

theorem ofText?_singleton (x : Char) :
    ofText? (String.singleton x) = ofSymbol? x := by
  rw [ofText?, String.toList_singleton]

theorem singleton_of_ofText? {p : String} {c : Command} (h : ofText? p = some c) :
    String.singleton c.symbol = p := by
  unfold ofText? at h
  split at h
  next x hx =>
    rw [symbol_of_ofSymbol? h, ← String.ofList_toList (s := p), hx]
    rfl
  · cases h

end Command

/-- The pieces that a program text is read in. -/
def ProgramText.items : ProgramText → List String
  | text s => s.toList.map String.singleton
  | pieces ps => ps

namespace LooseReader

/-! ## Tables -/

/-- The pieces that are not comment. -/
def symbols : List String :=
  [">", "<", "+", "-", ".", ",", "[", "]"]

/-- The commands by their symbols. -/
def commandTable : List (String × Command) :=
  [(">", .act .next), ("<", .act .previous), ("+", .act .increment), ("-", .act .decrement),
    (".", .act .output), (",", .act .input), ("[", .openLoop), ("]", .closeLoop)]

/-- The actions by their commands. -/
def actionTable : List (Command × Action) :=
  [(.act .next, .next), (.act .previous, .previous), (.act .increment, .increment),
    (.act .decrement, .decrement), (.act .output, .output), (.act .input, .input)]

/-- The command that is listed for a symbol. -/
def commandFor (symbol : String) : Except Defect Command :=
  match commandTable.lookup symbol with
  | some c => .ok c
  | none => .error (.noCommand symbol)

/-- The action that is listed for a command. -/
def actionFor (c : Command) : Except Defect Action :=
  match actionTable.lookup c with
  | some a => .ok a
  | none => .error (.noAction c)

/-! ## Reading -/

/-- The commands of the pieces that are symbols. -/
def tokenize : List String → Except Defect (List Command)
  | [] => .ok []
  | p :: ps =>
    if symbols.contains p then do
      let c ← commandFor p
      let cs ← tokenize ps
      return c :: cs
    else tokenize ps

/-- Takes the innermost body off the stack. -/
def pop : List Code → Except Defect (Code × List Code)
  | [] => .error .noBody
  | body :: bodies => .ok (body, bodies)

/-- Puts instructions at the end of the innermost body. -/
def extend (k : Code) : List Code → Except Defect (List Code)
  | [] => .error .noBody
  | body :: bodies => .ok ((body ++ k) :: bodies)

/-- Takes the innermost body off and makes it a loop in the body around it. -/
def endLoop (bodies : List Code) : Except Defect (List Code) := do
  let (body, bodies) ← pop bodies
  extend (.loop body .nil) bodies

/-- Reads commands. A closing bracket ends the reading if one body is open. -/
def scan (bodies : List Code) : List Command → Except Defect (List Code)
  | [] => .ok bodies
  | c :: cs =>
    if c = .openLoop then scan (.nil :: bodies) cs
    else if c = .closeLoop then
      if bodies.length = 1 then .ok bodies
      else do
        let bodies ← endLoop bodies
        scan bodies cs
    else do
      let a ← actionFor c
      let bodies ← extend (.act a .nil) bodies
      scan bodies cs

/-- Ends so many loops. -/
def endLoops : Nat → List Code → Except Defect (List Code)
  | 0, bodies => .ok bodies
  | n + 1, bodies => do
    let bodies ← endLoop bodies
    endLoops n bodies

/-- Ends the loops still open; the body that is left is the program. -/
def finish (bodies : List Code) : Except Defect Code := do
  let bodies ← endLoops (bodies.length - 1) bodies
  let (k, _) ← pop bodies
  return k

/-- Reads the program of a text. -/
def read (t : ProgramText) : Except Defect Code := do
  let cs ← tokenize t.items
  let bodies ← scan [.nil] cs
  finish bodies

/-! ## Lookups that succeed -/

theorem commandFor_symbol (c : Command) : commandFor (String.singleton c.symbol) = .ok c := by
  cases c with
  | act a => cases a <;> rfl
  | openLoop => rfl
  | closeLoop => rfl

theorem actionFor_act (a : Action) : actionFor (.act a) = .ok a := by
  cases a <;> rfl

/-- The pieces listed are those that stand for a command. -/
theorem mem_symbols_iff {p : String} : p ∈ symbols ↔ ∃ c, Command.ofText? p = some c := by
  constructor
  · intro h
    simp only [symbols, List.mem_cons, List.not_mem_nil, or_false] at h
    rcases h with rfl | rfl | rfl | rfl | rfl | rfl | rfl | rfl <;> exact ⟨_, rfl⟩
  · rintro ⟨c, h⟩
    rw [← Command.singleton_of_ofText? h]
    cases c with
    | act a => cases a <;> decide
    | openLoop => decide
    | closeLoop => decide

theorem tokenize_eq (ps : List String) : tokenize ps = .ok (ps.filterMap Command.ofText?) := by
  induction ps with
  | nil => rfl
  | cons p ps ih =>
    by_cases hp : p ∈ symbols
    · obtain ⟨c, hc⟩ := mem_symbols_iff.mp hp
      have hfor : commandFor p = .ok c := by
        rw [← Command.singleton_of_ofText? hc]
        exact commandFor_symbol c
      rw [tokenize, if_pos (List.contains_iff_mem.mpr hp), hfor, ih, List.filterMap_cons_some hc]
      rfl
    · have hnone : Command.ofText? p = none := by
        rw [Option.eq_none_iff_forall_ne_some]
        intro c hc
        exact hp (mem_symbols_iff.mpr ⟨c, hc⟩)
      rw [tokenize, if_neg (by simpa using hp), ih, List.filterMap_cons_none hnone]

theorem filterMap_items (t : ProgramText) : t.items.filterMap Command.ofText? = t.commands := by
  cases t with
  | text s =>
    rw [ProgramText.items, List.filterMap_map]
    exact congrArg (List.filterMap · s.toList) (funext Command.ofText?_singleton)
  | pieces ps => rfl

/-! ## Bodies that are there -/

/-- The bodies that `Code.build` has open, innermost first, in the order of
their text. -/
def stack (current : Code) (enclosing : List Code) : List Code :=
  current.reverse :: enclosing.map Code.reverse

theorem length_stack (current : Code) (enclosing : List Code) :
    (stack current enclosing).length = enclosing.length + 1 := by
  rw [stack, List.length_cons, List.length_map]

theorem endLoop_stack (current outer : Code) (enclosing : List Code) :
    endLoop (stack current (outer :: enclosing)) =
      .ok (stack (.loop current.reverse outer) enclosing) := by
  rw [stack, stack, Code.reverse_loop]
  rfl

theorem extend_stack (a : Action) (current : Code) (enclosing : List Code) :
    extend (.act a .nil) (stack current enclosing) = .ok (stack (.act a current) enclosing) := by
  rw [stack, stack, Code.reverse_act]
  rfl

theorem finish_stack (current : Code) (enclosing : List Code) :
    finish (stack current enclosing) = .ok (Code.closeAll current enclosing) := by
  induction enclosing generalizing current with
  | nil => rfl
  | cons outer enclosing ih =>
    rw [Code.closeAll, ← ih, finish, finish, length_stack, length_stack, List.length_cons,
      Nat.add_sub_cancel, Nat.add_sub_cancel, endLoops, endLoop_stack]
    rfl

/-- Reading on from the stack of `Code.build` comes to no defect, and to the
same program. -/
theorem scan_stack (current : Code) (enclosing : List Code) (cs : List Command) :
    (scan (stack current enclosing) cs >>= finish) = .ok (Code.build current enclosing cs) := by
  induction cs generalizing current enclosing with
  | nil => exact finish_stack current enclosing
  | cons c cs ih =>
    cases c with
    | act a =>
      rw [Code.build, ← ih]
      simp only [scan, actionFor_act, bind, Except.bind, extend_stack]
      rfl
    | openLoop => exact ih .nil (current :: enclosing)
    | closeLoop =>
      cases enclosing with
      | nil => rfl
      | cons outer enclosing =>
        have hlength : (stack current (outer :: enclosing)).length ≠ 1 := by
          simp [length_stack]
        rw [Code.build, ← ih, scan, if_neg (by decide), if_pos rfl, if_neg hlength, endLoop_stack]
        rfl

/-- **The tables and the stack never fail.** On every program text the loose
reader finds what it looks up, and a body whenever it asks for one; and it
reads the program that is read without them. -/
theorem read_eq (t : ProgramText) : read t = .ok (Code.parse t) := by
  rw [read, tokenize_eq, filterMap_items]
  exact scan_stack .nil [] t.commands

end LooseReader

end Brainfuck
