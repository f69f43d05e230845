/-
The size and the depth of a program, read off its text.

Of a text only the part up to the first closing bracket that has no loop to
close becomes a program (`Command.reached`). The depth of the program is the
greatest number of loops open after any beginning of that part, and its size
is the number of commands that stand there while no loop is open.

Written down, a program opens and closes its loops in balance
(`Code.level_commands`), so a loop is as deep as its body and one more, and
what stands in a body is not at the top level; both are inductions over the
code. The closing brackets that the text lacks change nothing: they only lower
the number of open loops, and are not counted.

The search for the depth keeps its pending bodies on a stack. Each round takes
one body off and puts the loops in it on, so it is over when every loop has had
its round (`Code.iterate_searchRound`).
-/
import Mathlib.Data.List.Infix
import Mathlib.Data.Nat.Count
import Brainfuck.Code.Depth
import Brainfuck.Proofs.NormalForm

namespace Brainfuck

namespace Command

theorem level_append (cs ds : List Command) : level (cs ++ ds) = level cs + level ds := by
  unfold level
  rw [List.count_append, List.count_append]
  omega

theorem level_replicate_closeLoop (n : Nat) : level (List.replicate n .closeLoop) = -n := by
  simp [level, List.count_replicate]

theorem inits_map_symbol (cs : List Command) :
    (cs.map symbol).inits = cs.inits.map (List.map symbol) := by
  induction cs with
  | nil => rfl
  | cons c cs ih =>
    rw [List.map_cons, List.inits_cons, ih, List.inits_cons, List.map_cons, List.map_map,
      List.map_map]
    rfl

/-- The levels after the beginnings of a text are those of its commands. -/
theorem map_level_inits (cs : List Command) :
    (cs.map symbol).inits.map Symbols.level = cs.inits.map level := by
  rw [inits_map_symbol, List.map_map]
  exact List.map_congr_left fun p _ => Symbols.level_map p

theorem prefix_append_iff {p cs ds : List Command} :
    p <+: cs ++ ds ↔ p <+: cs ∨ ∃ q, q <+: ds ∧ p = cs ++ q := by
  constructor
  · intro h
    rcases List.prefix_or_prefix_of_prefix h (List.prefix_append cs ds) with hp | ⟨q, rfl⟩
    · exact .inl hp
    · exact .inr ⟨q, (List.prefix_append_right_inj cs).mp h, rfl⟩
  · rintro (hp | ⟨q, hq, rfl⟩)
    · exact List.prefix_append_of_prefix hp
    · exact (List.prefix_append_right_inj cs).mpr hq

/-! ## Commands at the top level -/

/-- How many commands other than closing brackets stand where no loop is open,
if so many are open before the first. -/
def topLevel (opened : Int) (cs : List Command) : Nat :=
  Nat.count (fun i => opened + level (cs.take i) = 0 ∧ cs[i]? ≠ some .closeLoop) cs.length

theorem topLevel_cons (opened : Int) (c : Command) (cs : List Command) :
    topLevel opened (c :: cs) =
      (if opened = 0 ∧ c ≠ .closeLoop then 1 else 0) + topLevel (opened + level [c]) cs := by
  have shift (i : Nat) : opened + level ((c :: cs).take (i + 1)) =
      opened + level [c] + level (cs.take i) := by
    rw [List.take_succ_cons, Int.add_assoc, ← level_append]
    rfl
  unfold topLevel
  rw [List.length_cons, Nat.count_succ', Nat.add_comm]
  simp only [shift, List.getElem?_cons_succ]
  simp

theorem topLevel_append (opened : Int) (cs ds : List Command) :
    topLevel opened (cs ++ ds) = topLevel opened cs + topLevel (opened + level cs) ds := by
  induction cs generalizing opened with
  | nil => simp [topLevel]
  | cons c cs ih =>
    have hlevel : level (c :: cs) = level [c] + level cs := level_append [c] cs
    rw [List.cons_append, topLevel_cons, topLevel_cons, ih, hlevel, Nat.add_assoc, Int.add_assoc]

/-- Counted over the symbols it is the same number. -/
theorem topLevel_eq_symbols (cs : List Command) :
    topLevel 0 cs =
      Nat.count (fun i => Symbols.level ((cs.map symbol).take i) = 0 ∧
        (cs.map symbol)[i]? ≠ some ']') (cs.map symbol).length := by
  have hclose (i : Nat) : (cs.map symbol)[i]? ≠ some ']' ↔ cs[i]? ≠ some .closeLoop := by
    have hsymbol : (some .closeLoop : Option Command).map symbol = some ']' := rfl
    rw [List.getElem?_map, ← hsymbol, ne_eq,
      (Option.map_injective fun _ _ => symbol_injective).eq_iff]
  simp only [topLevel, ← List.map_take, Symbols.level_map, hclose, List.length_map, Int.zero_add]

theorem topLevel_replicate_closeLoop (opened : Int) (n : Nat) :
    topLevel opened (List.replicate n .closeLoop) = 0 := by
  induction n generalizing opened with
  | zero => rfl
  | succ n ih => rw [List.replicate_succ, topLevel_cons, ih]; simp

end Command

namespace Code

open Command

/-! ## A program written down -/

/-- Every loop that is opened is closed. -/
theorem level_commands (k : Code) : level k.commands = 0 := by
  induction k with
  | nil => rfl
  | act a k ih => simpa using ih
  | loop b k ihb ih =>
    rw [commands_loop, level_openLoop, level_append, level_closeLoop]
    omega
  | foreign f k ih => exact ih

theorem level_le_depth (k : Code) {p : List Command} (h : p <+: k.commands) :
    level p ≤ k.depth := by
  induction k generalizing p with
  | nil => rw [List.prefix_nil.mp h]; exact Int.le_refl _
  | act a k ih =>
    rw [commands_act] at h
    rcases List.prefix_cons_iff.mp h with rfl | ⟨q, rfl, hq⟩
    · simp
    · rw [level_act]; exact ih hq
  | loop b k ihb ih =>
    rw [commands_loop] at h
    unfold depth
    rcases List.prefix_cons_iff.mp h with rfl | ⟨q, rfl, hq⟩
    · simp
    rcases prefix_append_iff.mp hq with hq | ⟨r, hr, rfl⟩
    · have := ihb hq
      rw [level_openLoop]
      omega
    rcases List.prefix_cons_iff.mp hr with rfl | ⟨s, rfl, hs⟩
    · rw [List.append_nil, level_openLoop, level_commands]
      omega
    · have := ih hs
      rw [level_openLoop, level_append, level_closeLoop, level_commands]
      omega
  | foreign f k ih => exact ih h

theorem exists_level_eq_depth (k : Code) : ∃ p, p <+: k.commands ∧ level p = k.depth := by
  induction k with
  | nil => exact ⟨[], List.prefix_rfl, rfl⟩
  | act a k ih =>
    obtain ⟨p, hp, hl⟩ := ih
    refine ⟨.act a :: p, ?_, by rw [level_act, hl]; rfl⟩
    rw [commands_act]
    exact List.cons_prefix_cons.mpr ⟨rfl, hp⟩
  | loop b k ihb ih =>
    obtain ⟨p, hp, hl⟩ := ihb
    obtain ⟨q, hq, hm⟩ := ih
    rw [commands_loop]
    unfold depth
    -- The deepest place is in the body, or behind the loop.
    by_cases hle : k.depth ≤ b.depth + 1
    · refine ⟨.openLoop :: p, ?_, by rw [level_openLoop]; omega⟩
      exact List.cons_prefix_cons.mpr ⟨rfl, prefix_append_iff.mpr (.inl hp)⟩
    · have hbehind : .closeLoop :: q <+: .closeLoop :: k.commands :=
        List.cons_prefix_cons.mpr ⟨rfl, hq⟩
      refine ⟨.openLoop :: (b.commands ++ .closeLoop :: q), ?_, ?_⟩
      · exact List.cons_prefix_cons.mpr ⟨rfl, prefix_append_iff.mpr (.inr ⟨_, hbehind, rfl⟩)⟩
      · rw [level_openLoop, level_append, level_closeLoop, level_commands]
        omega
  | foreign f k ih => exact ih

theorem topLevel_commands {k : Code} (h : k.Proper) {opened : Int} (ho : 0 ≤ opened) :
    topLevel opened k.commands = if opened = 0 then k.length else 0 := by
  induction k generalizing opened with
  | nil => simp [topLevel, length]
  | act a k ih =>
    rw [commands_act, topLevel_cons, level_act, level_nil, Int.add_zero, ih h ho, length]
    split_ifs <;> simp_all [Nat.add_comm]
  | loop b k ihb ih =>
    -- Nothing in the body counts, as the loop is open there.
    have hbody : opened + 1 ≠ 0 := by omega
    have hopened : opened + 1 + 0 + (0 - 1) = opened := by omega
    rw [commands_loop, topLevel_cons, topLevel_append, topLevel_cons, level_openLoop,
      level_closeLoop, level_nil, Int.zero_add, level_commands, hopened, ihb h.1 (by omega),
      ih h.2 ho, if_neg hbody, length]
    split_ifs <;> simp_all [Nat.add_comm]
  | foreign f k ih => exact h.elim

/-! ## The text of a program -/

theorem commands_parse (t : ProgramText) :
    (parse t).commands =
      reached 0 t.commands ++
        List.replicate (level (reached 0 t.commands)).toNat .closeLoop :=
  commands_ofCommands t.commands

/-- The depth is the greatest number of loops open after a beginning of the
part of the text that becomes the program. -/
theorem max?_level_inits (t : ProgramText) :
    ((reached 0 t.commands).inits.map level).max? = some ((parse t).depth : Int) := by
  have hcommands := commands_parse t
  obtain ⟨p, hp, hl⟩ := (parse t).exists_level_eq_depth
  rw [hcommands] at hp
  have hle {q : List Command} (hq : q <+: reached 0 t.commands) : level q ≤ (parse t).depth := by
    refine (parse t).level_le_depth ?_
    rw [hcommands]
    exact prefix_append_iff.mpr (.inl hq)
  simp only [List.max?_eq_some_iff, List.mem_map, List.mem_inits]
  refine ⟨?_, ?_⟩
  · rcases prefix_append_iff.mp hp with hp | ⟨q, hq, rfl⟩
    · exact ⟨p, hp, hl⟩
    · -- Closing brackets that are added at the end only lower the level.
      obtain ⟨-, hq⟩ := List.prefix_replicate_iff.mp hq
      rw [hq, level_append, level_replicate_closeLoop] at hl
      have := hle List.prefix_rfl
      exact ⟨_, List.prefix_rfl, by omega⟩
  · rintro _ ⟨q, hq, rfl⟩
    exact hle hq

/-- The size is the number of commands at the top level of that part. -/
theorem length_parse (t : ProgramText) :
    (parse t).length = topLevel 0 (reached 0 t.commands) := by
  have hcount := topLevel_commands (proper_ofCommands t.commands) (Int.le_refl 0)
  rw [if_pos rfl] at hcount
  rw [parse, ← hcount, ← parse, commands_parse, topLevel_append, topLevel_replicate_closeLoop,
    Nat.add_zero]

/-! ## The search -/

/-- The bodies of the loops at the top level. -/
def bodies : Code → List Code
  | nil => []
  | act _ k => k.bodies
  | loop b k => b :: k.bodies
  | foreign _ k => k.bodies

/-- The number of loops, at all depths. -/
def loops : Code → Nat
  | nil => 0
  | act _ k => k.loops
  | loop b k => b.loops + 1 + k.loops
  | foreign _ k => k.loops

/-- One round of the search: the deepest level so far, and what is pending. -/
def searchRound : Nat × List (Code × Nat) → Nat × List (Code × Nat)
  | (best, []) => (best, [])
  | (best, (k, level) :: pending) => (max best level, pushBodies (level + 1) k pending)

/-- How many rounds the search takes for what is pending. -/
def pendingRounds : List (Code × Nat) → Nat
  | [] => 0
  | (k, _) :: pending => k.loops + 1 + pendingRounds pending

theorem pendingRounds_pushBodies (level : Nat) (k : Code) (pending : List (Code × Nat)) :
    pendingRounds (pushBodies level k pending) = k.loops + pendingRounds pending := by
  induction k generalizing pending with
  | nil => simp [pushBodies, loops]
  | act a k ih => exact ih pending
  | loop b k _ ih =>
    have := ih ((b, level) :: pending)
    simp only [pushBodies, loops, pendingRounds] at this ⊢
    omega
  | foreign f k ih => exact ih pending

theorem iterate_searchRound (best : Nat) (pending : List (Code × Nat)) :
    searchRound^[pendingRounds pending] (best, pending) = (deepest best pending, []) := by
  fun_induction deepest best pending with
  | case1 best => rfl
  | case2 best k level pending ih =>
    rw [pendingRounds, Nat.add_right_comm, ← pendingRounds_pushBodies (level + 1)]
    exact ih

theorem depth_eq_bodies (k : Code) : k.depth = (k.bodies.map depth).max?.elim 0 (· + 1) := by
  induction k with
  | nil => rfl
  | act a k ih => exact ih
  | loop b k _ ih =>
    rw [depth, bodies, List.map_cons, List.max?_cons, ih]
    cases (k.bodies.map depth).max? with
    | none => simp
    | some d => simp
  | foreign f k ih => exact ih

/-- **Size and depth are read off the text.** Of the part of a text that
becomes its program, the depth is the greatest level after any beginning, and
the size the number of symbols other than closing brackets where the level is
0. For any code the search is over when each loop and the whole have had a
round, and has found the depth: nothing without loops, else one more than the
greatest depth of a body. -/
theorem size_and_depth_of_text :
    (∀ t : ProgramText,
      let kept := Symbols.reached 0 t.symbols
      (kept.inits.map Symbols.level).max? = some ((parse t).nesting : Int) ∧
        (parse t).length =
          Nat.count (fun i => Symbols.level (kept.take i) = 0 ∧ kept[i]? ≠ some ']')
            kept.length) ∧
      ∀ k : Code,
        searchRound^[k.loops + 1] (0, [(k, 0)]) = (k.nesting, []) ∧
          k.nesting = (k.bodies.map nesting).max?.elim 0 (· + 1) := by
  have hnesting : nesting = depth := funext nesting_eq_depth
  refine ⟨fun t => ⟨?_, ?_⟩, fun k => ⟨iterate_searchRound 0 [(k, 0)], ?_⟩⟩
  · rw [hnesting, ProgramText.symbols_eq, Symbols.reached_map, map_level_inits]
    exact max?_level_inits t
  · rw [length_parse, ProgramText.symbols_eq, Symbols.reached_map, topLevel_eq_symbols]
  · rw [hnesting]
    exact depth_eq_bodies k

example : (parse (.text "+[-[x>][[<]].]]+")).nesting = 3 := by
  rw [nesting_eq_depth]
  decide

end Code

end Brainfuck
