/-
What a program text says, character by character.

The characters of a program text are those of the text it is, or those of its
pieces that are a single one. Eight of them are symbols and all others are
comment (`ProgramText.symbols`). How many loops are open after some symbols,
which symbols are reached, and what completes them is said here of the
characters alone, without the commands that they stand for.

`ProgramText.symbols_eq` is the link between the two: the symbols of a text
are those of its commands. As different commands have different symbols,
counting and cutting symbols is counting and cutting commands
(`Symbols.level_map`, `Symbols.reached_map`).
-/
import Mathlib.Data.List.Count
import Brainfuck.Code.Grammar

namespace Brainfuck

namespace ProgramText

/-- The characters that are not comment. -/
def alphabet : List Char :=
  ['>', '<', '+', '-', '.', ',', '[', ']']

/-- The characters of a program text. A piece that is not one character says nothing. -/
def characters : ProgramText → List Char
  | text s => s.toList
  | pieces ps => ps.filterMap fun p =>
    match p.toList with
    | [x] => some x
    | _ => none

/-- A program text without its comments. -/
def symbols (t : ProgramText) : List Char :=
  t.characters.filter (alphabet.contains ·)

end ProgramText

namespace Symbols

/-- How many loops are open after some symbols. -/
def level (xs : List Char) : Int :=
  (xs.count '[' : Int) - xs.count ']'

/-- The symbols before the first `]` that has no loop to close, when `opened`
loops are open already. -/
def reached (opened : Nat) : List Char → List Char
  | [] => []
  | '[' :: xs => '[' :: reached (opened + 1) xs
  | ']' :: xs =>
    match opened with
    | 0 => []
    | opened + 1 => ']' :: reached opened xs
  | x :: xs => x :: reached opened xs

/-- The symbols reached, and a `]` for every loop still open there. -/
def completed (xs : List Char) : List Char :=
  reached 0 xs ++ List.replicate (level (reached 0 xs)).toNat ']'

end Symbols

namespace Symbols

/-! ## How many loops are open -/

@[simp] theorem level_nil : level [] = 0 := rfl

@[simp] theorem level_open (xs : List Char) : level ('[' :: xs) = level xs + 1 := by
  simp [level]; omega

@[simp] theorem level_close (xs : List Char) : level (']' :: xs) = level xs - 1 := by
  simp [level]; omega

theorem level_other {x : Char} (hopen : x ≠ '[') (hclose : x ≠ ']') (xs : List Char) :
    level (x :: xs) = level xs := by
  rw [level, List.count_cons_of_ne hopen, List.count_cons_of_ne hclose, level]

/-! ## The reached part of a text -/

theorem reached_other {x : Char} (hopen : x ≠ '[') (hclose : x ≠ ']') (opened : Nat)
    (xs : List Char) : reached opened (x :: xs) = x :: reached opened xs := by
  rw [reached]
  · exact hopen
  · exact hclose

theorem reached_isPrefix (opened : Nat) (xs : List Char) : reached opened xs <+: xs := by
  fun_induction reached opened xs with
  | case1 | case3 => exact List.nil_prefix
  | case2 _ _ ih | case4 _ _ ih | case5 _ _ _ _ _ ih => exact List.cons_prefix_cons.mpr ⟨rfl, ih⟩

/-- No beginning of the reached part closes more loops than are open. -/
theorem level_prefix_reached {opened : Nat} {xs p : List Char} (h : p <+: reached opened xs) :
    0 ≤ opened + level p := by
  fun_induction reached opened xs generalizing p with
  | case1 | case3 => rw [List.prefix_nil.mp h, level_nil]; omega
  | case2 n xs ih =>
    rcases List.prefix_cons_iff.mp h with rfl | ⟨q, rfl, hq⟩
    · rw [level_nil]; omega
    · have := ih hq; rw [level_open]; omega
  | case4 xs n ih =>
    rcases List.prefix_cons_iff.mp h with rfl | ⟨q, rfl, hq⟩
    · rw [level_nil]; omega
    · have := ih hq; rw [level_close]; omega
  | case5 n x xs hopen hclose ih =>
    rcases List.prefix_cons_iff.mp h with rfl | ⟨q, rfl, hq⟩
    · rw [level_nil]; omega
    · rw [level_other hopen hclose]; exact ih hq

/-- What is cut off starts with a `]` that no open loop is left for. -/
theorem reached_cut (opened : Nat) (xs : List Char) :
    reached opened xs = xs ∨
      ∃ rest, xs = reached opened xs ++ ']' :: rest ∧ opened + level (reached opened xs) = 0 := by
  fun_induction reached opened xs with
  | case1 => exact .inl rfl
  | case3 xs => exact .inr ⟨xs, rfl, rfl⟩
  | case2 n xs ih =>
    rcases ih with h | ⟨rest, hxs, hl⟩
    · exact .inl (by rw [h])
    · exact .inr ⟨rest, by rw [List.cons_append, ← hxs], by rw [level_open]; omega⟩
  | case4 xs n ih =>
    rcases ih with h | ⟨rest, hxs, hl⟩
    · exact .inl (by rw [h])
    · exact .inr ⟨rest, by rw [List.cons_append, ← hxs], by rw [level_close]; omega⟩
  | case5 n x xs hopen hclose ih =>
    rcases ih with h | ⟨rest, hxs, hl⟩
    · exact .inl (by rw [h])
    · exact .inr ⟨rest, by rw [List.cons_append, ← hxs], by rwa [level_other hopen hclose]⟩

/-- Symbols that never close more loops than are open are reached, and so is
what is reached behind them. -/
theorem reached_append {opened : Nat} {kept : List Char}
    (h : ∀ p, p <+: kept → 0 ≤ opened + level p) (rest : List Char) :
    reached opened (kept ++ rest) = kept ++ reached (opened + level kept).toNat rest := by
  induction kept generalizing opened with
  | nil => simp
  | cons x kept ih =>
    have tail : ∀ p, p <+: kept → 0 ≤ opened + level (x :: p) := fun p hp =>
      h _ (List.cons_prefix_cons.mpr ⟨rfl, hp⟩)
    by_cases hopen : x = '['
    · subst hopen
      rw [List.cons_append, reached, ih (fun p hp => by have := tail p hp; simp at this; omega),
        level_open, List.cons_append]
      congr 3; omega
    by_cases hclose : x = ']'
    · subst hclose
      -- The bracket itself is a beginning of the text, so there is a loop for it.
      obtain ⟨n, rfl⟩ : ∃ n, opened = n + 1 := by
        have := tail [] List.nil_prefix
        simp at this
        exact ⟨opened - 1, by omega⟩
      rw [List.cons_append, reached, ih (fun p hp => by have := tail p hp; simp at this; omega),
        level_close, List.cons_append]
      congr 3; omega
    · rw [List.cons_append, reached_other hopen hclose, ih, level_other hopen hclose,
        List.cons_append]
      intro p hp
      simpa [level_other hopen hclose] using tail p hp

/-- The reached part of a text is the only beginning of it that never closes
more loops than it opens and ends with the text or before a `]` at which it
would. -/
theorem eq_reached_iff {xs kept : List Char} :
    kept = reached 0 xs ↔
      kept <+: xs ∧ (∀ p, p <+: kept → 0 ≤ level p) ∧
        (kept = xs ∨ ∃ rest, xs = kept ++ ']' :: rest ∧ level kept = 0) := by
  constructor
  · rintro rfl
    refine ⟨reached_isPrefix 0 xs, fun p hp => ?_, ?_⟩
    · simpa using level_prefix_reached hp
    · simpa using reached_cut 0 xs
  · rintro ⟨-, hp, hc⟩
    have stays (rest : List Char) :
        reached 0 (kept ++ rest) = kept ++ reached (level kept).toNat rest := by
      simpa using @reached_append 0 kept (fun p h => by simpa using hp p h) rest
    rcases hc with rfl | ⟨rest, rfl, hl⟩
    · simpa [reached] using (stays []).symm
    · rw [stays, hl]; simp [reached]

end Symbols

/-! ## Commands and their symbols -/

namespace Command

theorem symbol_injective {c d : Command} (h : c.symbol = d.symbol) : c = d := by
  have hs : ofSymbol? c.symbol = ofSymbol? d.symbol := congrArg ofSymbol? h
  rw [ofSymbol?_symbol, ofSymbol?_symbol] at hs
  exact Option.some.inj hs

theorem map_symbol_injective {cs ds : List Command}
    (h : cs.map symbol = ds.map symbol) : cs = ds :=
  List.map_inj_right (fun _ _ hs => symbol_injective hs) |>.mp h

theorem symbol_mem_alphabet (c : Command) : c.symbol ∈ ProgramText.alphabet := by
  cases c with
  | act a => cases a <;> decide
  | openLoop => decide
  | closeLoop => decide

/-- The characters that stand for a command are those of the alphabet. -/
theorem exists_ofSymbol?_iff {x : Char} :
    (∃ c, ofSymbol? x = some c) ↔ x ∈ ProgramText.alphabet := by
  constructor
  · rintro ⟨c, h⟩
    rw [← symbol_of_ofSymbol? h]
    exact c.symbol_mem_alphabet
  · intro h
    simp only [ProgramText.alphabet, List.mem_cons, List.not_mem_nil, or_false] at h
    rcases h with rfl | rfl | rfl | rfl | rfl | rfl | rfl | rfl <;> exact ⟨_, rfl⟩

end Command

namespace ProgramText

theorem commands_eq_filterMap (t : ProgramText) :
    t.commands = t.characters.filterMap Command.ofSymbol? := by
  cases t with
  | text s => rfl
  | pieces ps =>
    rw [commands, characters, List.filterMap_filterMap]
    congr 1
    funext p
    rw [Command.ofText?]
    split <;> simp_all

/-- **The symbols of a text are those of its commands.** Nothing else is read
of it, and nothing is left out. -/
theorem symbols_eq (t : ProgramText) : t.symbols = t.commands.map Command.symbol := by
  rw [symbols, commands_eq_filterMap]
  induction t.characters with
  | nil => rfl
  | cons x xs ih =>
    by_cases hx : x ∈ alphabet
    · obtain ⟨c, hc⟩ := Command.exists_ofSymbol?_iff.mpr hx
      rw [List.filter_cons_of_pos (List.contains_iff_mem.mpr hx), List.filterMap_cons_some hc,
        List.map_cons, Command.symbol_of_ofSymbol? hc, ih]
    · have hc : Command.ofSymbol? x = none := by
        rw [Option.eq_none_iff_forall_ne_some]
        intro c h
        exact hx (Command.exists_ofSymbol?_iff.mp ⟨c, h⟩)
      rw [List.filter_cons_of_neg (by simpa using hx), List.filterMap_cons_none hc, ih]

end ProgramText

namespace Symbols

theorem level_map (cs : List Command) : level (cs.map Command.symbol) = Command.level cs := by
  have hcount (c : Command) : (cs.map Command.symbol).count c.symbol = cs.count c :=
    List.count_map_of_injective cs Command.symbol (fun _ _ => Command.symbol_injective) c
  rw [level, Command.level, ← hcount .openLoop, ← hcount .closeLoop]
  rfl

theorem reached_map (opened : Nat) (cs : List Command) :
    reached opened (cs.map Command.symbol) = (Command.reached opened cs).map Command.symbol := by
  induction cs generalizing opened with
  | nil => rfl
  | cons c cs ih =>
    cases c with
    | act a =>
      rw [Command.reached, List.map_cons, List.map_cons, ← ih]
      cases a <;> rfl
    | openLoop =>
      rw [Command.reached, List.map_cons, List.map_cons, ← ih]
      rfl
    | closeLoop =>
      cases opened with
      | zero => rfl
      | succ opened =>
        rw [Command.reached, List.map_cons, List.map_cons, ← ih]
        rfl

theorem completed_map (cs : List Command) :
    completed (cs.map Command.symbol) = (Command.completed cs).map Command.symbol := by
  rw [completed, reached_map, level_map, Command.completed, List.map_append, List.map_replicate]
  rfl

end Symbols

end Brainfuck
