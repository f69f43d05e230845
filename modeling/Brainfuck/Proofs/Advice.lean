/-
Which hint goes with a program text that could not be read, and what the path
has to do with it.

The hint is looked for in the message, and the message of a failed system call
has the path in it, between apostrophes. No phrase that is looked for has a
colon or an apostrophe in it, so it occurs in such a message if it occurs in the
reason or in the path, and not across the two (`Hint.mentions_message`). Hence
the path has its part in the choice: a phrase in the path counts as one in the
reason does, and the most urgent phrase wins wherever it stands.

Where there is no such file the message starts with the most urgent phrase, and
the message of anything else that goes wrong has no path in it, so the hint is
the same for all paths then.
-/
import Mathlib.Data.List.Find
import Mathlib.Data.List.Infix
import Brainfuck.Error.Source

namespace Brainfuck

namespace Hint

/-- Whether a phrase occurs in a text, in upper or lower case. -/
def mentions (phrase text : String) : Bool :=
  occurs phrase.toList (text.toList.map Char.toLower)

theorem occurs_iff_infix (phrase cs : List Char) : occurs phrase cs = true ↔ phrase <:+: cs := by
  induction cs with
  | nil => simp [occurs]
  | cons c cs ih =>
    rw [occurs, Bool.or_eq_true, List.isPrefixOf_iff_prefix, ih, List.infix_cons_iff]

theorem mentions_iff_infix (phrase text : String) :
    mentions phrase text = true ↔ phrase.toList <:+: text.toList.map Char.toLower :=
  occurs_iff_infix _ _

/-- What occurs on both sides of a character occurs on one of them, unless the
character is part of it. -/
theorem infix_append_cons_iff {phrase : List Char} {c : Char} (h : c ∉ phrase) (l r : List Char) :
    phrase <:+: l ++ c :: r ↔ phrase <:+: l ∨ phrase <:+: r := by
  have starts {p : List Char} (hp : p <+: c :: r) (hc : c ∉ p) : p = [] := by
    rcases List.prefix_cons_iff.mp hp with rfl | ⟨q, rfl, -⟩
    · rfl
    · simp at hc
  constructor
  · intro hin
    rcases List.infix_append_iff.mp hin with hl | hr | ⟨p, q, rfl, hp, hq⟩
    · exact .inl hl
    · rcases List.infix_cons_iff.mp hr with hr | hr
      · rw [starts hr h]
        exact .inl List.nil_infix
      · exact .inr hr
    · -- The part that reaches across would start with the character.
      have hnil : q = [] := starts hq fun hc => h (List.mem_append_right p hc)
      rw [hnil, List.append_nil]
      exact .inl hp.isInfix
  · rintro (hl | hr)
    · exact List.infix_append_of_infix_left hl
    · exact List.infix_append_of_infix_right (List.infix_cons hr)

/-- A phrase that has no part in the punctuation around a path. -/
def IsWording (phrase : String) : Prop :=
  ':' ∉ phrase.toList ∧ Text.apostrophe ∉ phrase.toList ∧ ¬phrase.toList <:+: [' ']

theorem isWording_of_mem {p : String × Hint} (h : p ∈ phrases .source) : IsWording p.1 := by
  simp only [phrases, List.mem_cons, List.not_mem_nil, or_false] at h
  unfold IsWording
  rcases h with rfl | rfl | rfl | rfl <;> decide

/-- A phrase occurs in the message of a failed system call if it occurs in the
reason or in the path. -/
theorem mentions_message {phrase : String} (h : IsWording phrase) (reason path : String) :
    mentions phrase (reason ++ ": '" ++ path ++ "'") =
      (mentions phrase reason || mentions phrase path) := by
  obtain ⟨hcolon, hquote, hblank⟩ := h
  have hnil : ¬phrase.toList <:+: [] := fun hin =>
    hblank (hin.trans List.nil_infix)
  have hchars : (reason ++ ": '" ++ path ++ "'").toList.map Char.toLower =
      reason.toList.map Char.toLower ++
        ':' :: ([' '] ++
          Text.apostrophe :: (path.toList.map Char.toLower ++ Text.apostrophe :: [])) := by
    simp [Text.apostrophe]
  rw [Bool.eq_iff_iff, Bool.or_eq_true, mentions_iff_infix, mentions_iff_infix, mentions_iff_infix,
    hchars, infix_append_cons_iff hcolon, infix_append_cons_iff hquote,
    infix_append_cons_iff hquote]
  simp only [hblank, hnil, false_or, or_false]

end Hint

namespace SourceError

open Hint

/-- The hint of a failed system call: that of the most urgent phrase in the
reason or in the path. -/
theorem hint?_system (path reason : String) :
    (SourceError.mk path (.system reason)).hint? =
      ((phrases .source).find? fun p => mentions p.1 reason || mentions p.1 path).map (·.2) := by
  have hfind : (phrases .source).find? (fun p => mentions p.1 (reason ++ ": '" ++ path ++ "'")) =
      (phrases .source).find? fun p => mentions p.1 reason || mentions p.1 path :=
    List.find?_congr fun p hp => mentions_message (isWording_of_mem hp) reason path
  exact congrArg (Option.map (·.2)) hfind

theorem hint?_system_eq_checkPath_iff (path reason : String) :
    (SourceError.mk path (.system reason)).hint? = some .checkPath ↔
      mentions "no such file" reason = true ∨ mentions "no such file" path = true := by
  rw [hint?_system]
  constructor
  · intro h
    obtain ⟨p, hp, hhint⟩ := Option.map_eq_some_iff.mp h
    have hmem := List.mem_of_find?_eq_some hp
    have hfound := List.find?_some hp
    simp only [phrases, List.mem_cons, List.not_mem_nil, or_false] at hmem
    rcases hmem with rfl | rfl | rfl | rfl
    · simpa using hfound
    all_goals cases hhint
  · intro h
    have hfirst : (mentions "no such file" reason || mentions "no such file" path) = true := by
      simpa using h
    simp only [phrases, List.find?_cons, hfirst]
    rfl

/-- A missing file is told in the words of the most urgent phrase. -/
theorem hint?_missing (path : String) :
    (SourceError.mk path .missing).hint? = some .checkPath := by
  have hwords : (SourceError.mk path .missing).hint? =
      (SourceError.mk path (.system "no such file")).hint? := by
    unfold hint? message
    simp [String.append_assoc]
  rw [hwords, hint?_system_eq_checkPath_iff]
  exact .inl (by decide)

/-- **What the path has to do with the hint.** The hint of a failed system call
is that of the most urgent phrase in the reason it gives or in the path; the
hint of anything else is the same for all paths. So a report has the same hint
for all paths just when it is no failed system call, or one whose reason has
the most urgent phrase in it already. -/
theorem hint?_same_iff (t : Trouble) :
    (∀ path, (SourceError.mk path t.cause).hint? =
      match t.cause with
      | .missing => some .checkPath
      | .system reason =>
        ((phrases .source).find? fun p => mentions p.1 reason || mentions p.1 path).map (·.2)
      | .other text => about? .source text) ∧
    ((∀ path path', (SourceError.mk path t.cause).hint? = (SourceError.mk path' t.cause).hint?) ↔
      match t.cause with
      | .system reason => mentions "no such file" reason = true
      | _ => True) := by
  cases t.cause with
  | missing => simp [hint?_missing]
  | other text => exact ⟨fun _ => rfl, fun _ => trivial, fun _ _ _ => rfl⟩
  | system reason =>
    refine ⟨fun path => hint?_system path reason, fun hsame => ?_, fun hreason path path' => ?_⟩
    · -- A file of that name has the hint, and so has one without a name.
      have hnamed : (SourceError.mk "no such file" (.system reason)).hint? = some .checkPath :=
        (hint?_system_eq_checkPath_iff _ _).mpr (.inr (by decide))
      rw [hsame _ "", hint?_system_eq_checkPath_iff] at hnamed
      exact hnamed.resolve_right (by decide)
    · have hpath (path : String) :
          (SourceError.mk path (.system reason)).hint? = some .checkPath :=
        (hint?_system_eq_checkPath_iff _ _).mpr (.inl hreason)
      rw [hpath, hpath]

/-- A directory that cannot be read as a file. What it is called decides whether
the hint is to pass the file in it, or to check the path. -/
theorem hint?_of_directory :
    let t : Trouble := .system .particular [.int 21, .text "Is a directory"]
    (SourceError.mk "prog" t.cause).hint? = some .passTheFile ∧
      (SourceError.mk "no such file" t.cause).hint? = some .checkPath ∧
      ¬∀ path path', (SourceError.mk path t.cause).hint? = (SourceError.mk path' t.cause).hint? := by
  intro t
  refine ⟨?_, ?_, ?_⟩
  · rw [(hint?_same_iff t).1]
    decide
  · rw [(hint?_same_iff t).1]
    decide
  · rw [(hint?_same_iff t).2]
    show ¬mentions "no such file" "Is a directory" = true
    decide

end SourceError

end Brainfuck
