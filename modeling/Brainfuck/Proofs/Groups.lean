/-
The order and the spelling of what a command asks for do not matter.

A command names one file, and asks for settings in groups of one or two words
(`Group`). Each group looks the same wherever it stands (`ofArguments_words`),
so the words can be told apart before any of them is acted on; and acting on a
group changes the setting that it asks for and nothing else
(`readWords_looks`). So of the groups for one setting the last one counts, and
the file is the one word that no switch takes as its value.

A number is written with a limited number of digits. One with more is refused,
even where a later group would have counted (`parse_eq_invalidInteger`).
-/
import Mathlib.Data.List.TakeWhile
import Brainfuck.CommandLine.Arguments
import Brainfuck.Proofs.Numerals

namespace Brainfuck.CommandLine

/-! ## Groups of words -/

/-- A beginning of a long name: two dashes, one letter, and so many more as far
as there are any. -/
def beginning (name : String) (more : Nat) : String :=
  String.ofList (name.toList.take (more + 3))

/-- Where the value stands that belongs to a letter: in the next word, straight
behind the letter, or behind an equals sign. -/
inductive LetterForm where
  | next
  | touching
  | equals

/-- Where the value stands that belongs to a long name, of which a beginning
will do: in the next word, or behind an equals sign. -/
inductive NameForm where
  | next (more : Nat)
  | equals (more : Nat)

/-- The words of a letter and its value. -/
def LetterForm.words (letter value : String) : LetterForm → List String
  | next => [letter, value]
  | touching => [letter ++ value]
  | equals => [letter ++ "=" ++ value]

/-- The words of a long name and its value. -/
def NameForm.words (name value : String) : NameForm → List String
  | next more => [beginning name more, value]
  | equals more => [beginning name more ++ "=" ++ value]

/-- Words that ask for one setting. -/
inductive Group where
  | sizeByLetter (form : LetterForm) (n : Int)
  | sizeByName (form : NameForm) (n : Int)
  | encoding (form : NameForm) (encoding : String)
  | verboseByLetter
  | verboseByName (more : Nat)

namespace Group

/-- The words of a group, numbers in decimal. -/
def words : Group → List String
  | sizeByLetter form n => form.words "-m" (Numeral.ofInt n)
  | sizeByName form n => form.words "--memory-size" (Numeral.ofInt n)
  | encoding form e => form.words "--encoding" e
  | verboseByLetter => ["-v"]
  | verboseByName more => [beginning "--verbose" more]

/-- The memory size that a group asks for. -/
def size? : Group → Option Int
  | sizeByLetter _ n | sizeByName _ n => some n
  | _ => none

/-- The encoding that a group asks for. -/
def encoding? : Group → Option String
  | encoding _ e => some e
  | _ => none

/-- Whether a group asks for the log. -/
def isVerbose : Group → Bool
  | verboseByLetter | verboseByName _ => true
  | _ => false

end Group

/-- A text that no switch begins like: it does not start with a dash. -/
def IsPlain (text : String) : Prop :=
  text.toList.head? ≠ some '-'

/-- A number has no more digits than may be read, and an encoding does not start
with a dash. -/
def Group.Valid : Group → Prop
  | sizeByLetter _ n | sizeByName _ n => n.natAbs < 10 ^ Numeral.maxDigits
  | encoding _ e => IsPlain e
  | verboseByLetter | verboseByName _ => True

/-- Two digits are few enough. -/
theorem Group.lt_of_lt_hundred {n : Int} (h : n.natAbs < 10 ^ 2) :
    n.natAbs < 10 ^ Numeral.maxDigits :=
  Nat.lt_of_lt_of_le h (Nat.pow_le_pow_right (by decide) (by decide))

/-! ## How words look -/

namespace Word

theorem classify_plain {text : String} (h : IsPlain text) : classify text = .ok (.value text) := by
  unfold classify
  split
  next c cs htext => exact absurd (by rw [htext]; rfl) h
  next => rfl

theorem ofArguments_cons {text : String} {w : Word} (h : classify text = .ok w)
    {rest : List String} {ws : List Word} (hrest : ofArguments rest = .ok ws) :
    ofArguments (text :: rest) = .ok (w :: ws) := by
  have hword : (text == "--") = false := by
    rw [beq_eq_false_iff_ne]
    rintro rfl
    cases h
  unfold ofArguments
  rw [hword, h, hrest]
  rfl

/-- What is attached to a name: nothing, or a value behind an equals sign. -/
theorem cut_at_equals {name attached : List Char} (hname : '=' ∉ name)
    (hattached : attached = [] ∨ attached.head? = some '=') :
    (name ++ attached).takeWhile (· != '=') = name ∧
      (name ++ attached).dropWhile (· != '=') = attached := by
  have hall : ∀ c ∈ name, (c != '=') = true := by
    intro c hc
    rw [bne_iff_ne]
    rintro rfl
    exact hname hc
  rw [List.takeWhile_append_of_pos hall, List.dropWhile_append_of_pos hall]
  rcases hattached with rfl | hhead
  · simp
  · obtain ⟨value, rfl⟩ : ∃ value, attached = '=' :: value := by
      cases attached with
      | nil => simp at hhead
      | cons c value => exact ⟨value, by simpa using hhead⟩
    simp

/-- What makes a text a name of a switch: two dashes, no equals sign, and
either the whole of a spelling or the beginning of just one. -/
def Tells (name : String) (s : Switch) (cs : List Char) : Prop :=
  cs = '-' :: '-' :: cs.drop 2 ∧ '=' ∉ cs ∧
    (Switch.ofSpelling? cs = some s ∨
      Switch.ofSpelling? cs = none ∧ Switch.candidates cs = [(name, s)])

instance (name : String) (s : Switch) (cs : List Char) : Decidable (Tells name s cs) :=
  inferInstanceAs (Decidable (_ ∧ _ ∧ _))

/-- The long names of the switches that do not ask for help. -/
def longNames : List (String × Switch) :=
  [("--memory-size", .memorySize), ("--encoding", .encoding), ("--verbose", .verbose)]

theorem tells_beginning {name : String} {s : Switch} (h : (name, s) ∈ longNames) (more : Nat) :
    Tells name s (beginning name more).toList := by
  have hlength : name.toList.length ≤ 13 :=
    (by decide : ∀ p ∈ longNames, p.1.toList.length ≤ 13) _ h
  have few : ∀ p ∈ longNames, ∀ k ≤ 10, Tells p.1 p.2 (p.1.toList.take (k + 3)) := by decide
  have hfew := few _ h (min more 10) (by omega)
  have hcut : name.toList.take (min more 10 + 3) = name.toList.take (more + 3) := by
    rcases Nat.le_total more 10 with hle | hle
    · rw [Nat.min_eq_left hle]
    · rw [List.take_of_length_le (by omega), List.take_of_length_le (by omega)]
  unfold beginning
  rwa [String.toList_ofList, ← hcut]

theorem classify_beginning {name : String} {s : Switch} (h : (name, s) ∈ longNames) (more : Nat)
    {text : String} {attached : List Char}
    (htext : text.toList = (beginning name more).toList ++ attached)
    (hattached : attached = [] ∨ attached.head? = some '=') :
    classify text = .ok (.switch s true attached) := by
  obtain ⟨hdashes, hequals, hname⟩ := tells_beginning h more
  obtain ⟨htake, hdrop⟩ := cut_at_equals hequals hattached
  generalize (beginning name more).toList = cs at *
  obtain ⟨rest, rfl⟩ : ∃ rest, cs = '-' :: '-' :: rest := ⟨_, hdashes⟩
  unfold classify
  rw [htext]
  simp only [List.cons_append] at htake hdrop ⊢
  simp only [htake, hdrop]
  rcases hname with hspelling | ⟨hspelling, hcandidates⟩
  · rw [hspelling]
    rfl
  · rw [hspelling]
    simp [ofShortened, hcandidates]

/-- A spelling goes on with a dash or is one of three letters. -/
theorem ofSpelling?_eq_none {c : Char} {cs : List Char} (h : c ≠ '-')
    (hletter : cs = [] → c ≠ 'h' ∧ c ≠ 'm' ∧ c ≠ 'v') :
    Switch.ofSpelling? ('-' :: c :: cs) = none := by
  unfold Switch.ofSpelling?
  rw [Option.map_eq_none_iff, List.find?_eq_none]
  intro p hp
  simp only [Switch.spellings, List.mem_cons, List.not_mem_nil, or_false] at hp
  rcases hp with rfl | rfl | rfl | rfl | rfl | rfl | rfl
  all_goals
    intro heq
    rw [beq_iff_eq] at heq
    simp at heq
  all_goals grind

theorem isNumber_of_isDigit {cs : List Char} (hne : cs ≠ []) (h : ∀ c ∈ cs, c.isDigit = true) :
    isNumber cs = true := by
  have hfeed : dropLineFeed cs = cs := by
    unfold dropLineFeed
    rw [if_neg]
    intro hlast
    have hmem : '\n' ∈ cs := List.mem_of_getLast? (by simpa using hlast)
    have := h _ hmem
    simp at this
  have hdigits : cs.dropWhile isDigit = [] := by
    rw [List.dropWhile_eq_nil_iff]
    intro c hc
    rw [isDigit, Numeral.digit?_of_isDigit (h c hc)]
    rfl
  unfold isNumber
  simp only [hfeed, hdigits]
  simpa using hne

/-- A word behind one dash that is no spelling as a whole begins with a letter. -/
theorem classify_letters {text : String} {c : Char} {cs : List Char}
    (htext : text.toList = '-' :: c :: cs) (hc : c ≠ '-') (hequals : c ≠ '=')
    (hletter : cs.takeWhile (· != '=') = [] → c ≠ 'h' ∧ c ≠ 'm' ∧ c ≠ 'v') :
    classify text = .ok
      (match Switch.ofLetter? c with
        | some s => .switch s false cs
        | none => ofOther text) := by
  have hname : ('-' :: c :: cs).takeWhile (· != '=') = '-' :: c :: cs.takeWhile (· != '=') := by
    simp [hequals]
  unfold classify
  rw [htext]
  simp only [hname, ofSpelling?_eq_none hc hletter, beq_eq_false_iff_ne.mpr hc]
  cases Switch.ofLetter? c <;> rfl

/-- A number is a value even if it is negative. -/
theorem classify_ofInt (n : Int) :
    classify (Numeral.ofInt n) = .ok (.value (Numeral.ofInt n)) := by
  cases n with
  | ofNat m =>
    refine classify_plain fun hhead => ?_
    have hdigit := Numeral.isDigit_ofNat (List.mem_of_head? hhead)
    simp at hdigit
  | negSucc m =>
    have hchars := Numeral.toList_ofInt_negSucc m
    have hnumber := isNumber_of_isDigit (Numeral.ofNat_ne_nil (m + 1)) fun c => Numeral.isDigit_ofNat
    have hdigit := @Numeral.isDigit_ofNat (m + 1)
    have hother : ofOther (Numeral.ofInt (.negSucc m)) = .value (Numeral.ofInt (.negSucc m)) := by
      simp [ofOther, hchars, hnumber]
    cases hcs : (Numeral.ofNat (m + 1)).toList with
    | nil => exact absurd hcs (Numeral.ofNat_ne_nil _)
    | cons c cs =>
      have hc : c.isDigit = true := hdigit (by rw [hcs]; exact List.mem_cons_self)
      -- A digit is neither a dash nor a letter nor an equals sign.
      have hne (x : Char) (hx : x.isDigit = false) : c ≠ x := by
        rintro rfl
        rw [hc] at hx
        cases hx
      have hnone : Switch.ofLetter? c = none :=
        ofSpelling?_eq_none (hne _ rfl) fun _ => ⟨hne _ rfl, hne _ rfl, hne _ rfl⟩
      rw [hcs] at hchars
      rw [classify_letters hchars (hne _ rfl) (hne _ rfl)
        fun _ => ⟨hne _ rfl, hne _ rfl, hne _ rfl⟩, hnone, hother]

/-- A number begins with a digit or a sign. -/
theorem exists_cons_ofInt (n : Int) : ∃ c cs, (Numeral.ofInt n).toList = c :: cs ∧ c ≠ '=' := by
  cases n with
  | ofNat m =>
    cases hcs : (Numeral.ofNat m).toList with
    | nil => exact absurd hcs (Numeral.ofNat_ne_nil m)
    | cons c cs =>
      refine ⟨c, cs, hcs, ?_⟩
      rintro rfl
      have hdigit := @Numeral.isDigit_ofNat m '='
      rw [hcs] at hdigit
      simp at hdigit
  | negSucc m => exact ⟨'-', _, Numeral.toList_ofInt_negSucc m, by decide⟩

/-- The letter that a memory size belongs to, in each form. -/
theorem classify_letter_size (n : Int) :
    classify "-m" = .ok (.switch .memorySize false []) ∧
      classify ("-m" ++ Numeral.ofInt n) =
        .ok (.switch .memorySize false (Numeral.ofInt n).toList) ∧
      classify ("-m" ++ "=" ++ Numeral.ofInt n) =
        .ok (.switch .memorySize false ('=' :: (Numeral.ofInt n).toList)) := by
  have hletter : Switch.ofLetter? 'm' = some .memorySize := by decide
  refine ⟨rfl, ?_, ?_⟩
  · have htext : ("-m" ++ Numeral.ofInt n).toList = '-' :: 'm' :: (Numeral.ofInt n).toList := by
      simp
    obtain ⟨c, cs, hcs, hc⟩ := exists_cons_ofInt n
    rw [classify_letters htext (by decide) (by decide) (by simp [hcs, hc]), hletter]
  · have htext : ("-m" ++ "=" ++ Numeral.ofInt n).toList =
        ['-', 'm'] ++ '=' :: (Numeral.ofInt n).toList := by
      simp
    obtain ⟨htake, hdrop⟩ : _ ∧ _ :=
      @cut_at_equals ['-', 'm'] ('=' :: (Numeral.ofInt n).toList) (by decide) (.inr rfl)
    unfold classify
    rw [htext]
    simp only [List.cons_append, List.nil_append] at htake hdrop ⊢
    simp only [htake, hdrop]
    rfl

end Word

/-- How a letter and a memory size look. -/
def LetterForm.looks (value : String) : LetterForm → List Word
  | next => [.switch .memorySize false [], .value value]
  | touching => [.switch .memorySize false value.toList]
  | equals => [.switch .memorySize false ('=' :: value.toList)]

/-- How a long name and its value look; the name may be any beginning. -/
def NameForm.looks (s : Switch) (value : String) : NameForm → List Word
  | next _ => [.switch s true [], .value value]
  | equals _ => [.switch s true ('=' :: value.toList)]

/-- How a group looks. -/
def Group.looks : Group → List Word
  | sizeByLetter form n => form.looks (Numeral.ofInt n)
  | sizeByName form n => form.looks .memorySize (Numeral.ofInt n)
  | encoding form e => form.looks .encoding e
  | verboseByLetter => [.switch .verbose false []]
  | verboseByName _ => [.switch .verbose true []]

namespace Word

variable {rest : List String} {ws : List Word} (hrest : ofArguments rest = .ok ws)
include hrest

theorem ofArguments_letterForm (form : LetterForm) (n : Int) :
    ofArguments (form.words "-m" (Numeral.ofInt n) ++ rest) =
      .ok (form.looks (Numeral.ofInt n) ++ ws) := by
  obtain ⟨hletter, htouching, hequals⟩ := classify_letter_size n
  cases form with
  | next => exact ofArguments_cons hletter (ofArguments_cons (classify_ofInt n) hrest)
  | touching => exact ofArguments_cons htouching hrest
  | equals => exact ofArguments_cons hequals hrest

theorem ofArguments_nameForm {name : String} {s : Switch} (h : (name, s) ∈ longNames)
    (form : NameForm) {value : String} (hvalue : classify value = .ok (.value value)) :
    ofArguments (form.words name value ++ rest) = .ok (form.looks s value ++ ws) := by
  cases form with
  | next more =>
    have hname : classify (beginning name more) = .ok (.switch s true []) :=
      classify_beginning h more (List.append_nil _).symm (.inl rfl)
    exact ofArguments_cons hname (ofArguments_cons hvalue hrest)
  | equals more =>
    have hname : classify (beginning name more ++ "=" ++ value) =
        .ok (.switch s true ('=' :: value.toList)) :=
      classify_beginning h more (by simp) (.inr rfl)
    exact ofArguments_cons hname hrest

theorem ofArguments_words {g : Group} (h : g.Valid) :
    ofArguments (g.words ++ rest) = .ok (g.looks ++ ws) := by
  cases g with
  | sizeByLetter form n => exact ofArguments_letterForm hrest form n
  | sizeByName form n => exact ofArguments_nameForm hrest (by decide) form (classify_ofInt n)
  | encoding form e => exact ofArguments_nameForm hrest (by decide) form (classify_plain h)
  | verboseByLetter => exact ofArguments_cons rfl hrest
  | verboseByName more =>
    have hname : classify (beginning "--verbose" more) = .ok (.switch .verbose true []) :=
      classify_beginning (by decide) more (List.append_nil _).symm (.inl rfl)
    exact ofArguments_cons hname hrest

theorem ofArguments_groups {gs : List Group} (h : ∀ g ∈ gs, g.Valid) :
    ofArguments (gs.flatMap Group.words ++ rest) = .ok (gs.flatMap Group.looks ++ ws) := by
  induction gs with
  | nil => exact hrest
  | cons g gs ih =>
    have hgs := ih fun g' hg' => h g' (List.mem_cons_of_mem g hg')
    rw [List.flatMap_cons, List.flatMap_cons, List.append_assoc, List.append_assoc]
    exact ofArguments_words hgs (h g List.mem_cons_self)

omit hrest in
theorem ofArguments_flatMap {gs : List Group} (h : ∀ g ∈ gs, g.Valid) :
    ofArguments (gs.flatMap Group.words) = .ok (gs.flatMap Group.looks) := by
  have hnil : ofArguments [] = .ok [] := rfl
  simpa only [List.append_nil] using ofArguments_groups hnil h

omit hrest in
/-- A command looks like its groups, and its file like a value. -/
theorem ofArguments_command {before after : List Group} {file : String} (hfile : IsPlain file)
    (h : ∀ g ∈ before ++ after, g.Valid) :
    ofArguments (before.flatMap Group.words ++ file :: after.flatMap Group.words) =
      .ok (before.flatMap Group.looks ++ .value file :: after.flatMap Group.looks) := by
  have hafter := ofArguments_flatMap fun g hg => h g (List.mem_append_right before hg)
  exact ofArguments_groups (ofArguments_cons (classify_plain hfile) hafter)
    fun g hg => h g (List.mem_append_left after hg)

end Word

/-! ## What groups do -/

namespace Reading

/-- What a reading becomes when a group asks for a setting. -/
def ask (r : Reading) : Group → Reading
  | .sizeByLetter _ n | .sizeByName _ n => { r with memorySize := n }
  | .encoding _ e => { r with encoding := e }
  | .verboseByLetter | .verboseByName _ => { r with verbose := true }

theorem attachedValue_cons {c : Char} (h : c ≠ '=') (cs : List Char) :
    attachedValue (c :: cs) = c :: cs := by
  unfold attachedValue
  split
  next heq => exact absurd (List.cons.inj heq).1 h
  next => rfl

theorem readWords_attached {s : Switch} (hs : s.takesValue = true) (long : Bool) {c : Char}
    (attached : List Char) (r : Reading) (beside : Bool) (ws : List Word) :
    r.readWords beside (.switch s long (c :: attached) :: ws) =
      match r.act s (String.ofList (attachedValue (c :: attached))) with
      | .error e => .error e
      | .ok r => r.readWords r.inputFile?.isNone ws := by
  have hspell : spell s long (c :: attached) =
      .ok ⟨[], .valued s (attachedValue (c :: attached))⟩ := by
    simp [spell, spellLetters, hs]
  rw [readWords, hspell]
  rfl

theorem readWords_apart {s : Switch} (hs : s.takesValue = true) (long : Bool) (value : String)
    (r : Reading) (beside : Bool) (ws : List Word) :
    r.readWords beside (.switch s long [] :: .value value :: ws) =
      match r.act s value with
      | .error e => .error e
      | .ok r => r.readWords r.inputFile?.isNone ws := by
  have hspell : spell s long [] = .ok ⟨[], .bare s⟩ := by
    simp [spell, spellLetters]
  rw [readWords, hspell]
  simp only [hs, if_true]
  rfl

theorem act_ofInt {n : Int} (h : n.natAbs < 10 ^ Numeral.maxDigits) (r : Reading) :
    r.act .memorySize (Numeral.ofInt n) = .ok { r with memorySize := n } := by
  simp only [act, Numeral.readInt?_ofInt, if_pos h]

theorem act_ofInt_of_le {n : Int} (h : 10 ^ Numeral.maxDigits ≤ n.natAbs) (r : Reading) :
    r.act .memorySize (Numeral.ofInt n) = .error (.misuse (.invalidInteger (Numeral.ofInt n))) := by
  simp only [act, Numeral.readInt?_ofInt, if_neg (Nat.not_lt.mpr h)]

theorem readWords_letterForm (form : LetterForm) {n : Int} (h : n.natAbs < 10 ^ Numeral.maxDigits)
    (r : Reading) (beside : Bool) (ws : List Word) :
    r.readWords beside (form.looks (Numeral.ofInt n) ++ ws) =
      { r with memorySize := n }.readWords r.inputFile?.isNone ws := by
  cases form with
  | next =>
    rw [LetterForm.looks, List.cons_append, List.cons_append, readWords_apart rfl, act_ofInt h]
    rfl
  | touching =>
    obtain ⟨c, cs, hcs, hc⟩ := Word.exists_cons_ofInt n
    have hvalue : String.ofList (attachedValue (c :: cs)) = Numeral.ofInt n := by
      rw [attachedValue_cons hc, ← hcs, String.ofList_toList]
    rw [LetterForm.looks, hcs, List.cons_append, readWords_attached rfl, hvalue, act_ofInt h]
    rfl
  | equals =>
    have hvalue : String.ofList (attachedValue ('=' :: (Numeral.ofInt n).toList)) =
        Numeral.ofInt n := by
      simp [attachedValue]
    rw [LetterForm.looks, List.cons_append, readWords_attached rfl, hvalue, act_ofInt h]
    rfl

theorem readWords_nameForm {s : Switch} (hs : s.takesValue = true) (form : NameForm)
    {value : String} {r r' : Reading} (hact : r.act s value = .ok r') (beside : Bool)
    (ws : List Word) :
    r.readWords beside (form.looks s value ++ ws) = r'.readWords r'.inputFile?.isNone ws := by
  cases form with
  | next more =>
    rw [NameForm.looks, List.cons_append, List.cons_append, readWords_apart hs, hact]
    rfl
  | equals more =>
    have hvalue : String.ofList (attachedValue ('=' :: value.toList)) = value := by
      simp [attachedValue]
    rw [NameForm.looks, List.cons_append, readWords_attached hs, hvalue, hact]
    rfl

theorem readWords_flag (long : Bool) (r : Reading) (beside : Bool) (ws : List Word) :
    r.readWords beside (.switch .verbose long [] :: ws) =
      { r with verbose := true }.readWords r.inputFile?.isNone ws := by
  have hspell : spell .verbose long [] = .ok ⟨[], .bare .verbose⟩ := by
    cases long <;> rfl
  rw [readWords, hspell]
  rfl

/-- A group asks for its setting, and the words behind it are read on. -/
theorem readWords_looks {g : Group} (h : g.Valid) (r : Reading) (beside : Bool) (ws : List Word) :
    r.readWords beside (g.looks ++ ws) = (r.ask g).readWords r.inputFile?.isNone ws := by
  cases g with
  | sizeByLetter form n => exact readWords_letterForm form h r beside ws
  | sizeByName form n => exact readWords_nameForm rfl form (act_ofInt h r) beside ws
  | encoding form e => exact readWords_nameForm rfl form rfl beside ws
  | verboseByLetter => exact readWords_flag false r beside ws
  | verboseByName more => exact readWords_flag true r beside ws

/-- After groups the last of each kind counts. -/
theorem foldl_ask (r : Reading) (gs : List Group) :
    gs.foldl ask r =
      { r with
        memorySize := (gs.filterMap Group.size?).getLastD r.memorySize
        encoding := (gs.filterMap Group.encoding?).getLastD r.encoding
        verbose := r.verbose || gs.any Group.isVerbose } := by
  induction gs generalizing r with
  | nil => simp
  | cons g gs ih =>
    rw [List.foldl_cons, ih]
    cases g <;>
      simp only [ask, Group.size?, Group.encoding?, Group.isVerbose, List.filterMap_cons,
        List.getLastD_cons, List.any_cons, Bool.false_or, Bool.true_or, Bool.or_true]

theorem foldl_ask_named (r : Reading) (file? : Option String) (gs : List Group) :
    gs.foldl ask { r with inputFile? := file? } =
      { gs.foldl ask r with inputFile? := file? } := by
  rw [foldl_ask, foldl_ask]

theorem readWords_groups {gs : List Group} (h : ∀ g ∈ gs, g.Valid) (r : Reading) (beside : Bool)
    (ws : List Word) :
    ∃ beside', r.readWords beside (gs.flatMap Group.looks ++ ws) =
      (gs.foldl ask r).readWords beside' ws := by
  induction gs generalizing r beside with
  | nil => exact ⟨beside, rfl⟩
  | cons g gs ih =>
    obtain ⟨beside', hgs⟩ := ih (fun g' hg' => h g' (List.mem_cons_of_mem g hg')) (r.ask g)
      r.inputFile?.isNone
    refine ⟨beside', ?_⟩
    rw [List.flatMap_cons, List.append_assoc, readWords_looks (h g List.mem_cons_self), hgs]
    rfl

/-- A command is read as its groups, with the file that it names. -/
theorem readWords_command {before after : List Group} (file : String)
    (h : ∀ g ∈ before ++ after, g.Valid) :
    start.readWords true
        (before.flatMap Group.looks ++ .value file :: after.flatMap Group.looks) =
      .ok { (before ++ after).foldl ask start with inputFile? := some file } := by
  obtain ⟨beside, hbefore⟩ := readWords_groups
    (fun g hg => h g (List.mem_append_left after hg)) start true
    (.value file :: after.flatMap Group.looks)
  obtain ⟨beside', hafter⟩ := readWords_groups
    (fun g hg => h g (List.mem_append_right before hg))
    { before.foldl ask start with inputFile? := some file } true []
  -- No group names a file, so the value is the file.
  have hnone : (before.foldl ask start).inputFile? = none := by
    rw [foldl_ask]
    rfl
  rw [List.append_nil] at hafter
  rw [hbefore, readWords, hnone]
  simp only
  rw [hafter, readWords, foldl_ask_named, List.foldl_append]

end Reading

/-- **Order and spelling do not matter.** A command made of one file and any
groups before and after it, in whatever forms, asks for that file, for the
memory size and the encoding of the last group that names one, and for the log
if any group does. -/
theorem parse_groups {before after : List Group} {file : String} (hfile : IsPlain file)
    (hgroups : ∀ g ∈ before ++ after, g.Valid) :
    Arguments.parse (before.flatMap Group.words ++ file :: after.flatMap Group.words) =
      .ok
        { inputFile := file
          memorySize := ((before ++ after).filterMap Group.size?).getLastD 30000
          encoding := ((before ++ after).filterMap Group.encoding?).getLastD "utf-8"
          verbose := (before ++ after).any Group.isVerbose } := by
  unfold Arguments.parse
  rw [Word.ofArguments_command hfile hgroups]
  simp only [Reading.readWords_command file hgroups, Reading.foldl_ask]
  rfl

/-- Negative numbers, equals signs inside values, beginnings of names, and the
file in the middle. -/
theorem parse_groups_mixed :
    Arguments.parse ["-m-7", "--enc=a=b", "-v", "p.bf", "--memory", "-12", "--e", "latin-1"] =
      .ok ⟨"p.bf", -12, "latin-1", true⟩ := by
  have hletter : Group.Valid (.sizeByLetter .touching (-7)) := Group.lt_of_lt_hundred (by decide)
  have hname : Group.Valid (.sizeByName (.next 5) (-12)) := Group.lt_of_lt_hundred (by decide)
  have hencodings : IsPlain "a=b" ∧ IsPlain "latin-1" := by unfold IsPlain; decide
  have hgroups : ∀ g ∈ [Group.sizeByLetter .touching (-7), .encoding (.equals 2) "a=b",
      .verboseByLetter] ++ [.sizeByName (.next 5) (-12), .encoding (.next 0) "latin-1"],
      g.Valid := by
    intro g hg
    simp only [List.cons_append, List.nil_append, List.mem_cons, List.not_mem_nil, or_false] at hg
    rcases hg with rfl | rfl | rfl | rfl | rfl
    · exact hletter
    · exact hencodings.1
    · trivial
    · exact hname
    · exact hencodings.2
  have hplain : IsPlain "p.bf" := by unfold IsPlain; decide
  have hwords : ["-m-7", "--enc=a=b", "-v", "p.bf", "--memory", "-12", "--e", "latin-1"] =
      [Group.sizeByLetter .touching (-7), .encoding (.equals 2) "a=b",
        .verboseByLetter].flatMap Group.words ++ "p.bf" ::
      [Group.sizeByName (.next 5) (-12), .encoding (.next 0) "latin-1"].flatMap Group.words := by
    decide
  rw [hwords]
  exact parse_groups hplain hgroups

theorem Reading.readWords_long_numeral {n : Int} (h : 10 ^ Numeral.maxDigits ≤ n.natAbs)
    (r : Reading) (beside : Bool) (ws : List Word) :
    r.readWords beside (LetterForm.next.looks (Numeral.ofInt n) ++ ws) =
      .error (.misuse (.invalidInteger (Numeral.ofInt n))) := by
  rw [LetterForm.looks, List.cons_append, List.cons_append, readWords_apart rfl,
    act_ofInt_of_le h]

/-- A number with too many digits is refused, whatever is behind it. -/
theorem parse_eq_invalidInteger {n : Int} (h : 10 ^ Numeral.maxDigits ≤ n.natAbs) {file : String}
    (hfile : IsPlain file) {after : List Group} (hafter : ∀ g ∈ after, g.Valid) :
    Arguments.parse (file :: (Group.sizeByLetter .next n :: after).flatMap Group.words) =
      .error (.misuse (.invalidInteger (Numeral.ofInt n))) := by
  have hwords :
      Word.ofArguments (file :: (Group.sizeByLetter .next n :: after).flatMap Group.words) =
        .ok (.value file ::
          (LetterForm.next.looks (Numeral.ofInt n) ++ after.flatMap Group.looks)) :=
    Word.ofArguments_cons (Word.classify_plain hfile)
      (Word.ofArguments_letterForm (Word.ofArguments_flatMap hafter) .next n)
  unfold Arguments.parse
  rw [hwords]
  simp only [Reading.readWords, Reading.start, Reading.readWords_long_numeral h]

/-- A number of 4301 digits is refused, though a group behind it asks for another size. -/
theorem parse_of_long_numeral :
    Arguments.parse ("p.bf" :: [Group.sizeByLetter .next ((10 ^ 4300 : Nat) : Int),
      .sizeByLetter .next 5].flatMap Group.words) ≠ .ok ⟨"p.bf", 5, "utf-8", false⟩ := by
  have hlong : 10 ^ Numeral.maxDigits ≤ ((10 ^ 4300 : Nat) : Int).natAbs := by
    rw [Int.natAbs_natCast, Numeral.maxDigits]
  have hplain : IsPlain "p.bf" := by unfold IsPlain; decide
  have hlast : ∀ g ∈ [Group.sizeByLetter .next 5], g.Valid := by
    intro g hg
    cases List.mem_singleton.mp hg
    exact Group.lt_of_lt_hundred (by decide)
  rw [parse_eq_invalidInteger hlong hplain hlast]
  intro h
  cases h

end Brainfuck.CommandLine
