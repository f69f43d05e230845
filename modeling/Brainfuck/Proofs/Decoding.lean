/-
The program in a file is in its bytes, and it does not matter which of the
encodings that extend ASCII they are read in.

A command is one byte, below 80, and what is in a file besides is comment. So
all that is needed of an encoding is that the character it reads stands for the
same commands as the bytes it takes up (`Faithful`). Where a byte is a
character, that is plain. In UTF-8 it is so because of the narrow ranges of the
second byte: no character below 80 has a form of several bytes
(`Utf8.lead?_shortest`), and all bytes of such a form are 80 or more, so that on
both sides there is no command. From one character it follows for a whole file,
and what is done around the decoding, dropping a mark in front and turning line
ends into line feeds, changes comment only.
-/
import Mathlib
import Brainfuck.Run

namespace Brainfuck

/-! ## Commands in characters and bytes -/

namespace Command

/-- The byte of a command. -/
def byte (c : Command) : UInt8 :=
  UInt8.ofNat c.symbol.toNat

/-- The commands among characters. -/
def ofChars (cs : List Char) : List Command :=
  cs.filterMap ofSymbol?

/-- The commands among bytes, each byte taken for the character with its number. -/
def ofBytes (bs : List UInt8) : List Command :=
  bs.filterMap fun b => ofSymbol? (Char.ofNat b.toNat)

@[simp] theorem ofChars_append (cs ds : List Char) :
    ofChars (cs ++ ds) = ofChars cs ++ ofChars ds :=
  List.filterMap_append

theorem ofChars_cons (c : Char) (cs : List Char) :
    ofChars (c :: cs) = ofChars [c] ++ ofChars cs :=
  ofChars_append [c] cs

@[simp] theorem ofBytes_append (bs cs : List UInt8) :
    ofBytes (bs ++ cs) = ofBytes bs ++ ofBytes cs :=
  List.filterMap_append

theorem symbol_lt (c : Command) : c.symbol.toNat < 0x80 := by
  cases c with
  | act a => cases a <;> decide
  | openLoop => decide
  | closeLoop => decide

/-- Beyond ASCII there are no commands; a number that is no character's stands
for the character 0, which is none either. -/
theorem ofSymbol?_ofNat_eq_none {n : Nat} (h : 0x80 ≤ n) : ofSymbol? (Char.ofNat n) = none := by
  cases hc : ofSymbol? (Char.ofNat n) with
  | none => rfl
  | some c =>
    by_cases hn : n.isValidChar
    · have hlt := c.symbol_lt
      rw [symbol_of_ofSymbol? hc, Char.toNat_ofNat, if_pos hn] at hlt
      omega
    · have hzero : Char.ofNat n = '\x00' := dif_neg hn
      rw [hzero] at hc
      cases hc

theorem ofBytes_eq_nil {bs : List UInt8} (h : ∀ b ∈ bs, 0x80 ≤ b.toNat) : ofBytes bs = [] :=
  List.filterMap_eq_nil_iff.mpr fun b hb => ofSymbol?_ofNat_eq_none (h b hb)

theorem mem_all (c : Command) : c ∈ all := by
  cases c with
  | act a => cases a <;> decide
  | openLoop => decide
  | closeLoop => decide

theorem byte_of_ofSymbol? {b : UInt8} {c : Command} (h : ofSymbol? (Char.ofNat b.toNat) = some c) :
    c.byte = b := by
  have hvalid : b.toNat.isValidChar := .inl (Nat.lt_trans b.toNat_lt (by decide))
  rw [byte, symbol_of_ofSymbol? h, Char.toNat_ofNat, if_pos hvalid, UInt8.ofNat_toNat]

end Command

/-- The bytes of a file that are commands. -/
def commandBytes (file : List UInt8) : List UInt8 :=
  file.filter (· ∈ Command.all.map Command.byte)

/-- The bytes of a file that are commands, as a text. -/
def commandText (file : List UInt8) : String :=
  String.ofList ((commandBytes file).map fun b => Char.ofNat b.toNat)

theorem commands_commandText (file : List UInt8) :
    (ProgramText.text (commandText file)).commands = Command.ofBytes file := by
  rw [ProgramText.commands, commandText, String.toList_ofList, List.filterMap_map, commandBytes,
    List.filterMap_filter]
  refine List.filterMap_congr fun b _ => ?_
  split
  next => rfl
  next hb =>
    cases hc : Command.ofSymbol? (Char.ofNat b.toNat) with
    | none => rfl
    | some c =>
      have hmem : b ∈ Command.all.map Command.byte :=
        List.mem_map.mpr ⟨c, c.mem_all, Command.byte_of_ofSymbol? hc⟩
      exact absurd (decide_eq_true hmem) hb

/-! ## Decoding a file -/

namespace Encoding

/-- A character that is read off the front of some bytes stands for the same
commands as the bytes that it takes up. -/
def Faithful (head : UInt8 → List UInt8 → Head) : Prop :=
  ∀ {b : UInt8} {bs : List UInt8} {c : Char} {more : Nat}, head b bs = .char c more →
    Command.ofChars [c] = Command.ofBytes (b :: bs.take more)

theorem scanFrom_commands {head : UInt8 → List UInt8 → Head} (hf : Faithful head) {pos : Nat}
    {read cs : List Char} {bs : List UInt8} (h : scanFrom head pos read bs = .ok cs) :
    Command.ofChars cs = Command.ofChars read.reverse ++ Command.ofBytes bs := by
  fun_induction scanFrom head pos read bs with
  | case1 pos read =>
    cases h
    exact (List.append_nil _).symm
  | case2 pos read b bs c more hhead ih =>
    have hsplit : b :: bs = b :: bs.take more ++ bs.drop more := by
      rw [List.cons_append, List.take_append_drop]
    calc Command.ofChars cs
      _ = Command.ofChars (c :: read).reverse ++ Command.ofBytes (bs.drop more) := ih h
      _ = Command.ofChars read.reverse ++
          (Command.ofChars [c] ++ Command.ofBytes (bs.drop more)) := by
        rw [List.reverse_cons, Command.ofChars_append, List.append_assoc]
      _ = Command.ofChars read.reverse ++ Command.ofBytes (b :: bs) := by
        rw [hf hhead, ← Command.ofBytes_append, ← hsplit]
  | case3 => cases h

theorem faithful_latin1 : Faithful latin1.head := by
  rintro b bs c more ⟨⟩
  rfl

theorem faithful_ascii : Faithful ascii.head := by
  intro b bs c more h
  simp only [head] at h
  split at h
  · cases h
    rfl
  · cases h

end Encoding

namespace Encoding.Utf8

/-- The narrow ranges of the second byte keep the forms of several bytes from
standing for a character that has a form of one. -/
theorem lead?_shortest {b : Nat} {l : Lead} (h : lead? b = some l) :
    ∃ m, l.more = m + 1 ∧ 0x80 ≤ l.low ∧ 0x80 ≤ 64 ^ m * (64 * l.bits + (l.low - 0x80)) := by
  unfold lead? at h
  split_ifs at h with h2 hE0 hED h3 hF0 h4 hF4 <;> obtain rfl := Option.some.inj h
  · exact ⟨0, rfl, Nat.le_refl 0x80, by dsimp only; omega⟩
  · exact ⟨1, rfl, by decide, by decide⟩
  · exact ⟨1, rfl, by decide, by decide⟩
  · exact ⟨1, rfl, Nat.le_refl 0x80, by dsimp only; omega⟩
  · exact ⟨2, rfl, by decide, by decide⟩
  · exact ⟨2, rfl, Nat.le_refl 0x80, by dsimp only; omega⟩
  · exact ⟨2, rfl, by decide, by decide⟩

/-- One byte more of a character: it is in range, and the rest of the character
is behind it. -/
theorem follow_succ {bits low high taken missing : Nat} {bs : List UInt8} {c : Char} {more : Nat}
    (h : follow bits low high taken (missing + 1) bs = .char c more) :
    ∃ b rest, bs = b :: rest ∧ low ≤ b.toNat ∧
      follow (64 * bits + (b.toNat - 0x80)) 0x80 0xBF (taken + 1) missing rest = .char c more := by
  cases bs with
  | nil => cases h
  | cons b rest =>
    simp only [follow] at h
    split at h
    next hb => exact ⟨b, rest, rfl, hb.1, h⟩
    next => cases h

/-- The bytes after the first are all 80 or more, and each moves the bits that
have been read on by six places. -/
theorem follow_char {bits low high taken missing : Nat} {bs : List UInt8} {c : Char} {more : Nat}
    (h : follow bits low high taken missing bs = .char c more) (hlow : 0x80 ≤ low) :
    more = taken + missing ∧ (∀ b ∈ bs.take missing, 0x80 ≤ b.toNat) ∧
      ∃ n, c = Char.ofNat n ∧ 64 ^ missing * bits ≤ n := by
  induction missing generalizing bits low high taken bs with
  | zero =>
    cases h
    exact ⟨rfl, fun b hb => absurd hb List.not_mem_nil, bits, rfl, by omega⟩
  | succ missing ih =>
    obtain ⟨b, rest, rfl, hb, hrest⟩ := follow_succ h
    obtain ⟨hmore, hbytes, n, hc, hn⟩ := ih hrest (Nat.le_refl 0x80)
    refine ⟨by omega, ?_, n, hc, ?_⟩
    · rw [List.take_succ_cons]
      exact List.forall_mem_cons.mpr ⟨Nat.le_trans hlow hb, hbytes⟩
    · calc 64 ^ (missing + 1) * bits
        _ = 64 ^ missing * (64 * bits) := by rw [Nat.pow_succ, Nat.mul_assoc]
        _ ≤ 64 ^ missing * (64 * bits + (b.toNat - 0x80)) :=
          Nat.mul_le_mul_left _ (Nat.le_add_right _ _)
        _ ≤ n := hn

/-- A form of several bytes stands for no command. -/
theorem follow_lead {b : Nat} {l : Lead} (hl : lead? b = some l) {bs : List UInt8} {c : Char}
    {more : Nat} (h : follow l.bits l.low l.high 0 l.more bs = .char c more) :
    (∀ b ∈ bs.take more, 0x80 ≤ b.toNat) ∧ Command.ofSymbol? c = none := by
  obtain ⟨m, hm, hlow, hshortest⟩ := lead?_shortest hl
  obtain ⟨hmore, hbytes, -⟩ := follow_char h hlow
  constructor
  · rwa [hmore, Nat.zero_add]
  · -- The second byte has a range of its own, so the bound is taken from behind it.
    rw [hm] at h
    obtain ⟨b', rest, -, hb', hrest⟩ := follow_succ h
    obtain ⟨-, -, n, rfl, hn⟩ := follow_char hrest (Nat.le_refl 0x80)
    refine Command.ofSymbol?_ofNat_eq_none ?_
    calc 0x80
      _ ≤ 64 ^ m * (64 * l.bits + (l.low - 0x80)) := hshortest
      _ ≤ 64 ^ m * (64 * l.bits + (b'.toNat - 0x80)) :=
        Nat.mul_le_mul_left _ (Nat.add_le_add_left (Nat.sub_le_sub_right hb' _) _)
      _ ≤ n := hn

theorem faithful_head : Faithful head := by
  intro b bs c more h
  unfold head at h
  split at h
  next =>
    cases h
    rfl
  next hb =>
    cases hl : lead? b.toNat with
    | none =>
      rw [hl] at h
      cases h
    | some l =>
      rw [hl] at h
      obtain ⟨hbytes, hc⟩ := follow_lead hl h
      have hall : ∀ b' ∈ b :: bs.take more, 0x80 ≤ b'.toNat :=
        List.forall_mem_cons.mpr ⟨Nat.le_of_not_lt hb, hbytes⟩
      rw [Command.ofBytes_eq_nil hall, Command.ofChars, List.filterMap_cons, hc, List.filterMap_nil]

theorem ofBytes_dropMark (bs : List UInt8) :
    Command.ofBytes (dropMark bs) = Command.ofBytes bs := by
  have hmark : Command.ofBytes mark = [] := rfl
  unfold dropMark
  split_ifs with hshort hwhole
  · simp only [Bool.and_eq_true, List.isPrefixOf_iff_prefix] at hshort
    have hshorter : Command.ofBytes bs <+: Command.ofBytes mark := hshort.2.filterMap _
    rw [hmark, List.prefix_nil] at hshorter
    rw [hshorter]
    rfl
  · obtain ⟨rest, rfl⟩ := List.isPrefixOf_iff_prefix.mp hwhole
    rw [Command.ofBytes_append, hmark]
    rfl
  · rfl

end Encoding.Utf8

namespace Encoding

/-- The encodings in which a byte below 80 is the character with its number, at
whatever place it stands. -/
def extendsAscii : Encoding → Bool
  | utf16 _ => false
  | _ => true

theorem faithful_of_extendsAscii {e : Encoding} (he : e.extendsAscii) : Faithful e.head := by
  cases e with
  | ascii => exact faithful_ascii
  | latin1 => exact faithful_latin1
  | utf8 | utf8Marked => exact Utf8.faithful_head
  | utf16 => cases he

theorem ofBytes_payload (e : Encoding) (file : List UInt8) :
    Command.ofBytes (e.payload file) = Command.ofBytes file := by
  cases e with
  | utf8Marked => exact Utf8.ofBytes_dropMark file
  | ascii | latin1 | utf8 | utf16 => rfl

theorem ofChars_lineFeeds (cs : List Char) : Command.ofChars (lineFeeds cs) = Command.ofChars cs := by
  fun_induction lineFeeds cs with
  | case1 => rfl
  | case2 cs ih => exact ih
  | case3 cs _ ih => exact ih
  | case4 c cs _ _ ih => rw [Command.ofChars_cons, ih, ← Command.ofChars_cons]

/-- What a text says that was read from a file, in an encoding that extends
ASCII: the commands among the bytes of the file. -/
theorem commands_readText {e : Encoding} (he : e.extendsAscii) {file : List UInt8} {text : String}
    (h : e.readText file = .ok text) :
    (ProgramText.text text).commands = Command.ofBytes file := by
  simp only [readText, decode, scan] at h
  cases hscan : scanFrom e.head 0 [] (e.payload file) with
  | error flaw =>
    rw [hscan] at h
    cases h
  | ok cs =>
    rw [hscan] at h
    cases h
    calc (ProgramText.text (String.ofList (lineFeeds cs))).commands
      _ = Command.ofChars (lineFeeds cs) := by
        rw [ProgramText.commands, String.toList_ofList, Command.ofChars]
      _ = Command.ofChars cs := ofChars_lineFeeds cs
      _ = Command.ofBytes (e.payload file) := scanFrom_commands (faithful_of_extendsAscii he) hscan
      _ = Command.ofBytes file := e.ofBytes_payload file

/-- In Latin-1 every byte is a character. -/
theorem scanFrom_latin1 (pos : Nat) (read : List Char) (bs : List UInt8) :
    ∃ cs, scanFrom latin1.head pos read bs = .ok cs := by
  fun_induction scanFrom latin1.head pos read bs with
  | case1 => exact ⟨_, rfl⟩
  | case2 _ _ _ _ _ _ _ ih => exact ih
  | case3 _ _ _ _ _ _ h => cases h

theorem readText_latin1 (file : List UInt8) : ∃ text, latin1.readText file = .ok text := by
  obtain ⟨cs, hcs⟩ := scanFrom_latin1 0 [] file
  refine ⟨String.ofList (lineFeeds cs), ?_⟩
  simp only [readText, decode, scan, payload, hcs]

end Encoding

/-! ## Reading a file -/

section Reading

variable {codecs : Codecs} {disk : Disk} {path : String} {file : List UInt8}

theorem readSource_ok_iff (hfile : disk (Path.plain path) = .ok file) {name text : String} :
    readSource codecs disk path name = .ok text ↔
      holdsNull name = false ∧ holdsNull path = false ∧
        codecs.decoding? name file = some (.text text) := by
  simp only [readSource, hfile]
  cases holdsNull name with
  | true => simp
  | false =>
    cases holdsNull path with
    | true => simp
    | false =>
      cases codecs.decoding? name file with
      | none => simp
      | some d => cases d <;> simp

/-- Under the name of an encoding the codecs at hand are not asked. -/
theorem readSource_ok_iff_readText (hfile : disk (Path.plain path) = .ok file)
    {name text : String} {e : Encoding} (he : Encoding.ofName? name = some e) :
    readSource codecs disk path name = .ok text ↔
      holdsNull name = false ∧ holdsNull path = false ∧ e.readText file = .ok text := by
  rw [readSource_ok_iff hfile]
  simp only [Codecs.decoding?, he, Encoding.decoding]
  cases e.readText file <;> simp

end Reading

/-- **The program in a file does not depend on which encoding reads it.** Read in
Latin-1, under whatever name of it, a file that can be opened always gives a
text, whose program is that of the bytes of the file that are commands. If some
encoding that extends ASCII reads the file, the program is the same. -/
theorem readSource_parse (codecs : Codecs) (disk : Disk) (path latin : String) {file : List UInt8}
    (hfile : disk (Path.plain path) = .ok file) (hpath : holdsNull path = false)
    (hname : holdsNull latin = false) (hlatin : Encoding.ofName? latin = some .latin1) :
    ∃ latinText, readSource codecs disk path latin = .ok latinText ∧
      Code.parse (.text latinText) = Code.parse (.text (commandText file)) ∧
      ∀ (name : String) (e : Encoding) (text : String), Encoding.ofName? name = some e →
        e.extendsAscii → readSource codecs disk path name = .ok text →
          Code.parse (.text text) = Code.parse (.text latinText) ∧
            Code.parse (.text text) = Code.parse (.text (commandText file)) := by
  have hparse {e : Encoding} (he : e.extendsAscii) {text : String} (h : e.readText file = .ok text) :
      Code.parse (.text text) = Code.parse (.text (commandText file)) := by
    rw [Code.parse, Code.parse, commands_commandText, Encoding.commands_readText he h]
  obtain ⟨latinText, hread⟩ := Encoding.readText_latin1 file
  have hlatinText := hparse (e := .latin1) rfl hread
  refine ⟨latinText, (readSource_ok_iff_readText hfile hlatin).mpr ⟨hname, hpath, hread⟩, hlatinText,
    fun name e text he hextends h => ?_⟩
  obtain ⟨-, -, htext⟩ := (readSource_ok_iff_readText hfile he).mp h
  exact ⟨(hparse hextends htext).trans hlatinText.symm, hparse hextends htext⟩

/-- A file with a mark, a character of two bytes and a line end of two. -/
theorem readSource_parse_marked :
    let file : List UInt8 := [0xEF, 0xBB, 0xBF, 0x2B, 0xC3, 0xAE, 0x0D, 0x0A, 0x5B, 0x2D]
    let disk : Disk := fun _ => .ok file
    readSource .empty disk "dec.bf" "utf-8-sig" = .ok "+î\n[-" ∧ commandText file = "+[-" ∧
      ∃ latinText, readSource .empty disk "dec.bf" "latin-1" = .ok latinText ∧
        Code.parse (.text "+î\n[-") = Code.parse (.text latinText) := by
  intro file disk
  have hfile : disk (Path.plain "dec.bf") = .ok file := rfl
  have hmarked : Encoding.ofName? "utf-8-sig" = some .utf8Marked := by decide
  have hread : readSource .empty disk "dec.bf" "utf-8-sig" = .ok "+î\n[-" :=
    (readSource_ok_iff_readText hfile hmarked).mpr ⟨by decide, by decide, by cbv⟩
  obtain ⟨latinText, hlatin, -, hsame⟩ :=
    readSource_parse .empty disk "dec.bf" "latin-1" hfile (by decide) (by decide) (by decide)
  exact ⟨hread, by decide, latinText, hlatin, (hsame _ .utf8Marked _ hmarked rfl hread).1⟩

end Brainfuck
