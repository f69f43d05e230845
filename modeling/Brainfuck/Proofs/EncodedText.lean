/-
Running the file that a text was written to is running the text, in every
encoding.

Characters are read back one by one. The bytes of a character are read as that
character and no more, whatever stands behind them (`Spells`); for UTF-8 this
is where the narrow ranges of the second byte let every character through, and
for UTF-16 it is the arithmetic of the two units. So a scan takes the
characters of the text off the front of the file in order
(`scanFrom_encodeChars?`).

The text that is read may still differ from the text that was written: line
ends become line feeds, and where a file has no mark, a character at the front
that looks like one is taken for it. None of these is a command.
-/
import Brainfuck.Proofs.Decoding

namespace Brainfuck

namespace Encoding

/-- The bytes of a character: with any bytes behind them, these and no more
are read as the character. -/
def Spells (head : UInt8 → List UInt8 → Head) (c : Char) (bs : List UInt8) : Prop :=
  ∃ b more, bs = b :: more ∧ ∀ rest, head b (more ++ rest) = .char c more.length

theorem toNat_ofNat_of_lt {n : Nat} (h : n < 0x100) : (UInt8.ofNat n).toNat = n :=
  UInt8.toNat_ofNat_of_lt' h

/-- The number of a character is not that of half a character. -/
theorem toNat_valid (c : Char) :
    c.toNat < 0xD800 ∨ 0xDFFF < c.toNat ∧ c.toNat < 0x110000 :=
  c.valid

end Encoding

/-! ## UTF-8 -/

namespace Encoding.Utf8

/-- A byte after the first adds six bits. -/
theorem follow_cons {bits low high taken missing k : Nat} (bs : List UInt8)
    (hlow : low ≤ 0x80 + k % 64) (hhigh : 0x80 + k % 64 ≤ high) :
    follow bits low high taken (missing + 1) (UInt8.ofNat (0x80 + k % 64) :: bs) =
      follow (64 * bits + k % 64) 0x80 0xBF (taken + 1) missing bs := by
  have hk : (UInt8.ofNat (0x80 + k % 64)).toNat = 0x80 + k % 64 :=
    toNat_ofNat_of_lt (by omega)
  rw [follow, hk, if_pos ⟨hlow, hhigh⟩, Nat.add_sub_cancel_left]

theorem follow_cons_last {bits taken missing k : Nat} (bs : List UInt8) :
    follow bits 0x80 0xBF taken (missing + 1) (UInt8.ofNat (0x80 + k % 64) :: bs) =
      follow (64 * bits + k % 64) 0x80 0xBF (taken + 1) missing bs :=
  follow_cons bs (Nat.le_add_right _ _) (by omega)

theorem lead?_two {n : Nat} (h : 0x80 ≤ n) (hn : n < 0x800) :
    lead? (0xC0 + n / 64) = some ⟨n / 64, 0x80, 0xBF, 1⟩ := by
  rw [lead?, if_pos (by omega), Nat.add_sub_cancel_left]

/-- The second byte of three is in range, for it makes neither a shorter form
nor half a character. -/
theorem lead?_three {n : Nat} (h : 0x800 ≤ n) (hn : n < 0x10000) (hhalf : n < 0xD800 ∨ 0xDFFF < n) :
    ∃ l, lead? (0xE0 + n / 4096) = some l ∧ l.bits = n / 4096 ∧ l.more = 2 ∧
      l.low ≤ 0x80 + n / 64 % 64 ∧ 0x80 + n / 64 % 64 ≤ l.high := by
  unfold lead?
  split_ifs with h2 hE0 hED h3 hF0 h4 hF4
  · omega
  · exact ⟨_, rfl, by dsimp only; omega, rfl, by dsimp only; omega, by dsimp only; omega⟩
  · exact ⟨_, rfl, by dsimp only; omega, rfl, by dsimp only; omega, by dsimp only; omega⟩
  · exact ⟨_, rfl, by dsimp only; omega, rfl, by dsimp only; omega, by dsimp only; omega⟩
  all_goals omega

/-- The second byte of four is in range, for it makes neither a shorter form
nor a number beyond the last character. -/
theorem lead?_four {n : Nat} (h : 0x10000 ≤ n) (hn : n < 0x110000) :
    ∃ l, lead? (0xF0 + n / 262144) = some l ∧ l.bits = n / 262144 ∧ l.more = 3 ∧
      l.low ≤ 0x80 + n / 4096 % 64 ∧ 0x80 + n / 4096 % 64 ≤ l.high := by
  unfold lead?
  split_ifs with h2 hE0 hED h3 hF0 h4 hF4
  · omega
  · omega
  · omega
  · omega
  · exact ⟨_, rfl, by dsimp only; omega, rfl, by dsimp only; omega, by dsimp only; omega⟩
  · exact ⟨_, rfl, by dsimp only; omega, rfl, by dsimp only; omega, by dsimp only; omega⟩
  · exact ⟨_, rfl, by dsimp only; omega, rfl, by dsimp only; omega, by dsimp only; omega⟩
  · omega

theorem head_lead {n : Nat} {l : Lead} (h : 0x80 ≤ n) (hn : n < 0x100) (hl : lead? n = some l)
    (bs : List UInt8) : head (UInt8.ofNat n) bs = follow l.bits l.low l.high 0 l.more bs := by
  rw [head, toNat_ofNat_of_lt hn, if_neg (Nat.not_lt.mpr h), hl]

theorem spells_encodeChar (c : Char) : Spells head c (encodeChar c) := by
  have hvalid := toNat_valid c
  have hchar {m : Nat} (hm : m = c.toNat) : Char.ofNat m = c := hm ▸ Char.ofNat_toNat c
  simp only [encodeChar]
  split_ifs with h1 h2 h3
  · refine ⟨_, _, rfl, fun rest => ?_⟩
    rw [head, toNat_ofNat_of_lt (by omega), if_pos h1, Char.ofNat_toNat]
    rfl
  · refine ⟨_, _, rfl, fun rest => ?_⟩
    rw [head_lead (by omega) (by omega) (lead?_two (by omega) h2), List.cons_append,
      follow_cons_last, follow, hchar (by dsimp only; omega)]
    rfl
  · obtain ⟨l, hl, hbits, hmore, hlow, hhigh⟩ := lead?_three (by omega) h3 (by omega)
    refine ⟨_, _, rfl, fun rest => ?_⟩
    rw [head_lead (by omega) (by omega) hl, hbits, hmore, List.cons_append,
      follow_cons _ hlow hhigh, List.cons_append, follow_cons_last, follow, hchar (by omega)]
    rfl
  · obtain ⟨l, hl, hbits, hmore, hlow, hhigh⟩ := lead?_four (n := c.toNat) (by omega) (by omega)
    refine ⟨_, _, rfl, fun rest => ?_⟩
    rw [head_lead (by omega) (by omega) hl, hbits, hmore, List.cons_append,
      follow_cons _ hlow hhigh, List.cons_append, follow_cons_last, List.cons_append,
      follow_cons_last, follow, hchar (by omega)]
    rfl

end Encoding.Utf8

/-! ## UTF-16 -/

namespace Encoding.Utf16

/-- The two bytes of a unit make the unit, in either order. -/
theorem Order.unit_bytes (order : Order) {n : Nat} (h : n < 0x10000) :
    ∃ b b', order.bytes n = [b, b'] ∧ order.unit b b' = n := by
  have hlow : (UInt8.ofNat (n % 256)).toNat = n % 256 := toNat_ofNat_of_lt (by omega)
  have hhigh : (UInt8.ofNat (n / 256)).toNat = n / 256 := toNat_ofNat_of_lt (by omega)
  cases order with
  | littleEndian => exact ⟨_, _, rfl, by rw [unit, hlow, hhigh]; omega⟩
  | bigEndian => exact ⟨_, _, rfl, by rw [unit, hlow, hhigh]; omega⟩

theorem isHigh_iff {n : Nat} : isHigh n = true ↔ 0xD800 ≤ n ∧ n < 0xDC00 := by
  simp [isHigh]

theorem isLow_iff {n : Nat} : isLow n = true ↔ 0xDC00 ≤ n ∧ n < 0xE000 := by
  simp [isLow]

theorem spells_encodeChar (order : Order) (c : Char) :
    Spells (head order) c (encodeChar order c) := by
  have hvalid := toNat_valid c
  simp only [encodeChar]
  split_ifs with h
  · obtain ⟨b, b', hbytes, hunit⟩ := order.unit_bytes h
    refine ⟨b, [b'], hbytes, fun rest => ?_⟩
    simp only [List.singleton_append, head, hunit]
    rw [if_neg (by rw [isHigh_iff]; omega),
      if_neg (by rw [isLow_iff]; omega), Char.ofNat_toNat]
    rfl
  · have hhigh : 0xD800 + (c.toNat - 0x10000) / 0x400 < 0x10000 := by omega
    have hlow : 0xDC00 + (c.toNat - 0x10000) % 0x400 < 0x10000 := by omega
    obtain ⟨b, b', hbytes, hunit⟩ := order.unit_bytes hhigh
    obtain ⟨d, d', hbytes', hunit'⟩ := order.unit_bytes hlow
    refine ⟨b, [b', d, d'], by rw [hbytes, hbytes']; rfl, fun rest => ?_⟩
    have hnumber : 0x10000 + 0x400 * (0xD800 + (c.toNat - 0x10000) / 0x400 - 0xD800) +
        (0xDC00 + (c.toNat - 0x10000) % 0x400 - 0xDC00) = c.toNat := by omega
    simp only [List.cons_append, List.nil_append, head, hunit, hunit']
    rw [if_pos (isHigh_iff.mpr (by omega)), if_pos (isLow_iff.mpr (by omega)), hnumber,
      Char.ofNat_toNat]
    rfl

end Encoding.Utf16

/-! ## Whole files -/

namespace Encoding

theorem spells_encodeChar? {e : Encoding} {c : Char} {bs : List UInt8}
    (h : e.encodeChar? c = some bs) : Spells e.head c bs := by
  cases e with
  | ascii =>
    simp only [encodeChar?] at h
    split_ifs at h with hc
    obtain rfl := Option.some.inj h
    refine ⟨_, [], rfl, fun rest => ?_⟩
    simp only [head, toNat_ofNat_of_lt (Nat.lt_trans hc (by decide)), if_pos hc, Char.ofNat_toNat]
    rfl
  | latin1 =>
    simp only [encodeChar?] at h
    split_ifs at h with hc
    obtain rfl := Option.some.inj h
    refine ⟨_, [], rfl, fun rest => ?_⟩
    simp only [head, toNat_ofNat_of_lt hc, Char.ofNat_toNat]
    rfl
  | utf8 | utf8Marked =>
    obtain rfl := Option.some.inj h
    exact Utf8.spells_encodeChar c
  | utf16 order =>
    obtain rfl := Option.some.inj h
    exact Utf16.spells_encodeChar order c

theorem scanFrom_append {head : UInt8 → List UInt8 → Head} {c : Char} {bs : List UInt8}
    (h : Spells head c bs) (pos : Nat) (read : List Char) (rest : List UInt8) :
    scanFrom head pos read (bs ++ rest) = scanFrom head (pos + bs.length) (c :: read) rest := by
  obtain ⟨b, more, rfl, hhead⟩ := h
  have hpos : pos + 1 + more.length = pos + (b :: more).length := by
    rw [List.length_cons]
    omega
  rw [List.cons_append, scanFrom, hhead, ← hpos]
  simp only [List.drop_left]

theorem encodeChars?_cons {e : Encoding} {c : Char} {cs : List Char} {bs : List UInt8}
    (h : e.encodeChars? (c :: cs) = some bs) :
    ∃ first rest, e.encodeChar? c = some first ∧ e.encodeChars? cs = some rest ∧
      bs = first ++ rest := by
  simp only [encodeChars?] at h
  split at h
  next first rest hfirst hrest => exact ⟨first, rest, hfirst, hrest, (Option.some.inj h).symm⟩
  next => cases h

/-- Reading the bytes of characters gives these characters. -/
theorem scanFrom_encodeChars? {e : Encoding} {cs : List Char} {bs : List UInt8}
    (h : e.encodeChars? cs = some bs) (pos : Nat) (read : List Char) :
    scanFrom e.head pos read bs = .ok (read.reverse ++ cs) := by
  induction cs generalizing bs pos read with
  | nil =>
    cases h
    rw [scanFrom, List.append_nil]
  | cons c cs ih =>
    obtain ⟨first, rest, hfirst, hrest, rfl⟩ := encodeChars?_cons h
    rw [scanFrom_append (spells_encodeChar? hfirst), ih hrest, List.reverse_cons, List.append_assoc]
    rfl

/-- The encoding has every character of the text. Two of the encodings have one
byte for a character, and so only so many characters. -/
def Covers (e : Encoding) (s : String) : Prop :=
  match e with
  | ascii => ∀ c ∈ s.toList, c.toNat < 0x80
  | latin1 => ∀ c ∈ s.toList, c.toNat < 0x100
  | utf8 | utf8Marked | utf16 _ => True

/-- The file holds the text in the encoding. A file that may be marked may also
do without the mark. -/
def Holds (e : Encoding) (file : List UInt8) (s : String) : Prop :=
  e.encode? s = some file ∨ e = utf8Marked ∧ utf8.encode? s = some file

theorem exists_encodeChars?_iff {e : Encoding} {cs : List Char} :
    (∃ bs, e.encodeChars? cs = some bs) ↔ ∀ c ∈ cs, ∃ bs, e.encodeChar? c = some bs := by
  induction cs with
  | nil => simp [encodeChars?]
  | cons c cs ih =>
    rw [List.forall_mem_cons, ← ih]
    constructor
    · rintro ⟨bs, h⟩
      obtain ⟨first, rest, hfirst, hrest, -⟩ := encodeChars?_cons h
      exact ⟨⟨first, hfirst⟩, rest, hrest⟩
    · rintro ⟨⟨first, hfirst⟩, rest, hrest⟩
      exact ⟨first ++ rest, by rw [encodeChars?, hfirst, hrest]⟩

theorem exists_encode?_iff {e : Encoding} {s : String} :
    (∃ file, e.encode? s = some file) ↔ e.Covers s := by
  have hchars : (∃ file, e.encode? s = some file) ↔ ∃ bs, e.encodeChars? s.toList = some bs := by
    cases e with
    | utf8Marked => simp [encode?]
    | ascii | latin1 | utf8 | utf16 => rfl
  rw [hchars, exists_encodeChars?_iff]
  cases e with
  | ascii | latin1 => simp [encodeChar?, Covers]
  | utf8 | utf8Marked | utf16 => simp [encodeChar?, Covers]

/-- The mark is no matter of single characters. -/
theorem encodeChars?_utf8Marked (cs : List Char) :
    utf8Marked.encodeChars? cs = utf8.encodeChars? cs := by
  induction cs with
  | nil => rfl
  | cons c cs ih => rw [encodeChars?, encodeChars?, ih]; rfl

/-- Only one character can stand where the mark does. -/
theorem Spells.eq_mark {c : Char} {bs rest behind : List UInt8} (h : Spells Utf8.head c bs)
    (heq : bs ++ rest = Utf8.mark ++ behind) : c = '\uFEFF' ∧ bs.length = 3 := by
  obtain ⟨b, more, rfl, hhead⟩ := h
  obtain ⟨rfl, hmore⟩ := List.cons.inj heq
  have hread : Utf8.head 0xEF (0xBB :: 0xBF :: behind) = .char '\uFEFF' 2 := rfl
  have hsame := (hhead rest).symm.trans ((congrArg (Utf8.head 0xEF) hmore).trans hread)
  obtain ⟨hc, hlength⟩ := Head.char.inj hsame
  exact ⟨hc, by rw [List.length_cons, hlength]⟩

/-- A file of UTF-8 has no mark to drop, unless the text starts with the
character that looks like one. -/
theorem dropMark_of_encodeChars? {cs : List Char} {bs : List UInt8}
    (h : utf8.encodeChars? cs = some bs) :
    Utf8.dropMark bs = bs ∨
      ∃ rest, cs = '\uFEFF' :: rest ∧ utf8.encodeChars? rest = some (Utf8.dropMark bs) := by
  cases cs with
  | nil =>
    cases h
    exact .inl rfl
  | cons c cs =>
    obtain ⟨first, tail, hfirst, htail, rfl⟩ := encodeChars?_cons h
    have hspells : Spells Utf8.head c first := spells_encodeChar? hfirst
    unfold Utf8.dropMark
    split_ifs with hshort hwhole
    · -- Such a character has three bytes, so the file is not shorter.
      rw [Bool.and_eq_true, decide_eq_true_eq, List.isPrefixOf_iff_prefix] at hshort
      obtain ⟨hlength, missing, hmark⟩ := hshort
      rw [List.append_assoc, ← List.append_nil Utf8.mark] at hmark
      obtain ⟨-, hthree⟩ := hspells.eq_mark hmark
      rw [List.length_append] at hlength
      omega
    · right
      obtain ⟨behind, hmark⟩ := List.isPrefixOf_iff_prefix.mp hwhole
      obtain ⟨hc, hthree⟩ := hspells.eq_mark hmark.symm
      exact ⟨cs, by rw [hc], by rw [htail, List.drop_left' hthree]⟩
    · exact .inl rfl

theorem decode_ok {e : Encoding} {file : List UInt8} {cs : List Char}
    (h : e.encodeChars? cs = some (e.payload file)) : e.decode file = .ok cs := by
  simp only [decode, scan, scanFrom_encodeChars? h, List.reverse_nil, List.nil_append]

/-- What is read from a file that holds a text: the text, with line feeds for
line ends, and without a mark of its own where that is taken for the file's. -/
theorem readText_of_holds {e : Encoding} {file : List UInt8} {s : String} (h : e.Holds file s) :
    ∃ cs, e.readText file = .ok (String.ofList (lineFeeds cs)) ∧
      (cs = s.toList ∨ e = utf8Marked ∧ s.toList = '\uFEFF' :: cs) := by
  have hread {cs : List Char} (hcs : e.encodeChars? cs = some (e.payload file)) :
      e.readText file = .ok (String.ofList (lineFeeds cs)) := by
    rw [readText, decode_ok hcs]
  rcases h with h | ⟨rfl, h⟩
  · refine ⟨s.toList, hread ?_, .inl rfl⟩
    cases e with
    | utf8Marked =>
      obtain ⟨bs, hbs, rfl⟩ := Option.map_eq_some_iff.mp h
      exact hbs
    | ascii | latin1 | utf8 | utf16 => exact h
  · rcases dropMark_of_encodeChars? h with hsame | ⟨rest, hs, hrest⟩
    · refine ⟨s.toList, hread ?_, .inl rfl⟩
      rw [encodeChars?_utf8Marked, payload, hsame]
      exact h
    · refine ⟨rest, hread ?_, .inr ⟨rfl, hs⟩⟩
      rw [encodeChars?_utf8Marked]
      exact hrest

/-- Neither line ends nor marks are commands. -/
theorem commands_of_holds {e : Encoding} {file : List UInt8} {s text : String}
    (h : e.Holds file s) (htext : e.readText file = .ok text) :
    (ProgramText.text text).commands = (ProgramText.text s).commands := by
  obtain ⟨cs, hread, hcs⟩ := readText_of_holds h
  obtain rfl := Except.ok.inj (htext.symm.trans hread)
  rw [ProgramText.commands, ProgramText.commands, String.toList_ofList]
  refine (ofChars_lineFeeds cs).trans ?_
  rcases hcs with rfl | ⟨-, hs⟩
  · rfl
  · rw [hs]
    rfl

end Encoding

/-- **Running a file is running its text.** An encoding writes exactly the texts
that it covers. Take a file that holds a text in an encoding, with or without
the mark of that encoding, and any name of the encoding, whatever other codecs
there are. The file is read. The text read is the one written but for its line
ends and, if there is no other mark, a mark at its front. And running the file
for any number of steps, on any input and any memory, gives what running the
text gives: the same output and program, and an end after the same steps. -/
theorem runFile_eq_runText (e : Encoding) (s : String) :
    ((∃ file, e.encode? s = some file) ↔ e.Covers s) ∧
      ∀ (file : List UInt8) (codecs : Codecs) (disk : Disk) (path name : String), e.Holds file s →
        disk (Path.plain path) = .ok file → holdsNull path = false →
        Encoding.ofName? name = some e → holdsNull name = false →
          (∃ cs, readSource codecs disk path name = .ok (String.ofList (Encoding.lineFeeds cs)) ∧
            (cs = s.toList ∨ e = .utf8Marked ∧ s.toList = '\uFEFF' :: cs) ∧
            Code.parse (.text (String.ofList (Encoding.lineFeeds cs))) = Code.parse (.text s)) ∧
          ∀ (size : MemorySize) (input : Array UInt8) (fuel : Nat),
            runFile fuel codecs disk path input ⟨size, name⟩ =
              runText fuel (.text s) input ⟨size, Options.usualEncoding⟩ := by
  refine ⟨Encoding.exists_encode?_iff,
    fun file codecs disk path name hholds hfile hpath hname hnull => ?_⟩
  obtain ⟨cs, hread, hcs⟩ := Encoding.readText_of_holds hholds
  have hsource : readSource codecs disk path name = .ok (String.ofList (Encoding.lineFeeds cs)) :=
    (readSource_ok_iff_readText hfile hname).mpr ⟨hnull, hpath, hread⟩
  have hparse :
      Code.parse (.text (String.ofList (Encoding.lineFeeds cs))) = Code.parse (.text s) := by
    rw [Code.parse, Code.parse, Encoding.commands_of_holds hholds hread]
  refine ⟨⟨cs, hsource, hcs, hparse⟩, fun size input fuel => ?_⟩
  simp only [runFile, hsource, runText, hparse]

/-- UTF-16 with a character of two units, and a file whose only mark stands at
the front of its text. -/
theorem runFile_eq_runText_two_units :
    let units : Disk := fun _ => .ok [0x2C, 0x00, 0x3D, 0xD8, 0x00, 0xDE, 0x0D, 0x00, 0x2E, 0x00]
    let marked : Disk := fun _ => .ok [0xEF, 0xBB, 0xBF, 0x2B, 0x0D, 0x0A, 0x2E]
    (readSource .empty units "p.bf" "utf-16-le" = .ok ",😀\n." ∧
      ∀ fuel, runFile fuel .empty units "p.bf" #[7] ⟨.usual, "utf-16-le"⟩ =
        runText fuel (.text ",😀\r.") #[7] .usual) ∧
      readSource .empty marked "p.bf" "utf-8-sig" = .ok "+\n." ∧
      ∀ fuel, runFile fuel .empty marked "p.bf" #[] ⟨.usual, "utf-8-sig"⟩ =
        runText fuel (.text "\uFEFF+\r\n.") #[] .usual := by
  intro units marked
  have hlittle : Encoding.ofName? "utf-16-le" = some (.utf16 .littleEndian) := by decide
  have hsig : Encoding.ofName? "utf-8-sig" = some .utf8Marked := by decide
  have hunits : readSource .empty units "p.bf" "utf-16-le" = .ok ",😀\n." :=
    (readSource_ok_iff_readText rfl hlittle).mpr ⟨by decide, by decide, by cbv⟩
  have hmarked : readSource .empty marked "p.bf" "utf-8-sig" = .ok "+\n." :=
    (readSource_ok_iff_readText rfl hsig).mpr ⟨by decide, by decide, by cbv⟩
  have hrun := (runFile_eq_runText (.utf16 .littleEndian) ",😀\r.").2 _ .empty units "p.bf"
    "utf-16-le" (.inl (by cbv)) rfl (by decide) hlittle (by decide)
  have hrun' := (runFile_eq_runText .utf8Marked "\uFEFF+\r\n.").2 _ .empty marked "p.bf"
    "utf-8-sig" (.inr ⟨rfl, by cbv⟩) rfl (by decide) hsig (by decide)
  exact ⟨⟨hunits, hrun.2 .usual #[7]⟩, hmarked, hrun'.2 .usual #[]⟩

end Brainfuck
