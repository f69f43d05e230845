/-
A number that is written in decimal is read back as it was, if it has no more
digits than a number may be written with (`Numeral.readInt?_ofInt`). Written
numbers are the plain case of what is read: ASCII digits and at most a sign,
nothing around them and nothing between them.
-/
import Mathlib.Algebra.Group.Nat.Defs
import Brainfuck.Text.Numeral

namespace Brainfuck.Numeral

theorem digit?_of_isDigit {c : Char} (h : c.isDigit = true) : digit? c = some (c.toNat - 48) := by
  obtain ⟨hzero, hnine⟩ : 48 ≤ c.toNat ∧ c.toNat ≤ 57 := Char.isDigit_iff_toNat.mp h
  have hzeros : zeros = 48 :: zeros.tail := rfl
  have hfirst : (decide (48 ≤ c.toNat) && decide (c.toNat < 48 + 10)) = true := by
    simp
    omega
  unfold digit?
  rw [hzeros]
  simp only [List.find?_cons, hfirst, Option.map_some]

theorem isBlank_of_isDigit {c : Char} (h : c.isDigit = true) : isBlank c = false := by
  obtain ⟨hzero, hnine⟩ : 48 ≤ c.toNat ∧ c.toNat ≤ 57 := Char.isDigit_iff_toNat.mp h
  simp [isBlank]
  omega

theorem digits?_of_isDigit {cs : List Char} (hne : cs ≠ []) (h : ∀ c ∈ cs, c.isDigit = true) :
    digits? cs = some (cs.map fun c => c.toNat - 48) := by
  induction cs with
  | nil => exact absurd rfl hne
  | cons c cs ih =>
    have hc := digit?_of_isDigit (h c List.mem_cons_self)
    cases cs with
    | nil => simp [digits?, hc]
    | cons d ds =>
      have hds := ih (by simp) fun x hx => h x (List.mem_cons_of_mem c hx)
      -- The underscore, which may stand between two digits, is none itself.
      have hd : d ≠ '_' := by
        rintro rfl
        have := h '_' (by simp)
        simp at this
      simp [digits?, hc, hds, hd]

theorem trim_eq_self {cs : List Char} (h : ∀ c ∈ cs, isBlank c = false) : trim cs = cs := by
  have drops {ds : List Char} (hds : ∀ c ∈ ds, isBlank c = false) : ds.dropWhile isBlank = ds := by
    cases ds with
    | nil => rfl
    | cons c ds => exact List.dropWhile_cons_of_neg (by simp [hds c])
  unfold trim
  rw [drops h, drops (by simpa using h), List.reverse_reverse]

/-! ## What is written -/

theorem toList_ofNat (n : Nat) : (ofNat n).toList = Nat.toDigits 10 n :=
  String.toList_ofList

theorem toList_ofInt_negSucc (n : Nat) :
    (ofInt (.negSucc n)).toList = '-' :: (ofNat (n + 1)).toList := by
  simp [ofInt]

theorem isDigit_ofNat {n : Nat} {c : Char} (h : c ∈ (ofNat n).toList) : c.isDigit = true := by
  rw [toList_ofNat] at h
  exact Nat.isDigit_of_mem_toDigits (by decide) (by decide) h

theorem ofNat_ne_nil (n : Nat) : (ofNat n).toList ≠ [] := by
  rw [toList_ofNat]
  exact Nat.toDigits_ne_nil

theorem readNat?_ofNat (n : Nat) :
    readNat? (ofNat n).toList = if n < 10 ^ maxDigits then some n else none := by
  have hvalue : valueOf ((ofNat n).toList.map fun c => c.toNat - 48) = n := by
    rw [toList_ofNat, valueOf, List.foldl_map]
    exact Nat.ofDigitChars_ten_toDigits
  have hlength : (ofNat n).toList.length ≤ maxDigits ↔ n < 10 ^ maxDigits := by
    rw [toList_ofNat]
    exact Nat.length_toDigits_le_iff (by decide) (by decide)
  simp only [readNat?, digits?_of_isDigit (ofNat_ne_nil n) fun c => isDigit_ofNat, List.length_map,
    hlength, hvalue]

/-- A written number is read back unless it has too many digits. -/
theorem readInt?_ofInt (n : Int) :
    readInt? (ofInt n).toList = if n.natAbs < 10 ^ maxDigits then some n else none := by
  have hblank {m : Nat} {c : Char} (hc : c ∈ (ofNat m).toList) : isBlank c = false :=
    isBlank_of_isDigit (isDigit_ofNat hc)
  cases n with
  | ofNat m =>
    have hread := readNat?_ofNat m
    have hdigit := @isDigit_ofNat m
    unfold readInt?
    rw [ofInt, trim_eq_self fun c => hblank]
    split
    next ds hds => rw [hds] at hdigit; simpa using hdigit List.mem_cons_self
    next ds hds => rw [hds] at hdigit; simpa using hdigit List.mem_cons_self
    next =>
      rw [hread, Int.natAbs_ofNat']
      by_cases hm : m < 10 ^ maxDigits <;> simp [hm]
  | negSucc m =>
    have hread := readNat?_ofNat (m + 1)
    have htrim : trim (ofInt (.negSucc m)).toList = '-' :: (ofNat (m + 1)).toList := by
      rw [toList_ofInt_negSucc]
      refine trim_eq_self fun c hc => ?_
      rcases List.mem_cons.mp hc with rfl | hc
      · decide
      · exact hblank hc
    unfold readInt?
    rw [htrim]
    simp only [hread, Int.natAbs_negSucc]
    by_cases hm : m + 1 < 10 ^ maxDigits <;> simp [hm, Int.negSucc_eq]

end Brainfuck.Numeral
