/-
UTF-8. A character takes one to four bytes: a first byte that tells how many
follow, and bytes from 80 to BF. Where a shorter form exists, for surrogates,
and beyond the last code point, the range of the second byte is narrower, so
that every character has exactly one form.
-/
import Brainfuck.Encoding.Scan

namespace Brainfuck.Encoding.Utf8

/-- What a first byte announces: the bits of the character that it holds, the
range of the second byte, and the number of bytes after the first. -/
structure Lead where
  bits : Nat
  low : Nat
  high : Nat
  more : Nat
  deriving DecidableEq, Repr

/-- What a byte announces as the first of several. -/
def lead? (b : Nat) : Option Lead :=
  if 0xC2 ≤ b ∧ b ≤ 0xDF then some ⟨b - 0xC0, 0x80, 0xBF, 1⟩
  else if b = 0xE0 then some ⟨0, 0xA0, 0xBF, 2⟩
  else if b = 0xED then some ⟨0xD, 0x80, 0x9F, 2⟩
  else if 0xE1 ≤ b ∧ b ≤ 0xEF then some ⟨b - 0xE0, 0x80, 0xBF, 2⟩
  else if b = 0xF0 then some ⟨0, 0x90, 0xBF, 3⟩
  else if 0xF1 ≤ b ∧ b ≤ 0xF3 then some ⟨b - 0xF0, 0x80, 0xBF, 3⟩
  else if b = 0xF4 then some ⟨4, 0x80, 0x8F, 3⟩
  else none

/-- Reads the bytes after the first. `taken` of them have been read already,
which together with the first make up `bits`; `missing` are still to come,
the next one between `low` and `high`. -/
def follow (bits low high taken : Nat) : Nat → List UInt8 → Head
  | 0, _ => .char (Char.ofNat bits) taken
  | _ + 1, [] => .bad taken "unexpected end of data"
  | missing + 1, b :: bs =>
    if low ≤ b.toNat ∧ b.toNat ≤ high then
      follow (64 * bits + (b.toNat - 0x80)) 0x80 0xBF (taken + 1) missing bs
    else .bad taken "invalid continuation byte"

/-- The character at the front. -/
def head (b : UInt8) (bs : List UInt8) : Head :=
  if b.toNat < 0x80 then .char (Char.ofNat b.toNat) 0
  else
    match lead? b.toNat with
    | some l => follow l.bits l.low l.high 0 l.more bs
    | none => .bad 0 "invalid start byte"

/-- The bytes that mark a file as UTF-8. -/
def mark : List UInt8 := [0xEF, 0xBB, 0xBF]

/-- The bytes of a file without the mark at its front. A file that ends
within the mark has no bytes left. -/
def dropMark (bs : List UInt8) : List UInt8 :=
  if bs.length < 3 && bs.isPrefixOf mark then []
  else if mark.isPrefixOf bs then bs.drop 3
  else bs

/-- The bytes of a character. -/
def encodeChar (c : Char) : List UInt8 :=
  let n := c.toNat
  if n < 0x80 then [UInt8.ofNat n]
  else if n < 0x800 then [UInt8.ofNat (0xC0 + n / 64), UInt8.ofNat (0x80 + n % 64)]
  else if n < 0x10000 then
    [UInt8.ofNat (0xE0 + n / 4096), UInt8.ofNat (0x80 + n / 64 % 64), UInt8.ofNat (0x80 + n % 64)]
  else
    [UInt8.ofNat (0xF0 + n / 262144), UInt8.ofNat (0x80 + n / 4096 % 64),
      UInt8.ofNat (0x80 + n / 64 % 64), UInt8.ofNat (0x80 + n % 64)]

end Brainfuck.Encoding.Utf8
