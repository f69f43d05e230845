/-
UTF-16 in either byte order. A character is a unit of two bytes, or two
units: a high surrogate and a low one.
-/
import Brainfuck.Encoding.Scan

namespace Brainfuck.Encoding.Utf16

/-- Which byte of a unit comes first. -/
inductive Order where
  | littleEndian
  | bigEndian
  deriving DecidableEq, Repr

namespace Order

/-- The unit that two bytes make. -/
def unit : Order → UInt8 → UInt8 → Nat
  | littleEndian, b, b' => b.toNat + 256 * b'.toNat
  | bigEndian, b, b' => 256 * b.toNat + b'.toNat

/-- The bytes of a unit. -/
def bytes : Order → Nat → List UInt8
  | littleEndian, n => [UInt8.ofNat (n % 256), UInt8.ofNat (n / 256)]
  | bigEndian, n => [UInt8.ofNat (n / 256), UInt8.ofNat (n % 256)]

end Order

/-- Whether a unit is the first half of a character. -/
def isHigh (n : Nat) : Bool := 0xD800 ≤ n && n < 0xDC00

/-- Whether a unit is the second half of a character. -/
def isLow (n : Nat) : Bool := 0xDC00 ≤ n && n < 0xE000

/-- The character at the front. -/
def head (order : Order) (b : UInt8) : List UInt8 → Head
  | [] => .bad 0 "truncated data"
  | b' :: bs =>
    let n := order.unit b b'
    if isHigh n then
      match bs with
      | c :: c' :: _ =>
        let m := order.unit c c'
        if isLow m then .char (Char.ofNat (0x10000 + 0x400 * (n - 0xD800) + (m - 0xDC00))) 3
        else .bad 1 "illegal UTF-16 surrogate"
      | [_] => .bad 2 "unexpected end of data"
      | [] => .bad 1 "unexpected end of data"
    else if isLow n then .bad 1 "illegal encoding"
    else .char (Char.ofNat n) 1

/-- The bytes of a character. -/
def encodeChar (order : Order) (c : Char) : List UInt8 :=
  let n := c.toNat
  if n < 0x10000 then order.bytes n
  else
    order.bytes (0xD800 + (n - 0x10000) / 0x400) ++ order.bytes (0xDC00 + (n - 0x10000) % 0x400)

end Brainfuck.Encoding.Utf16
