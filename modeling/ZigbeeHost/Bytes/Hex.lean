import ZigbeeHost.Bytes
/-!
# Hexadecimal text

Numbers are written with at least a given count of digits, byte strings with two digits
a byte and nothing between them.
-/

namespace ZigbeeHost

/-- The hexadecimal digits of `n` in lower case, with leading zeros up to `width`. -/
def hex (width n : Nat) : String :=
  let digits := Nat.toDigits 16 n
  String.ofList (List.replicate (width - digits.length) '0' ++ digits)

/-- The hexadecimal digits of `n` in upper case, with leading zeros up to `width`. -/
def upperHex (width n : Nat) : String :=
  (hex width n).map Char.toUpper

/-- Two lower-case digits for each byte. -/
def Bytes.toHex (bytes : Bytes) : String :=
  String.join (bytes.map fun b => hex 2 b.toNat)

/-- The value of a hexadecimal digit of either case. -/
def hexDigit? (c : Char) : Option Nat :=
  if '0' ≤ c ∧ c ≤ '9' then some (c.toNat - 48)
  else if 'a' ≤ c ∧ c ≤ 'f' then some (c.toNat - 87)
  else if 'A' ≤ c ∧ c ≤ 'F' then some (c.toNat - 55)
  else none

/-- The bytes written as pairs of hexadecimal digits; `none` unless `text` is that. -/
def Bytes.ofHexChars? : (text : List Char) → Option Bytes
  | [] => some []
  | [_] => none
  | a :: b :: rest => do
    let hi ← hexDigit? a
    let lo ← hexDigit? b
    let bytes ← Bytes.ofHexChars? rest
    return UInt8.ofNat (16 * hi + lo) :: bytes

end ZigbeeHost
