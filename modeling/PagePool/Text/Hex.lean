/-!
Bytes as lower-case hexadecimal digits, two for each byte, the high half first.
-/

namespace PagePool

abbrev Bytes := List UInt8

end PagePool

namespace PagePool.Text.Hex

def digit (value : Nat) : Char :=
  if value < 10 then Char.ofNat ('0'.toNat + value) else Char.ofNat ('a'.toNat + (value - 10))

def digits (byte : UInt8) : List Char :=
  [digit (byte.toNat / 16), digit (byte.toNat % 16)]

def encode (bytes : Bytes) : String :=
  String.ofList (bytes.flatMap digits)

def value? (c : Char) : Option Nat :=
  if '0' ≤ c ∧ c ≤ '9' then some (c.toNat - '0'.toNat)
  else if 'a' ≤ c ∧ c ≤ 'f' then some (c.toNat - 'a'.toNat + 10)
  else none

def decodeDigits : List Char → Option Bytes
  | [] => some []
  | high :: low :: rest => do
      let high ← value? high
      let low ← value? low
      let rest ← decodeDigits rest
      return UInt8.ofNat (16 * high + low) :: rest
  | [_] => none

def decode (text : String) : Option Bytes :=
  decodeDigits text.toList

end PagePool.Text.Hex
