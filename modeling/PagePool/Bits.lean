import PagePool.Text.Hex

/-!
Bit strings in bytes: the most significant bit of a byte comes first.
-/

namespace PagePool

def byteWidth : Nat := 8

def byteBits (byte : UInt8) : List Bool :=
  (List.range byteWidth).map fun i => byte.toNat.testBit (7 - i)

/-- A byte with one of its bits set or cleared. -/
def setByteBit (i : Nat) (value : Bool) (byte : UInt8) : UInt8 :=
  let mask := UInt8.ofNat (1 <<< (7 - i))
  if value then byte ||| mask else byte &&& ~~~mask

namespace Bytes

def bits (bytes : Bytes) : List Bool :=
  bytes.flatMap byteBits

def setBit (bytes : Bytes) (i : Nat) (value : Bool) : Bytes :=
  bytes.modify (i / byteWidth) (setByteBit (i % byteWidth) value)

end Bytes

end PagePool
