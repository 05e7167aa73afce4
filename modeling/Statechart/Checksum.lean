/-!
# CRC-32C

The cyclic redundancy check with the Castagnoli polynomial, bits taken from the low end, register
started and ended inverted.
-/

namespace Statechart.Checksum

/-- The reversed Castagnoli polynomial. -/
def polynomial : UInt32 := 0x82F63B78

/-- One shift of the register. -/
def shift (register : UInt32) : UInt32 :=
  if register &&& 1 = 1 then (register >>> 1) ^^^ polynomial else register >>> 1

/-- Takes one byte into the register. -/
def step (register : UInt32) (byte : UInt8) : UInt32 :=
  Nat.repeat shift 8 (register ^^^ byte.toUInt32)

def ofBytes (bytes : List UInt8) : UInt32 :=
  bytes.foldl step 0xFFFFFFFF ^^^ 0xFFFFFFFF

/-- Eight lower-case hexadecimal digits. -/
def hexText (n : UInt32) : String :=
  let digits := Nat.toDigits 16 n.toNat
  String.ofList (List.replicate (8 - digits.length) '0' ++ digits)

/-- The checksum of a text's UTF-8 bytes. -/
def ofString (s : String) : String := hexText (ofBytes s.toUTF8.toList)

end Statechart.Checksum
