import Mathlib.Data.UInt

/-!
# CRC-32C

The cyclic redundancy check with the Castagnoli polynomial, bit by bit: the register starts with all
bits set, takes in a byte at its low end, and is complemented at the end.

* `crc32cAppend_append`: a sum can be continued over further bytes.
-/

namespace RustQueue.Lib

/-- The register after one bit, the polynomial in reflected order. -/
def crc32cBit (register : UInt32) : UInt32 :=
  if register &&& 1 = 1 then (register >>> 1) ^^^ 0x82F63B78 else register >>> 1

def crc32cByte (register : UInt32) (byte : UInt8) : UInt32 :=
  crc32cBit^[8] (register ^^^ byte.toUInt32)

/-- The sum of some bytes, continued over `data`. -/
def crc32cAppend (sum : UInt32) (data : List UInt8) : UInt32 :=
  ~~~data.foldl crc32cByte (~~~sum)

def crc32cSum (data : List UInt8) : UInt32 := crc32cAppend 0 data

theorem crc32cAppend_append (sum : UInt32) (a b : List UInt8) :
    crc32cAppend (crc32cAppend sum a) b = crc32cAppend sum (a ++ b) := by
  -- the two complements in the middle cancel
  unfold crc32cAppend
  rw [UInt32.not_not, List.foldl_append]

/-- The check value of the algorithm, over the digits from 1 to 9. -/
example : crc32cSum [0x31, 0x32, 0x33, 0x34, 0x35, 0x36, 0x37, 0x38, 0x39] = 0xE3069283 := by
  decide +kernel

end RustQueue.Lib
