import Mathlib

/-! # CRC-32C

The Castagnoli checksum, bit by bit: reflected polynomial, initial value and final
complement of all ones. It is executable, so that concrete byte strings can be
checked against it. -/
namespace PowerFS.Lib.Crc32c

def polynomial : UInt32 := 0x82F63B78

def shiftBit (crc : UInt32) : UInt32 :=
  if crc &&& 1 = 1 then (crc >>> 1) ^^^ polynomial else crc >>> 1

def feedByte (crc : UInt32) (b : UInt8) : UInt32 :=
  shiftBit (shiftBit (shiftBit (shiftBit (shiftBit (shiftBit (shiftBit (shiftBit
    (crc ^^^ b.toUInt32))))))))

def crc32c (bs : List UInt8) : UInt32 := bs.foldl feedByte 0xFFFFFFFF ^^^ 0xFFFFFFFF

/-- The check value of the algorithm, on the ASCII digits "123456789". -/
example : crc32c [0x31, 0x32, 0x33, 0x34, 0x35, 0x36, 0x37, 0x38, 0x39] = 0xE3069283 := by
  decide +kernel

end PowerFS.Lib.Crc32c
