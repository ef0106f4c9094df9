/-
A cyclic redundancy check computed bit by bit, most significant bit first,
with no final xor.
-/
import Mathlib.Data.BitVec

namespace EspOta.Lib

variable {w : Nat}

/-- One bit of data into the register `c`. -/
def crcBit (poly c : BitVec w) (b : Bool) : BitVec w :=
  if c.msb ^^ b then c <<< 1 ^^^ poly else c <<< 1

/-- The bits of a byte, most significant first. -/
def bitsOf (b : UInt8) : List Bool := (List.range 8).map fun i => b.toNat.testBit (7 - i)

/-- The register after the bytes, from `init`. -/
def crc (poly init : BitVec w) (bs : List UInt8) : BitVec w := (bs.flatMap bitsOf).foldl (crcBit poly) init

-- The published check value of this variant, over the digits 1 to 9.
example : crc 0x1021#16 0xFFFF#16 ((List.range' 0x31 9).map UInt8.ofNat) = 0x29B1#16 := by decide +kernel

end EspOta.Lib
