import Stm32Handler.Lib.Bytes

/-!
# Bytes on a serial line, most significant bit first

`msbBits` takes a byte apart in the order of the line. `shiftIn` is the shift
register of a receiver and `bitsToByte` what eight shifts leave in it.
-/

namespace Stm32Handler

/-- The bits of a byte in the order they are sent. -/
def msbBits (b : Byte) : List Bool :=
  [b.getLsbD 7, b.getLsbD 6, b.getLsbD 5, b.getLsbD 4, b.getLsbD 3, b.getLsbD 2, b.getLsbD 1,
    b.getLsbD 0]

/-- The register moves up and takes the bit in. -/
def shiftIn (r : Byte) (bit : Bool) : Byte := r <<< 1 ||| (BitVec.ofBool bit).zeroExtend 8

def bitsToByte (bits : List Bool) : Byte := bits.foldl shiftIn 0

@[simp] theorem msbBits_length (b : Byte) : (msbBits b).length = 8 := rfl

/-- Eight shifts bring the byte back. -/
theorem bitsToByte_msbBits (b : Byte) : bitsToByte (msbBits b) = b := by
  revert b
  decide +kernel

/-- The bits a sender puts out that tests the top bit and shifts left. -/
def topBits : ℕ → Byte → List Bool
  | 0, _ => []
  | n + 1, b => b.getLsbD 7 :: topBits n (b <<< 1)

theorem topBits_eight (b : Byte) : topBits 8 b = msbBits b := by
  revert b
  decide +kernel

theorem and_top_ne_zero (b : Byte) : b &&& 0x80 ≠ 0 ↔ b.getLsbD 7 = true := by
  revert b
  decide +kernel

end Stm32Handler
