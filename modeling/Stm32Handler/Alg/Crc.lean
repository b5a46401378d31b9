import Stm32Handler.Lib.Bytes
import Stm32Handler.Lib.Crc

/-!
# The CRCs of the algorithm driver

`calc_crc8`, `calc_crc16` and `calc_crc32` of `drv_alg.c` are one loop with
different widths, tested bits and polynomials, and `calc_hw_crc32` leaves the
same work to the CRC unit.

Where the tested bit is the top one, the loop is the register of `Lib.Crc`:
`calc_crc8` and `calc_crc32` are remainders, and `calc_crc32`, which takes
whole words, is the bytewise CRC of the words' bytes, the highest first.
-/

namespace Stm32Handler.Alg

open Polynomial

/-- One turn of the inner loops: `test` is the bit that is looked at. -/
def crcTurnLeft {w : ℕ} (test polynomial crc : BitVec w) : BitVec w :=
  if crc &&& test ≠ 0 then (crc <<< 1) ^^^ polynomial else crc <<< 1

def crc8Polynomial : BitVec 8 := 0x07
def crc8Init : BitVec 8 := 0xFF
def crc16Polynomial : BitVec 16 := 0xA001
def crc16Init : BitVec 16 := 0xFFFF
def crc32Polynomial : BitVec 32 := 0x04C11DB7
def crc32Init : BitVec 32 := 0xFFFFFFFF

/-- `calc_crc8`; `ptr` holds the `len` bytes at the pointer. -/
def calcCrc8 (ptr : List Byte) : BitVec 8 :=
  ptr.foldl (fun crc b => (crcTurnLeft 0x80 crc8Polynomial)^[8] (crc ^^^ b)) crc8Init

/-- `calc_crc16` -/
def calcCrc16 (ptr : List Byte) : BitVec 16 :=
  ptr.foldl (fun crc b => (crcTurnLeft 0x80 crc16Polynomial)^[8] (crc ^^^ b.setWidth 16)) crc16Init

/-- `calc_crc32`; `data` holds `length` words. -/
def calcCrc32 (data : List (BitVec 32)) : BitVec 32 :=
  data.foldl (fun crc d => (crcTurnLeft 0x80000000 crc32Polynomial)^[32] (crc ^^^ d)) crc32Init

/-- The CRC unit of the chip: the data register after a reset, and what it
reads after a word has been written to it. -/
structure CrcUnit where
  reset : BitVec 32
  write : BitVec 32 → BitVec 32 → BitVec 32

/-- `calc_hw_crc32`, which is `HAL_CRC_Calculate`. -/
def calcHwCrc32 (unit : CrcUnit) (pBuffer : List (BitVec 32)) : BitVec 32 :=
  pBuffer.foldl unit.write unit.reset

/-- The unit as it is specified: it divides by the CRC-32 polynomial of
Ethernet, a word at a time. -/
structure CrcUnit.Specified (unit : CrcUnit) : Prop where
  reset_eq : unit.reset = 0xFFFFFFFF
  write_eq : ∀ dr word, wordPoly (unit.write dr word) =
    (X ^ 32 * (wordPoly dr + wordPoly word)) %ₘ generator (0x04C11DB7 : BitVec 32)

/-! ## The loops as registers -/

theorem crcTurnLeft_top {w i : ℕ} (hw : w = i + 1) (g : BitVec w) :
    crcTurnLeft (BitVec.twoPow w i) g = crcTurn g := by
  subst hw
  funext r
  have htest : r &&& BitVec.twoPow (i + 1) i ≠ 0 ↔ r.msb = true := by
    rw [BitVec.and_twoPow, BitVec.msb_eq_getLsbD_last, Nat.add_sub_cancel]
    cases r.getLsbD i <;> simp
  unfold crcTurnLeft crcTurn
  simp only [htest]

theorem calcCrc8_eq (ptr : List Byte) : calcCrc8 ptr = crcChunks crc8Polynomial crc8Init ptr := by
  have hturn : crcTurnLeft 0x80 crc8Polynomial = crcTurn crc8Polynomial :=
    crcTurnLeft_top (i := 7) rfl crc8Polynomial
  unfold calcCrc8 crcChunks
  rw [hturn]
  exact List.foldl_ext _ _ _ fun r b _ => (crcChunk_full crc8Polynomial r b).symm

theorem calcCrc32_eq (data : List (BitVec 32)) :
    calcCrc32 data = crcChunks crc32Polynomial crc32Init data := by
  have hturn : crcTurnLeft 0x80000000 crc32Polynomial = crcTurn crc32Polynomial :=
    crcTurnLeft_top (i := 31) rfl crc32Polynomial
  unfold calcCrc32 crcChunks
  rw [hturn]
  exact List.foldl_ext _ _ _ fun r d _ => (crcChunk_full crc32Polynomial r d).symm

/-- A specified unit does what the loop over a word does. -/
theorem CrcUnit.Specified.write_chunk {unit : CrcUnit} (h : unit.Specified) (dr word : BitVec 32) :
    unit.write dr word = crcChunk crc32Polynomial dr word := by
  have hword : IsCrc crc32Polynomial dr [word] (unit.write dr word) := by
    rw [isCrc_singleton]
    exact h.write_eq dr word
  exact (isCrc_iff (Nat.le_refl 32)).1 hword

theorem calcHwCrc32_eq {unit : CrcUnit} (h : unit.Specified) (pBuffer : List (BitVec 32)) :
    calcHwCrc32 unit pBuffer = calcCrc32 pBuffer := by
  rw [calcCrc32_eq, calcHwCrc32, crcChunks, h.reset_eq]
  exact List.foldl_ext _ _ _ fun dr word _ => h.write_chunk dr word

/-! ## Words as bytes -/

/-- The bytes of a word, the highest first. -/
def wordBytes (v : BitVec 32) : List Byte := [wordByte v 3, wordByte v 2, wordByte v 1, wordByte v 0]

theorem messagePoly_wordBytes (v : BitVec 32) : messagePoly (wordBytes v) = wordPoly v := by
  have hword : wordByte v 3 ++ wordByte v 2 ++ wordByte v 1 ++ wordByte v 0 = v :=
    word_wordByte v (f := fun k => wordByte v k) (i := 0) fun k _ => by rw [Nat.zero_add]
  calc messagePoly (wordBytes v)
      = wordPoly (wordByte v 3 ++ wordByte v 2 ++ wordByte v 1 ++ wordByte v 0) := by
        simp only [wordBytes, messagePoly, List.foldl_cons, List.foldl_nil, wordPoly_append]
        ring
    _ = wordPoly v := by rw [hword]

/-- CRC-32/MPEG-2, byte by byte. -/
def crc32Mpeg2 (l : List Byte) : BitVec 32 := crcChunks (0x04C11DB7 : BitVec 32) 0xFFFFFFFF l

theorem generator_crc8 : generator crc8Polynomial = X ^ 8 + X ^ 2 + X + 1 := by
  have hlow : wordPoly crc8Polynomial = 1 + X + X ^ 2 := by
    simp [wordPoly, Finset.sum_range_succ, crc8Polynomial, BitVec.getLsbD, Nat.testBit, Nat.shiftRight_eq_div_pow]
  rw [generator, hlow]
  ring

/-- **The software CRCs are the CRCs of their polynomials**, and the one over
words is the bytewise one and what the CRC unit computes. -/
theorem calc_crc_exact (unit : CrcUnit) (hunit : unit.Specified) (ptr : List Byte)
    (data : List (BitVec 32)) :
    wordPoly (calcCrc8 ptr) =
        (X ^ (8 * ptr.length) * wordPoly (0xFF : BitVec 8) + X ^ 8 * messagePoly ptr) %ₘ
          (X ^ 8 + X ^ 2 + X + 1) ∧
      IsCrc (0x04C11DB7 : BitVec 32) 0xFFFFFFFF (data.flatMap wordBytes) (calcCrc32 data) ∧
      calcCrc32 data = crc32Mpeg2 (data.flatMap wordBytes) ∧
      calcHwCrc32 unit data = calcCrc32 data := by
  have hlen : ∀ v, 8 * (wordBytes v).length = 32 := fun _ => rfl
  have hwords : IsCrc crc32Polynomial crc32Init data (calcCrc32 data) :=
    (isCrc_iff (Nat.le_refl 32)).2 (calcCrc32_eq data)
  have hbytes : IsCrc (0x04C11DB7 : BitVec 32) 0xFFFFFFFF (data.flatMap wordBytes) (calcCrc32 data) := by
    rw [isCrc_flatMap hlen messagePoly_wordBytes]
    exact hwords
  refine ⟨?_, hbytes, ?_, calcHwCrc32_eq hunit data⟩
  · rw [← generator_crc8]
    exact (isCrc_iff (Nat.le_refl 8)).2 (calcCrc8_eq ptr)
  · exact (isCrc_iff (by decide)).1 hbytes

/-- The unit as the loop over a word. -/
def wordUnit : CrcUnit where
  reset := crc32Init
  write := crcChunk crc32Polynomial

theorem wordUnit_specified : wordUnit.Specified where
  reset_eq := rfl
  write_eq dr word := by
    have hword : IsCrc crc32Polynomial dr [word] (crcChunk crc32Polynomial dr word) :=
      (isCrc_iff (Nat.le_refl 32)).2 rfl
    rw [isCrc_singleton] at hword
    exact hword

/-- The four words `BTN1_PRESS_Handler` compares the two on. -/
theorem calc_crc_exact_button :
    calcHwCrc32 wordUnit [0x1234, 0x02341515, 0x12321321, 0x23458686] =
        calcCrc32 [0x1234, 0x02341515, 0x12321321, 0x23458686] ∧
      calcCrc32 [0x1234, 0x02341515, 0x12321321, 0x23458686] = 0xDF1B1F2D := by
  have hexact := calc_crc_exact wordUnit wordUnit_specified []
    [0x1234, 0x02341515, 0x12321321, 0x23458686]
  exact ⟨hexact.2.2.2, by decide +kernel⟩

end Stm32Handler.Alg
