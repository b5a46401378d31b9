import Stm32Handler.Alg.Crc
import Stm32Handler.Flash.CrcXor

/-!
# `calc_crc16` and CRC-16/MODBUS

The polynomial `0xA001` of `calc_crc16` is the one of CRC-16/MODBUS, mirrored for
a register that shifts to the right; the loop shifts to the left and tests bit
7. Its value depends on the XOR of the bytes only (`Flash.CrcXor`), so it is the
CRC of no bytes at all and of the messages that happen to have that remainder
(`calcCrc16_modbus_iff`). None of these has one or two bytes: there the two
checksums always differ in one combination of their bits (`parity`).
-/

namespace Stm32Handler.Alg

open Polynomial

/-- `c` is the CRC-16/MODBUS of the bytes: the remainder of the message, its bits
taken the lowest first, from `0xFFFF`. -/
def IsModbus (l : List Byte) (c : BitVec 16) : Prop :=
  wordPoly c.reverse = (X ^ (8 * l.length) * wordPoly (0xFFFF : BitVec 16) +
    X ^ 16 * messagePoly (l.map BitVec.reverse)) %ₘ (X ^ 16 + X ^ 15 + X ^ 2 + 1)

/-- The register that computes it. -/
def crc16Modbus (l : List Byte) : BitVec 16 := crcChunksRight 0xA001 0xFFFF l

/-- The bytes as a polynomial, the lowest bits first and the first 16 bits
inverted. -/
noncomputable def modbusFrame (l : List Byte) : (ZMod 2)[X] :=
  framePoly (0xFFFF : BitVec 16) (l.map BitVec.reverse)

theorem generator_modbus : generator (0xA001 : BitVec 16).reverse = X ^ 16 + X ^ 15 + X ^ 2 + 1 := by
  have hrev : (0xA001 : BitVec 16).reverse = 0x8005 := by decide
  have hlow : wordPoly (0x8005 : BitVec 16) = 1 + X ^ 2 + X ^ 15 := by
    simp [wordPoly, Finset.sum_range_succ, BitVec.getLsbD, Nat.testBit, Nat.shiftRight_eq_div_pow]
  rw [hrev, generator, hlow]
  ring

theorem isModbus_iff_isCrc {l : List Byte} {c : BitVec 16} : IsModbus l c ↔
    IsCrc (0xA001 : BitVec 16).reverse (0xFFFF : BitVec 16) (l.map BitVec.reverse) c.reverse := by
  rw [IsModbus, IsCrc, generator_modbus, List.length_map]

theorem isModbus_iff {l : List Byte} {c : BitVec 16} : IsModbus l c ↔ c = crc16Modbus l := by
  have hinit : (0xFFFF : BitVec 16) = (0xFFFF : BitVec 16).reverse := by decide
  rw [isModbus_iff_isCrc, hinit]
  exact isCrc_reverse_iff (by decide)

/-- The bytes with two more behind them: the CRC is right iff the frame is a
multiple of the generator. -/
theorem isModbus_iff_dvd {l : List Byte} {low high : Byte} :
    IsModbus l (high ++ low) ↔ X ^ 16 + X ^ 15 + X ^ 2 + 1 ∣ modbusFrame (l ++ [low, high]) := by
  have hrev : (high ++ low).reverse = low.reverse ++ high.reverse := BitVec.reverse_append
  rw [isModbus_iff_isCrc, hrev, isCrc_iff_dvd_framePoly (k := 8), generator_modbus, modbusFrame,
    List.map_append]
  rfl

/-! ## The XOR of the bytes -/

/-- The complement of the XOR of the bytes, as the loop has it in its low byte. -/
def xorByte (l : List Byte) : Byte := l.foldl (· ^^^ ·) 0xFF

/-- The high byte that comes with the low byte `y`. -/
def highByte (y : Byte) : Byte := y ^^^ (y <<< 5) ^^^ (y <<< 7)

theorem crcSpread_eq (y : Byte) : Flash.crcSpread y = highByte y ++ y := by
  revert y
  decide +kernel

theorem calcCrc16_concat (l : List Byte) (b : Byte) :
    calcCrc16 (l ++ [b]) = Flash.crcByte (calcCrc16 l) b := by
  unfold calcCrc16
  rw [List.foldl_append]
  rfl

theorem xorByte_concat (l : List Byte) (b : Byte) : xorByte (l ++ [b]) = xorByte l ^^^ b := by
  unfold xorByte
  rw [List.foldl_append]
  rfl

theorem calcCrc16_low (l : List Byte) : (calcCrc16 l).setWidth 8 = xorByte l := by
  induction l using List.reverseRecOn with
  | nil => decide
  | append_singleton l b ih =>
    rw [calcCrc16_concat, Flash.crcByte_eq, Flash.crcSpread_low, ih, xorByte_concat]

/-- **The loop in closed form.** -/
theorem calcCrc16_eq {l : List Byte} (hne : l ≠ []) :
    calcCrc16 l = highByte (xorByte l) ++ xorByte l := by
  obtain ⟨l', b, rfl⟩ := (List.eq_nil_or_concat' l).resolve_left hne
  rw [calcCrc16_concat, Flash.crcByte_eq, calcCrc16_low, ← xorByte_concat, crcSpread_eq]

/-- The copy in the flash driver. -/
theorem flashCalcCrc16_eq (l : List Byte) :
    Flash.flashCalcCrc16 (fun i => l.getD i 0) l.length = calcCrc16 l := by
  induction l using List.reverseRecOn with
  | nil => rfl
  | append_singleton l b ih =>
    have hbefore : Flash.flashCalcCrc16 (fun i => (l ++ [b]).getD i 0) l.length = calcCrc16 l := by
      rw [← ih]
      apply Flash.crc_congr
      intro i hi
      exact List.getD_append _ _ _ _ hi
    rw [List.length_append, List.length_singleton, Flash.flashCalcCrc16_succ, hbefore,
      calcCrc16_concat, List.getD_append_right _ _ _ _ (Nat.le_refl _), Nat.sub_self]
    rfl

/-- From the first byte on it is a coincidence: the bytes, their XOR and the
high byte made of it have to be a multiple of the generator. -/
theorem calcCrc16_modbus_iff (ptr : List Byte) : IsModbus ptr (calcCrc16 ptr) ↔
    ptr = [] ∨ X ^ 16 + X ^ 15 + X ^ 2 + 1 ∣ modbusFrame (ptr ++ [xorByte ptr, highByte (xorByte ptr)]) := by
  by_cases hne : ptr = []
  · subst hne
    exact iff_of_true (isModbus_iff.2 rfl) (.inl rfl)
  · rw [calcCrc16_eq hne, isModbus_iff_dvd]
    exact (or_iff_right hne).symm

/-! ## Short messages -/

/-- The one combination of the 16 bits in which the CRC and the loop differ for
all messages of two bytes. -/
def parity (crc : BitVec 16) : Bool :=
  (List.range 16).foldl (fun p i => p ^^ (crc &&& 0xEB94).getLsbD i) false

/-- Eight turns of the register that CRC-16/MODBUS needs. -/
def modbusTurns (r : BitVec 16) : BitVec 16 := (crcTurnRight 0xA001)^[8] r

theorem first_parity (a : Byte) :
    parity (modbusTurns (modbusTurns (0xFFFF ^^^ a.setWidth 16)) ^^^ Flash.crcSpread (0xFF ^^^ a)) = true := by
  revert a
  decide +kernel

theorem second_parity (b : Byte) : parity (modbusTurns (b.setWidth 16) ^^^ Flash.crcSpread b) = false := by
  revert b
  decide +kernel

theorem calcCrc16_one (a : Byte) : calcCrc16 [a] ≠ crc16Modbus [a] := by
  revert a
  decide +kernel

/-- Both checksums are linear in the second byte, and differ in the first. -/
theorem calcCrc16_two (a b : Byte) : calcCrc16 [a, b] ≠ crc16Modbus [a, b] := by
  intro h
  have hcode : calcCrc16 [a, b] = Flash.crcSpread (0xFF ^^^ a) ^^^ Flash.crcSpread b := by
    rw [calcCrc16_eq (List.cons_ne_nil _ _), ← crcSpread_eq]
    show Flash.crcSpread (0xFF ^^^ a ^^^ b) = _
    unfold Flash.crcSpread
    rw [BitVec.setWidth_xor, Flash.crcTurns_xor]
  have hmodbus : crc16Modbus [a, b] =
      modbusTurns (modbusTurns (0xFFFF ^^^ a.setWidth 16)) ^^^ modbusTurns (b.setWidth 16) :=
    crcTurnsRight_xor 0xA001 8 _ _
  have hsplit : modbusTurns (modbusTurns (0xFFFF ^^^ a.setWidth 16)) ^^^ Flash.crcSpread (0xFF ^^^ a) =
      modbusTurns (b.setWidth 16) ^^^ Flash.crcSpread b := by
    rw [hcode, hmodbus] at h
    generalize modbusTurns (modbusTurns (0xFFFF ^^^ a.setWidth 16)) = u at h ⊢
    generalize modbusTurns (b.setWidth 16) = v at h ⊢
    calc u ^^^ Flash.crcSpread (0xFF ^^^ a)
        = u ^^^ (Flash.crcSpread (0xFF ^^^ a) ^^^ Flash.crcSpread b) ^^^ Flash.crcSpread b := by
          simp [BitVec.xor_assoc]
      _ = u ^^^ (u ^^^ v) ^^^ Flash.crcSpread b := by rw [h]
      _ = v ^^^ Flash.crcSpread b := by
          rw [← BitVec.xor_assoc, BitVec.xor_self, BitVec.zero_xor]
  have hparity := congrArg parity hsplit
  rw [first_parity, second_parity] at hparity
  cases hparity

/-- **`calc_crc16` is CRC-16/MODBUS of no bytes at all**, and of no message of
one or two bytes. -/
theorem calc_crc16_modbus_empty (ptr : List Byte) :
    (ptr = [] → IsModbus ptr (calcCrc16 ptr) ∧
      IsModbus ptr (Flash.flashCalcCrc16 (fun i => ptr.getD i 0) ptr.length)) ∧
    (ptr.length = 1 ∨ ptr.length = 2 → ¬ (IsModbus ptr (calcCrc16 ptr) ∧
      IsModbus ptr (Flash.flashCalcCrc16 (fun i => ptr.getD i 0) ptr.length))) := by
  rw [flashCalcCrc16_eq, and_self_iff]
  constructor
  · rintro rfl
    exact isModbus_iff.2 rfl
  · intro hlen hmodbus
    rw [isModbus_iff] at hmodbus
    match ptr, hlen with
    | [a], _ => exact calcCrc16_one a hmodbus
    | [a, b], _ => exact calcCrc16_two a b hmodbus

/-- One byte. -/
theorem calc_crc16_not_modbus : ¬ ∀ ptr : List Byte, ptr.length ≤ 65535 →
    IsModbus ptr (calcCrc16 ptr) ∧
      IsModbus ptr (Flash.flashCalcCrc16 (fun i => ptr.getD i 0) ptr.length) := by
  intro h
  have hcrc := isModbus_iff.1 (h [0] (by decide)).1
  exact absurd hcrc (by decide +kernel)

end Stm32Handler.Alg
