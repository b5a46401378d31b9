import Stm32Handler.Flash.Block

/-!
# The CRC of the driver is an XOR

`flash_calc_crc16` shifts to the left and tests bit 7. Eight such turns push the
high byte out and bring the low byte round to where it was, so after every byte
the CRC is a function of the low byte alone, and the low byte is the XOR of the
bytes so far (`flashCalcCrc16_eq`). Two messages have the same CRC exactly when
their bytes have the same XOR (`flashCalcCrc16_inj`).
-/

namespace Stm32Handler.Flash

/-! ## One byte -/

theorem and_bit7_ne_zero (x : BitVec 16) : x &&& 0x80 ≠ 0 ↔ x.getLsbD 7 = true := by
  have hand : x.toNat &&& 128 = (x.toNat.testBit 7).toNat * 128 := Nat.and_two_pow x.toNat 7
  rw [ne_eq, ← BitVec.toNat_inj, BitVec.toNat_and]
  show ¬ x.toNat &&& 128 = 0 ↔ x.toNat.testBit 7 = true
  rw [hand]
  cases x.toNat.testBit 7 <;> simp

/-- The feedback depends on bit 7 only. -/
theorem crcBit_eq (x : BitVec 16) : crcBit x = (x <<< 1) ^^^ if x.getLsbD 7 then 0xA001 else 0 := by
  unfold crcBit
  simp only [and_bit7_ne_zero]
  split
  · rfl
  · exact BitVec.xor_zero.symm

theorem crcBit_xor (x y : BitVec 16) : crcBit (x ^^^ y) = crcBit x ^^^ crcBit y := by
  have hfeed : ∀ a b : Bool, (if (a ^^ b) = true then (0xA001 : BitVec 16) else 0) =
      (if a then 0xA001 else 0) ^^^ if b then 0xA001 else 0 := by decide
  rw [crcBit_eq, crcBit_eq, crcBit_eq, BitVec.shiftLeft_xor_distrib, BitVec.getLsbD_xor, hfeed]
  ac_rfl

theorem crcTurns_xor (n : ℕ) (x y : BitVec 16) :
    crcBit^[n] (x ^^^ y) = crcBit^[n] x ^^^ crcBit^[n] y := by
  induction n generalizing x y with
  | zero => rfl
  | succ n ih => rw [Function.iterate_succ_apply, crcBit_xor, ih]; rfl

/-- The CRC after a byte, by its low byte. -/
def crcSpread (low : Byte) : BitVec 16 := crcBit^[8] (low.setWidth 16)

/-- Eight turns push the high byte out. -/
theorem crcTurns_high (x : BitVec 8) : crcBit^[8] (x.setWidth 16 <<< 8) = 0 := by
  revert x
  decide +kernel

/-- The low byte has come round. -/
theorem crcSpread_low (low : Byte) : (crcSpread low).setWidth 8 = low := by
  revert low
  decide +kernel

theorem crcSpread_inj {a b : Byte} : crcSpread a = crcSpread b ↔ a = b := by
  constructor
  · intro h
    rw [← crcSpread_low a, h, crcSpread_low]
  · exact congrArg crcSpread

/-- **After a byte only the low byte counts.** -/
theorem crcByte_eq (crc : BitVec 16) (b : Byte) : crcByte crc b = crcSpread (crc.setWidth 8 ^^^ b) := by
  have hsplit : crc ^^^ b.setWidth 16 =
      ((crc >>> 8).setWidth 8).setWidth 16 <<< 8 ^^^ (crc.setWidth 8 ^^^ b).setWidth 16 := by
    refine BitVec.eq_of_getLsbD_eq fun i hi => ?_
    simp only [BitVec.getLsbD_xor, BitVec.getLsbD_setWidth, BitVec.getLsbD_shiftLeft,
      BitVec.getLsbD_ushiftRight]
    by_cases hlow : i < 8
    · simp [hlow, hi]
    · have hb : b.getLsbD i = false := BitVec.getLsbD_of_ge b i (by omega)
      simp [hlow, hi, hb, show i - 8 < 8 by omega, show 8 + (i - 8) = i by omega,
        show i - 8 < 16 by omega]
  unfold crcByte
  rw [hsplit, crcTurns_xor, crcTurns_high]
  exact BitVec.zero_xor

/-! ## A message -/

/-- The XOR of the first `n` bytes and `0xFF`. -/
def xorBytes (f : Buf) (n : ℕ) : Byte := (List.range n).foldl (fun x i => x ^^^ f i) 0xFF

@[simp] theorem xorBytes_zero (f : Buf) : xorBytes f 0 = 0xFF := by simp [xorBytes]

@[simp] theorem flashCalcCrc16_zero (f : Buf) : flashCalcCrc16 f 0 = 0xFFFF := by
  simp [flashCalcCrc16]

theorem xorBytes_succ (f : Buf) (n : ℕ) : xorBytes f (n + 1) = xorBytes f n ^^^ f n := by
  unfold xorBytes
  rw [List.range_succ, List.foldl_append]
  rfl

theorem flashCalcCrc16_succ (f : Buf) (n : ℕ) :
    flashCalcCrc16 f (n + 1) = crcByte (flashCalcCrc16 f n) (f n) := by
  unfold flashCalcCrc16
  rw [List.range_succ, List.foldl_append]
  rfl

theorem flashCalcCrc16_low (f : Buf) (n : ℕ) : (flashCalcCrc16 f n).setWidth 8 = xorBytes f n := by
  induction n with
  | zero =>
    rw [flashCalcCrc16_zero, xorBytes_zero]
    decide
  | succ n ih => rw [flashCalcCrc16_succ, crcByte_eq, crcSpread_low, ih, xorBytes_succ]

/-- **The CRC of a message is a function of the XOR of its bytes.** -/
theorem flashCalcCrc16_eq (f : Buf) (n : ℕ) :
    flashCalcCrc16 f (n + 1) = crcSpread (xorBytes f (n + 1)) := by
  rw [flashCalcCrc16_succ, crcByte_eq, flashCalcCrc16_low, xorBytes_succ]

theorem flashCalcCrc16_inj {f g : Buf} {n : ℕ} :
    flashCalcCrc16 f n = flashCalcCrc16 g n ↔ xorBytes f n = xorBytes g n := by
  cases n with
  | zero => simp
  | succ n => rw [flashCalcCrc16_eq, flashCalcCrc16_eq, crcSpread_inj]

/-- A changed byte changes the XOR by as much. -/
theorem xorBytes_update (f : Buf) {i n : ℕ} (hi : i < n) (v : Byte) :
    xorBytes (Function.update f i (f i ^^^ v)) n = xorBytes f n ^^^ v := by
  induction n with
  | zero => omega
  | succ n ih =>
    rw [xorBytes_succ, xorBytes_succ]
    by_cases hlast : i = n
    · subst hlast
      have hsame : xorBytes (Function.update f i (f i ^^^ v)) i = xorBytes f i := by
        unfold xorBytes
        refine List.foldl_ext _ _ _ fun x j hj => ?_
        rw [Function.update_of_ne (Nat.ne_of_lt (List.mem_range.1 hj))]
      rw [hsame, Function.update_self, BitVec.xor_assoc]
    · rw [ih (by omega), Function.update_of_ne (Ne.symm hlast), BitVec.xor_assoc, BitVec.xor_assoc,
        BitVec.xor_comm v]

end Stm32Handler.Flash
