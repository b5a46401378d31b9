import Stm32Handler.Lcd.ShowChar

/-!
# Numbers on the LCD

`lcd_driver_show_num` and `lcd_driver_show_extra_num` of `drv_lcd.c`, which are
the same loop, down to their calls of `lcd_showchar`. The powers of ten are taken
modulo 2^32. Up to 10 columns they are right; from 11 on a number that reaches
the power of a column shows a digit there, and from 33 on the first power is 0.
-/

namespace Stm32Handler.Lcd

/-- A call of `lcd_showchar`. -/
structure ShowcharCall where
  x : BitVec 16
  y : BitVec 16
  num : Byte
  size : Byte
  mode : Byte
  deriving DecidableEq

/-- `lcd_pow` -/
def lcdPow (m n : Byte) : BitVec 32 := (· * m.setWidth 32)^[n.toNat] 1

/-- What is shown for a leading zero. -/
def zeroChar (mode : Byte) : Byte := if mode &&& 0x80 ≠ 0 then 0x30 else 0x20

section ShowNum

variable (x y : BitVec 16) (num : BitVec 32) (len size mode : Byte)

/-- The call in column `t`. -/
def numCall (t : ℕ) (c : Byte) : ShowcharCall :=
  ⟨x + BitVec.ofNat 16 (size.toNat / 2 * t), y, c, size, mode &&& 0x01⟩

/-- The loop over `t` with `n` columns left, `none` for a division by zero. -/
def numLoop : ℕ → Byte → Bool → Option (List ShowcharCall)
  | 0, _, _ => some []
  | n + 1, t, enshow =>
    let power := lcdPow 10 (len - t - 1)
    if power = 0 then none
    else
      let temp := ((num / power) % 10).setWidth 8
      if enshow = false ∧ t.toNat < len.toNat - 1 then
        if temp = 0 then
          (numCall x y size mode t.toNat (zeroChar mode) :: ·) <$> numLoop n (t + 1) enshow
        else (numCall x y size mode t.toNat (temp + 0x30) :: ·) <$> numLoop n (t + 1) true
      else (numCall x y size mode t.toNat (temp + 0x30) :: ·) <$> numLoop n (t + 1) enshow

def lcdDriverShowNum : Option (List ShowcharCall) := numLoop x y num len size mode len.toNat 0 false

def lcdDriverShowExtraNum : Option (List ShowcharCall) :=
  numLoop x y num len size mode len.toNat 0 false

/-- The first `t + 1` of the `len` digits. -/
def leadingDigits (t : ℕ) : ℕ := num.toNat % 10 ^ len.toNat / 10 ^ (len.toNat - 1 - t)

/-- The character that belongs in column `t`. -/
def columnChar (t : ℕ) : Byte :=
  if t < len.toNat - 1 ∧ leadingDigits num len t = 0 then zeroChar mode
  else BitVec.ofNat 8 (leadingDigits num len t % 10) + 0x30

/-- The columns from `t` on. -/
def columnsFrom (t n : ℕ) : List ShowcharCall :=
  (List.range n).map fun i => numCall x y size mode (t + i) (columnChar num len mode (t + i))

end ShowNum

theorem lcdPow_toNat (n : Byte) : (lcdPow 10 n).toNat = 10 ^ n.toNat % 2 ^ 32 := by
  unfold lcdPow
  generalize n.toNat = k
  induction k with
  | zero => rfl
  | succ k ih =>
    rw [Function.iterate_succ_apply', BitVec.toNat_mul, ih, Nat.pow_succ, Nat.mod_mul_mod]
    rfl

variable {x y : BitVec 16} {num : BitVec 32} {len size mode : Byte}

/-- The digit of the loop with `n` columns behind it. -/
def loopDigit (num : BitVec 32) (n : ℕ) : ℕ := num.toNat / (10 ^ n % 2 ^ 32) % 10

theorem loopDigit_lt (num : BitVec 32) (n : ℕ) : loopDigit num n < 10 := Nat.mod_lt _ (by decide)

section Step

variable {n : ℕ} {t : Byte} (ht : t.toNat + (n + 1) = len.toNat)
include ht

theorem power_toNat : (lcdPow 10 (len - t - 1)).toNat = 10 ^ n % 2 ^ 32 := by
  have hlen := len.isLt
  have hexponent : (len - t - 1).toNat = n := by
    rw [BitVec.toNat_sub, BitVec.toNat_sub]
    show (2 ^ 8 - 1 + (2 ^ 8 - t.toNat + len.toNat) % 2 ^ 8) % 2 ^ 8 = n
    omega
  rw [lcdPow_toNat, hexponent]

theorem next_toNat : (t + 1).toNat = t.toNat + 1 := by
  have hlen := len.isLt
  rw [BitVec.toNat_add]
  exact Nat.mod_eq_of_lt (by show t.toNat + 1 < 256; omega)

theorem leadingDigits_eq (num : BitVec 32) :
    leadingDigits num len t.toNat = num.toNat % 10 ^ len.toNat / 10 ^ n := by
  rw [leadingDigits, show len.toNat - 1 - t.toNat = n by omega]

/-- No number has a digit beyond the tenth column from the right. -/
theorem columnChar_far (num : BitVec 32) (mode : Byte) (hten : 10 ≤ n) :
    columnChar num len mode t.toNat = zeroChar mode := by
  have hnum : num.toNat < 10 ^ n :=
    num.isLt.trans_le ((by decide : 2 ^ 32 ≤ 10 ^ 10).trans (Nat.pow_le_pow_right (by decide) hten))
  rw [columnChar, if_pos]
  refine ⟨by omega, ?_⟩
  rw [leadingDigits_eq ht]
  exact Nat.div_eq_of_lt ((Nat.mod_le _ _).trans_lt hnum)

/-- The power is 0. -/
theorem numLoop_zero (hpower : 10 ^ n % 2 ^ 32 = 0) (enshow : Bool) :
    numLoop x y num len size mode (n + 1) t enshow = none := by
  have hzero : lcdPow 10 (len - t - 1) = 0 := BitVec.eq_of_toNat_eq ((power_toNat ht).trans hpower)
  rw [numLoop, if_pos hzero]

/-- A column. -/
theorem numLoop_succ (hpower : 10 ^ n % 2 ^ 32 ≠ 0) (enshow : Bool) :
    numLoop x y num len size mode (n + 1) t enshow =
      (numCall x y size mode t.toNat
          (if (enshow = false ∧ n ≠ 0) ∧ loopDigit num n = 0 then zeroChar mode
            else BitVec.ofNat 8 (loopDigit num n) + 0x30) :: ·) <$>
        numLoop x y num len size mode n (t + 1) (enshow || decide (n ≠ 0 ∧ loopDigit num n ≠ 0)) := by
  have hne : lcdPow 10 (len - t - 1) ≠ 0 := fun h => hpower (by rw [← power_toNat ht, h]; rfl)
  have hdigit : ((num / lcdPow 10 (len - t - 1)) % 10).setWidth 8 = BitVec.ofNat 8 (loopDigit num n) := by
    apply BitVec.eq_of_toNat_eq
    rw [BitVec.toNat_setWidth, BitVec.toNat_umod, BitVec.toNat_udiv, power_toNat ht, BitVec.toNat_ofNat]
    rfl
  have hzero : BitVec.ofNat 8 (loopDigit num n) = 0 ↔ loopDigit num n = 0 := by
    have hlt := loopDigit_lt num n
    rw [← BitVec.toNat_inj, BitVec.toNat_ofNat, Nat.mod_eq_of_lt (by omega)]
    rfl
  have hlast : t.toNat < len.toNat - 1 ↔ n ≠ 0 := by omega
  rw [numLoop, if_neg hne, hdigit]
  simp only [hzero, hlast]
  by_cases hlead : enshow = false ∧ n ≠ 0
  · obtain ⟨rfl, hn⟩ := hlead
    by_cases hd : loopDigit num n = 0
    · simp [hn, hd]
    · simp [hn, hd]
  · have henshow : (enshow || decide (n ≠ 0 ∧ loopDigit num n ≠ 0)) = enshow := by
      cases enshow with
      | true => rfl
      | false =>
        obtain rfl : n = 0 := by simpa using hlead
        rfl
    rw [if_neg hlead, if_neg (fun h => hlead h.1), henshow]

end Step

/-- The flag says whether one of the digits so far is shown. -/
def ShowsSoFar (num : BitVec 32) (len : Byte) (n : ℕ) (enshow : Bool) : Prop :=
  n ≠ 0 → (enshow = false ↔ num.toNat % 10 ^ len.toNat / 10 ^ n = 0)

theorem power_small {n : ℕ} (hn : n < 10) : 10 ^ n % 2 ^ 32 = 10 ^ n := by
  revert n
  decide

/-- With `n` columns behind it: a power below 2^32, or one the number does not
reach. -/
theorem loopDigit_eq {n : ℕ} (hn : n < len.toNat) (hnum : 10 ≤ n → num.toNat < 10 ^ n % 2 ^ 32) :
    loopDigit num n = num.toNat % 10 ^ len.toNat / 10 ^ n % 10 := by
  by_cases hsmall : n < 10
  · have hsplit : 10 ^ len.toNat = 10 ^ n * (10 * 10 ^ (len.toNat - n - 1)) := by
      rw [← Nat.pow_succ', ← Nat.pow_add]
      congr 1
      omega
    rw [loopDigit, power_small hsmall, hsplit, Nat.mod_mul_right_div_self, Nat.mod_mul_right_mod]
  · have hlt := hnum (Nat.not_lt.1 hsmall)
    have hpow : num.toNat < 10 ^ n :=
      hlt.trans_le (Nat.mod_le _ _)
    have hpow' : num.toNat < 10 ^ len.toNat :=
      hpow.trans_le (Nat.pow_le_pow_right (by decide) hn.le)
    rw [loopDigit, Nat.div_eq_of_lt hlt, Nat.mod_eq_of_lt hpow', Nat.div_eq_of_lt hpow]

theorem columnsFrom_succ (t n : ℕ) : columnsFrom x y num len size mode t (n + 1) =
    numCall x y size mode t (columnChar num len mode t) :: columnsFrom x y num len size mode (t + 1) n := by
  unfold columnsFrom
  rw [List.range_succ_eq_map, List.map_cons, List.map_map]
  refine congrArg₂ _ rfl (List.map_congr_left fun i _ => ?_)
  rw [Function.comp_apply, Nat.succ_eq_one_add, ← Nat.add_assoc]

/-- With no power that wraps to 0, or that the number reaches, the columns are
right. -/
theorem numLoop_eq {n : ℕ} {t : Byte} {enshow : Bool} (ht : t.toNat + n = len.toNat)
    (hnum : ∀ e < n, 10 ≤ e → num.toNat < 10 ^ e % 2 ^ 32) (hshown : ShowsSoFar num len n enshow) :
    numLoop x y num len size mode n t enshow = some (columnsFrom x y num len size mode t.toNat n) := by
  induction n generalizing t enshow with
  | zero => rfl
  | succ n ih =>
    have hpower : 10 ^ n % 2 ^ 32 ≠ 0 := by
      by_cases hsmall : n < 10
      · rw [power_small hsmall]
        exact (Nat.pow_pos (by decide)).ne'
      · exact (Nat.zero_le _).trans_lt (hnum n (Nat.lt_succ_self n) (Nat.not_lt.1 hsmall)) |>.ne'
    have hdigit : loopDigit num n = num.toNat % 10 ^ len.toNat / 10 ^ n % 10 :=
      loopDigit_eq (by omega) (hnum n (Nat.lt_succ_self n))
    have hleading := leadingDigits_eq ht num
    have hbefore := hshown (Nat.succ_ne_zero n)
    rw [Nat.pow_succ, ← Nat.div_div_eq_div_mul, ← hleading] at hbefore
    rw [← hleading] at hdigit
    have hchar : (if (enshow = false ∧ n ≠ 0) ∧ loopDigit num n = 0 then zeroChar mode
        else BitVec.ofNat 8 (loopDigit num n) + 0x30) = columnChar num len mode t.toNat := by
      rw [columnChar, hdigit]
      refine if_congr ?_ rfl rfl
      rw [hbefore]
      omega
    rw [numLoop_succ ht hpower, hchar, ih (by rw [next_toNat ht]; omega) (fun e he => hnum e (by omega)),
      next_toNat ht, columnsFrom_succ]
    · rfl
    · intro hn
      rw [← hleading, Bool.or_eq_false_iff, hbefore, decide_eq_false_iff_not, hdigit]
      omega

theorem digitChar_ne_zeroChar {d : ℕ} (hd : d < 10) (hpos : d ≠ 0) :
    BitVec.ofNat 8 d + 0x30 ≠ zeroChar mode := by
  have hzero : zeroChar mode = 0x30 ∨ zeroChar mode = 0x20 := by
    unfold zeroChar
    split
    · exact .inl rfl
    · exact .inr rfl
  have hchars : ∀ d < 10, d ≠ 0 → BitVec.ofNat 8 d + 0x30 ≠ (0x30 : Byte) ∧
      BitVec.ofNat 8 d + 0x30 ≠ (0x20 : Byte) := by decide
  rcases hzero with h | h
  · rw [h]
    exact (hchars d hd hpos).1
  · rw [h]
    exact (hchars d hd hpos).2

/-- Where the loop is right, it shows no digit beyond the tenth column from the
right. -/
theorem loopDigit_of_eq {n : ℕ} {t : Byte} (ht : t.toNat + n = len.toNat)
    (h : numLoop x y num len size mode n t false = some (columnsFrom x y num len size mode t.toNat n)) :
    ∀ e < n, 10 ≤ e → e < 32 ∧ loopDigit num e = 0 := by
  induction n generalizing t with
  | zero => exact fun e he => absurd he (Nat.not_lt_zero e)
  | succ n ih =>
    intro e he hten
    have hpower : 10 ^ n % 2 ^ 32 ≠ 0 := by
      intro hzero
      rw [numLoop_zero ht hzero] at h
      cases h
    have hn : n < 32 := by
      by_contra hge
      apply hpower
      apply Nat.mod_eq_zero_of_dvd
      exact (pow_dvd_pow 2 (Nat.not_lt.1 hge)).trans (pow_dvd_pow_of_dvd (by decide : 2 ∣ 10) n)
    rw [numLoop_succ ht hpower, columnsFrom_succ, columnChar_far ht num mode (by omega)] at h
    obtain ⟨rest, hrest, hcons⟩ := Option.map_eq_some_iff.1 h
    obtain ⟨hcall, rfl⟩ := List.cons.inj hcons
    have hdigit : loopDigit num n = 0 := by
      by_contra hne
      rw [if_neg fun hc => hne hc.2] at hcall
      exact digitChar_ne_zeroChar (loopDigit_lt num n) hne (congrArg ShowcharCall.num hcall)
    rcases Nat.lt_succ_iff_lt_or_eq.1 he with hlt | rfl
    · have hrest' : numLoop x y num len size mode n (t + 1) false =
          some (columnsFrom x y num len size mode (t + 1).toNat n) := by
        rw [next_toNat ht]
        simpa [hdigit] using hrest
      exact ih (by rw [next_toNat ht]; omega) hrest' e hlt hten
    · exact ⟨hn, hdigit⟩

/-- The powers that wrap are never a tenth of the first one. -/
theorem power_ge {e : ℕ} (he : e < 32) (hten : 10 ≤ e) :
    10 ^ 10 % 2 ^ 32 ≤ 10 * (10 ^ e % 2 ^ 32) := by
  revert e
  decide

/-- A number that shows no digit there stays below all these powers. -/
theorem lt_power_of_loopDigit {n : ℕ} (h : ∀ e < n, 10 ≤ e → e < 32 ∧ loopDigit num e = 0) :
    ∀ e < n, 10 ≤ e → num.toNat < 10 ^ e % 2 ^ 32 := by
  have hlt : ∀ p, num.toNat / p % 10 = 0 → num.toNat < 10 * p → num.toNat < p := by
    intro p hdigit hbound
    have hquotient : num.toNat / p < 10 := Nat.div_lt_of_lt_mul (by rwa [Nat.mul_comm p])
    rw [Nat.mod_eq_of_lt hquotient] at hdigit
    exact (Nat.div_eq_zero_iff_lt (by omega)).1 hdigit
  intro e he hten
  have hfirst : num.toNat < 10 ^ 10 % 2 ^ 32 :=
    hlt _ (h 10 (by omega) (Nat.le_refl 10)).2 (num.isLt.trans (by decide))
  obtain ⟨hrange, hdigit⟩ := h e he hten
  exact hlt _ hdigit (hfirst.trans_le (power_ge hrange hten))

/-- **The columns are right exactly when** the number stays below the power of
every column beyond the tenth from the right, and none of these powers is 0. -/
theorem show_num_iff (x y : BitVec 16) (num : BitVec 32) (len size mode : Byte) :
    lcdDriverShowNum x y num len size mode = some (columnsFrom x y num len size mode 0 len.toNat) ∧
        lcdDriverShowExtraNum x y num len size mode =
          some (columnsFrom x y num len size mode 0 len.toNat) ↔
      ∀ e < len.toNat, 10 ≤ e → num.toNat < 10 ^ e % 2 ^ 32 := by
  refine ⟨fun h => ?_, fun hnum => ?_⟩
  · exact lt_power_of_loopDigit (loopDigit_of_eq (Nat.zero_add _) h.1)
  · have hloop : numLoop x y num len size mode len.toNat 0 false =
        some (columnsFrom x y num len size mode 0 len.toNat) := by
      refine numLoop_eq (Nat.zero_add _) hnum fun _ => iff_of_true rfl ?_
      exact Nat.div_eq_of_lt (Nat.mod_lt _ (Nat.pow_pos (by decide)))
    exact ⟨hloop, hloop⟩

/-- 4294967295 in 11 columns starts with a 3. -/
theorem show_num_eleven : ¬ ∀ (x y : BitVec 16) (num : BitVec 32) (len size mode : Byte), 1 ≤ len →
    lcdDriverShowNum x y num len size mode = some (columnsFrom x y num len size mode 0 len.toNat) ∧
      lcdDriverShowExtraNum x y num len size mode =
        some (columnsFrom x y num len size mode 0 len.toNat) :=
  fun h => absurd (h 0 0 4294967295 11 16 0 (by decide)).1 (by decide +kernel)

end Stm32Handler.Lcd
