import Mathlib.Logic.Function.Iterate
import Mathlib.Data.BitVec

/-!
# The tick time-out

`is_time_escape` of `monitor.cpp` against the tick counter, which goes up by one
and wraps. Where the deadline wraps, the function is right; where it does not,
the 65535 that tells a wrapped counter from an early one takes every distance
over 65535 for a wrap, and a time of 0 is taken for a deadline that wraps.
-/

namespace Stm32Handler.App

/-- `is_time_escape`, with what `xTaskGetTickCount` returns. -/
def isTimeEscape (nowTick ticks time : BitVec 32) : Bool :=
  let tickEnd := ticks + time
  if tickEnd > ticks then
    decide (nowTick ≥ tickEnd ∨ nowTick < tickEnd ∧ tickEnd - nowTick > 65535)
  else decide (nowTick ≥ tickEnd ∧ nowTick < ticks)

/-- The counter `elapsed` ticks after it was `ticks`. -/
def tickCount (ticks : BitVec 32) (elapsed : ℕ) : BitVec 32 := (· + 1)^[elapsed] ticks

/-- False before the deadline, true from it on, for 2^31 ticks. -/
def EscapesOnTime (ticks time : BitVec 32) : Prop :=
  ∀ elapsed < 2 ^ 31, isTimeEscape (tickCount ticks elapsed) ticks time = decide (time.toNat ≤ elapsed)

theorem tickCount_toNat (ticks : BitVec 32) (elapsed : ℕ) :
    (tickCount ticks elapsed).toNat = (ticks.toNat + elapsed) % 2 ^ 32 := by
  unfold tickCount
  induction elapsed with
  | zero => rw [Function.iterate_zero_apply, Nat.add_zero, Nat.mod_eq_of_lt ticks.isLt]
  | succ n ih =>
    rw [Function.iterate_succ_apply', BitVec.toNat_add, ih]
    show ((ticks.toNat + n) % 2 ^ 32 + 1) % 2 ^ 32 = _
    omega

/-- The function on numbers. -/
theorem isTimeEscape_iff (ticks time : BitVec 32) (elapsed : ℕ) :
    isTimeEscape (tickCount ticks elapsed) ticks time = true ↔
      if ticks.toNat < (ticks.toNat + time.toNat) % 2 ^ 32 then
        (ticks.toNat + time.toNat) % 2 ^ 32 ≤ (ticks.toNat + elapsed) % 2 ^ 32 ∨
          (ticks.toNat + elapsed) % 2 ^ 32 + 65535 < (ticks.toNat + time.toNat) % 2 ^ 32
      else (ticks.toNat + time.toNat) % 2 ^ 32 ≤ (ticks.toNat + elapsed) % 2 ^ 32 ∧
        (ticks.toNat + elapsed) % 2 ^ 32 < ticks.toNat := by
  have hsub : ∀ a b : BitVec 32, b < a → (a - b > 65535 ↔ b.toNat + 65535 < a.toNat) := by
    intro a b hlt
    have hdiff := BitVec.toNat_sub_of_le (BitVec.le_of_lt hlt)
    rw [gt_iff_lt, BitVec.lt_def, hdiff]
    show 65535 < a.toNat - b.toNat ↔ _
    omega
  rw [← tickCount_toNat ticks elapsed, ← BitVec.toNat_add]
  generalize tickCount ticks elapsed = nowTick
  unfold isTimeEscape
  by_cases hwrap : ticks + time > ticks
  · rw [if_pos hwrap, if_pos (BitVec.lt_def.1 hwrap), decide_eq_true_eq]
    refine or_congr BitVec.le_def ⟨fun h => (hsub _ _ h.1).1 h.2, fun h => ?_⟩
    have hlt : nowTick < ticks + time := BitVec.lt_def.2 (by omega)
    exact ⟨hlt, (hsub _ _ hlt).2 h⟩
  · rw [if_neg hwrap, if_neg fun h => hwrap (BitVec.lt_def.2 h), decide_eq_true_eq]
    exact and_congr BitVec.le_def BitVec.lt_def

/-- One look at the clock. -/
theorem isTimeEscape_right_iff (ticks time : BitVec 32) {elapsed : ℕ} (h : elapsed < 2 ^ 31) :
    isTimeEscape (tickCount ticks elapsed) ticks time = decide (time.toNat ≤ elapsed) ↔
      time ≠ 0 ∧ (time.toNat ≤ elapsed + 65535 ∨ 2 ^ 32 ≤ ticks.toNat + time.toNat) := by
  have hticks := ticks.isLt
  have htime := time.isLt
  have hzero : time ≠ 0 ↔ time.toNat ≠ 0 := not_congr BitVec.toNat_inj.symm
  rw [Bool.eq_iff_iff, isTimeEscape_iff, decide_eq_true_eq, hzero]
  split <;> omega

/-- **The time-out is right exactly for** a time of at most 65535, or one that
makes the deadline wrap, but never for 0. -/
theorem escapes_on_time_iff (ticks time : BitVec 32) :
    EscapesOnTime ticks time ↔
      time ≠ 0 ∧ (time.toNat ≤ 65535 ∨ 2 ^ 32 ≤ ticks.toNat + time.toNat) := by
  constructor
  · intro h
    have hstart := (isTimeEscape_right_iff ticks time (by decide)).1 (h 0 (by decide))
    rwa [Nat.zero_add] at hstart
  · rintro ⟨hne, htime⟩ elapsed helapsed
    refine (isTimeEscape_right_iff ticks time helapsed).2 ⟨hne, htime.imp_left ?_⟩
    exact fun h => Nat.le_trans h (Nat.le_add_left _ _)

/-- A time of 65536, looked at once at the start. -/
theorem escapes_too_early :
    ¬ ∀ ticks time : BitVec 32, time.toNat < 2 ^ 31 → EscapesOnTime ticks time :=
  fun h => absurd (h 0 65536 (by decide) 0 (by decide)) (by decide)

end Stm32Handler.App
