import Mathlib.Data.BitVec

/-!
# Delays

`delay_ms` of `interface.c` on a clock that nothing else moves, and the rounds of a
loop that delays once a round.
-/

namespace Stm32Handler.Drivers

/-- `delay_ms`, which takes 16 bits: the clock behind it. -/
def delayMs (ms : BitVec 16) (now : ℕ) : ℕ := now + ms.toNat

/-- When round `k` starts. -/
def roundTime (ms : BitVec 16) (k : ℕ) : ℕ := k * ms.toNat

variable (ms : BitVec 16) (k : ℕ)

@[simp] theorem roundTime_zero : roundTime ms 0 = 0 := Nat.zero_mul _

@[simp] theorem delayMs_roundTime : delayMs ms (roundTime ms k) = roundTime ms (k + 1) :=
  (Nat.succ_mul ..).symm

end Stm32Handler.Drivers
