import Mathlib.Data.BitVec
import Mathlib.Data.List.Basic
import Stm32Handler.Drivers.Interface
import Stm32Handler.Lib.Poll

/-!
# The wait for a DMA transfer

`dma_check_finish` of `drv_dma.c`, with a clock that only `delay_ms` moves. The
loop counts its rounds up to `timeout_ms`, and each of them delays `timeout_ms`
milliseconds: the flag is looked at every `timeout_ms` milliseconds, for
`timeout_ms - 1` delays in all.
-/

namespace Stm32Handler.Dma

open Drivers

/-- `DMA_MEM_FLAG`, the transfer complete flag of the stream. -/
def dmaMemFlag : BitVec 32 := 0x800

/-- `RESET` and `SET` -/
def reset : BitVec 32 := 0
def set : BitVec 32 := 1

/-- `__HAL_DMA_GET_FLAG`: the status register, masked with the flag. -/
def halDmaGetFlag (flag : Bool) : BitVec 32 := if flag then dmaMemFlag else 0

theorem halDmaGetFlag_eq_reset {flag : Bool} : halDmaGetFlag flag = reset ↔ flag = false := by
  cases flag <;> decide

/-- The loop of `dma_check_finish`, with the flag at each millisecond: `index` and
the clock behind it. -/
def checkLoop (flag : ℕ → Bool) (timeoutMs : BitVec 32) (index now : ℕ) : ℕ × ℕ :=
  if halDmaGetFlag (flag now) = reset then
    if index + 1 ≥ timeoutMs.toNat then (index + 1, now)
    else checkLoop flag timeoutMs (index + 1) (delayMs (timeoutMs.setWidth 16) now)
  else (index, now)
termination_by timeoutMs.toNat - index

/-- `dma_check_finish`, `true` for `pdPASS`, and the milliseconds it has taken. -/
def dmaCheckFinish (flag : ℕ → Bool) (timeoutMs : BitVec 32) : Bool × ℕ :=
  if timeoutMs = 0 then (decide (halDmaGetFlag (flag 0) = set), 0)
  else
    let (index, now) := checkLoop flag timeoutMs 0 0
    (decide (index < timeoutMs.toNat), now)

/-- Without a time-out the flag is compared with `SET`, which is not its bit: the
answer is `pdFAIL` whether the transfer is complete or not. -/
theorem dmaCheckFinish_zero (flag : ℕ → Bool) : dmaCheckFinish flag 0 = (false, 0) := by
  rw [dmaCheckFinish, if_pos rfl]
  cases flag 0 <;> rfl

/-- The flag of a transfer that is complete at `d`, or never. -/
def completeAt (d : Option ℕ) (now : ℕ) : Bool := d.any (· ≤ now)

/-- The verdict is whether the transfer completes in time, and it takes no longer. -/
structure HonoursTimeout (timeoutMs : BitVec 32) (d : Option ℕ) : Prop where
  pass_iff : (dmaCheckFinish (completeAt d) timeoutMs).1 = true ↔ ∃ t ∈ d, t ≤ timeoutMs.toNat
  time_le : (dmaCheckFinish (completeAt d) timeoutMs).2 ≤ timeoutMs.toNat

section Loop

variable (flag : ℕ → Bool) (timeoutMs : BitVec 32)

/-- The clock when round `k` looks at the flag. -/
def lookTime (k : ℕ) : ℕ := roundTime (timeoutMs.setWidth 16) k

/-- The loop polls the flag, once every `timeout_ms` milliseconds. -/
theorem checkLoop_polls :
    Polls (fun k => flag (lookTime timeoutMs k)) timeoutMs.toNat
      (fun k => (k, lookTime timeoutMs k))
      (timeoutMs.toNat, lookTime timeoutMs (timeoutMs.toNat - 1))
      fun k => checkLoop flag timeoutMs k (lookTime timeoutMs k) := by
  intro k hk
  beta_reduce
  rw [checkLoop, lookTime, delayMs_roundTime]
  simp only [halDmaGetFlag_eq_reset]
  cases hflag : flag (roundTime (timeoutMs.setWidth 16) k) with
  | true => rfl
  | false =>
    rw [if_pos rfl, if_neg Bool.false_ne_true]
    by_cases hlast : k + 1 < timeoutMs.toNat
    · rw [if_neg (by omega), if_pos hlast, lookTime]
    · obtain hend : timeoutMs.toNat = k + 1 := by omega
      rw [if_pos (by omega), if_neg hlast, hend, lookTime, Nat.add_sub_cancel]

variable {timeoutMs}

theorem dmaCheckFinish_cases (hpos : 0 < timeoutMs.toNat) :
    (∃ k < timeoutMs.toNat, flag (lookTime timeoutMs k) = true ∧
        (∀ j < k, flag (lookTime timeoutMs j) = false) ∧
        dmaCheckFinish flag timeoutMs = (true, lookTime timeoutMs k)) ∨
      (∀ j < timeoutMs.toNat, flag (lookTime timeoutMs j) = false) ∧
        dmaCheckFinish flag timeoutMs = (false, lookTime timeoutMs (timeoutMs.toNat - 1)) := by
  have hne : timeoutMs ≠ 0 := by
    rintro rfl
    exact absurd hpos (by decide)
  have hstart : lookTime timeoutMs 0 = 0 := roundTime_zero _
  rw [dmaCheckFinish, if_neg hne]
  have hcases := (checkLoop_polls flag timeoutMs).cases hpos
  rw [hstart] at hcases
  rcases hcases with ⟨k, hk, hset, hbefore, hrun⟩ | ⟨hnever, hrun⟩
  · refine .inl ⟨k, hk, hset, hbefore, ?_⟩
    rw [hrun]
    exact congrArg (·, _) (decide_eq_true hk)
  · refine .inr ⟨hnever, ?_⟩
    rw [hrun]
    exact congrArg (·, _) (decide_eq_false (Nat.lt_irrefl _))

end Loop

/-- When the function honours its time-out: with a time-out of 2, or one of 1 and a
transfer that does not complete in just that time, or a transfer in time. -/
def InTime (timeoutMs : BitVec 32) (d : Option ℕ) : Prop :=
  timeoutMs.toNat = 2 ∨ timeoutMs.toNat = 1 ∧ d ≠ some 1 ∨
    3 ≤ timeoutMs.toNat ∧ ∃ t ∈ d, t ≤ timeoutMs.toNat

theorem completeAt_eq_true {d : Option ℕ} {now : ℕ} :
    completeAt d now = true ↔ ∃ t ∈ d, t ≤ now := by
  cases d <;> simp [completeAt]

theorem completeAt_eq_false {d : Option ℕ} {now : ℕ} :
    completeAt d now = false ↔ ¬ ∃ t ∈ d, t ≤ now := by
  rw [← completeAt_eq_true, Bool.not_eq_true]

section Verdict

variable {timeoutMs : BitVec 32} {d : Option ℕ}

theorem lookTime_eq (hle : timeoutMs.toNat ≤ 65535) (k : ℕ) :
    lookTime timeoutMs k = k * timeoutMs.toNat := by
  rw [lookTime, roundTime, BitVec.toNat_setWidth, Nat.mod_eq_of_lt (by omega)]

theorem honoursTimeout_iff_of_run {pass : Bool} {time : ℕ}
    (hrun : dmaCheckFinish (completeAt d) timeoutMs = (pass, time)) :
    HonoursTimeout timeoutMs d ↔
      (pass = true ↔ ∃ t ∈ d, t ≤ timeoutMs.toNat) ∧ time ≤ timeoutMs.toNat := by
  constructor
  · rintro ⟨hpass, htime⟩
    rw [hrun] at hpass htime
    exact ⟨hpass, htime⟩
  · rintro ⟨hpass, htime⟩
    exact ⟨by rwa [hrun], by rwa [hrun]⟩

theorem timeout_cases (hpos : 1 ≤ timeoutMs.toNat) :
    timeoutMs.toNat = 1 ∨ timeoutMs.toNat = 2 ∨ 3 ≤ timeoutMs.toNat := by
  omega

theorem inTime_of_complete (hpos : 1 ≤ timeoutMs.toNat) (hone : timeoutMs.toNat = 1 → d ≠ some 1)
    (hd : ∃ t ∈ d, t ≤ timeoutMs.toNat) : InTime timeoutMs d := by
  rcases timeout_cases hpos with h | h | h
  · exact .inr (.inl ⟨h, hone h⟩)
  · exact .inl h
  · exact .inr (.inr ⟨h, hd⟩)

/-- With three rounds or more, the transfer must be in time. -/
theorem inTime_iff_of_three (h : 3 ≤ timeoutMs.toNat) :
    InTime timeoutMs d ↔ ∃ t ∈ d, t ≤ timeoutMs.toNat := by
  constructor
  · rintro (h' | ⟨h', -⟩ | ⟨-, hd⟩)
    · omega
    · omega
    · exact hd
  · exact fun hd => .inr (.inr ⟨h, hd⟩)

/-- A round `k` that finds the flag set. -/
theorem verdict_of_hit {k : ℕ} (hk : k < timeoutMs.toNat)
    (hset : ∃ t ∈ d, t ≤ k * timeoutMs.toNat)
    (hbefore : ∀ j < k, ¬ ∃ t ∈ d, t ≤ j * timeoutMs.toNat) :
    ((true = true ↔ ∃ t ∈ d, t ≤ timeoutMs.toNat) ∧ k * timeoutMs.toNat ≤ timeoutMs.toNat) ↔
      InTime timeoutMs d := by
  match k with
  | 0 =>
    obtain ⟨t, ht, hle⟩ := hset
    have hd : ∃ t ∈ d, t ≤ timeoutMs.toNat := ⟨t, ht, by omega⟩
    refine iff_of_true ⟨iff_of_true rfl hd, by omega⟩ (inTime_of_complete hk (fun _ hone => ?_) hd)
    rw [hone, Option.mem_some_iff] at ht
    omega
  | 1 =>
    rw [Nat.one_mul] at hset ⊢
    exact iff_of_true ⟨iff_of_true rfl hset, Nat.le_refl _⟩
      (inTime_of_complete (by omega) (fun hone => by omega) hset)
  | k + 2 =>
    -- the second round has come too early
    have hlate := hbefore 1 (by omega)
    rw [Nat.one_mul] at hlate
    rw [inTime_iff_of_three (by omega)]
    exact iff_of_false (fun h => hlate (h.1.1 rfl)) hlate

/-- No round finds the flag set. -/
theorem verdict_of_miss (hpos : 1 ≤ timeoutMs.toNat)
    (hnever : ∀ j < timeoutMs.toNat, ¬ ∃ t ∈ d, t ≤ j * timeoutMs.toNat) :
    ((false = true ↔ ∃ t ∈ d, t ≤ timeoutMs.toNat) ∧
        (timeoutMs.toNat - 1) * timeoutMs.toNat ≤ timeoutMs.toNat) ↔ InTime timeoutMs d := by
  rcases timeout_cases hpos with h | h | h
  · have hstart := hnever 0 hpos
    rw [Nat.zero_mul] at hstart
    have hin : (∃ t ∈ d, t ≤ timeoutMs.toNat) ↔ d = some 1 := by
      constructor
      · rintro ⟨t, ht, hle⟩
        have hzero : t ≠ 0 := fun hzero => hstart ⟨t, ht, hzero.le⟩
        obtain rfl : t = 1 := by omega
        exact ht
      · exact fun hone => ⟨1, hone, hpos⟩
    have hright : InTime timeoutMs d ↔ d ≠ some 1 := by
      constructor
      · rintro (h' | ⟨-, h'⟩ | ⟨h', -⟩)
        · omega
        · exact h'
        · omega
      · exact fun hone => .inr (.inl ⟨h, hone⟩)
    rw [hin, hright, h]
    constructor
    · exact fun hleft hone => nomatch hleft.1.2 hone
    · exact fun hne => ⟨iff_of_false Bool.false_ne_true hne, by omega⟩
  · have hend := hnever 1 (by omega)
    rw [Nat.one_mul] at hend
    refine iff_of_true ⟨iff_of_false Bool.false_ne_true hend, ?_⟩ (.inl h)
    rw [h]
  · have hend := hnever 1 (by omega)
    rw [Nat.one_mul] at hend
    rw [inTime_iff_of_three h]
    refine iff_of_false (fun hleft => ?_) hend
    have hdelay : 2 * timeoutMs.toNat ≤ (timeoutMs.toNat - 1) * timeoutMs.toNat :=
      Nat.mul_le_mul_right _ (by omega)
    have htime := hleft.2
    omega

end Verdict

/-- **The time-out is honoured exactly when** the transfer completes in time, but
for time-outs of 1 and 2. -/
theorem honours_timeout_iff (timeoutMs : BitVec 32) (d : Option ℕ) (hpos : 1 ≤ timeoutMs.toNat)
    (hle : timeoutMs.toNat ≤ 65535) : HonoursTimeout timeoutMs d ↔ InTime timeoutMs d := by
  rcases dmaCheckFinish_cases (completeAt d) hpos with ⟨k, hk, hset, hbefore, hrun⟩ | ⟨hnever, hrun⟩
  · rw [honoursTimeout_iff_of_run hrun, lookTime_eq hle]
    rw [lookTime_eq hle, completeAt_eq_true] at hset
    refine verdict_of_hit hk hset fun j hj => ?_
    have hlate := hbefore j hj
    rwa [lookTime_eq hle, completeAt_eq_false] at hlate
  · rw [honoursTimeout_iff_of_run hrun, lookTime_eq hle]
    refine verdict_of_miss hpos fun j hj => ?_
    have hlate := hnever j hj
    rwa [lookTime_eq hle, completeAt_eq_false] at hlate

/-- The time-out of `dma_memory_run`. -/
theorem honours_timeout_memory_run : HonoursTimeout 100 (some 100) ↔ InTime 100 (some 100) :=
  honours_timeout_iff 100 (some 100) (by decide) (by decide)

/-- A transfer that never completes is waited for 9900 milliseconds. -/
theorem waits_too_long : ¬ ∀ (timeoutMs : BitVec 32) (d : Option ℕ), 1 ≤ timeoutMs.toNat →
    timeoutMs.toNat ≤ 65535 → HonoursTimeout timeoutMs d := by
  intro hall
  have htime := (hall 100 none (by decide) (by decide)).time_le
  rcases dmaCheckFinish_cases (completeAt none) (by decide : 0 < (100 : BitVec 32).toNat) with
    ⟨k, -, hset, -, -⟩ | ⟨-, hrun⟩
  · cases hset
  · rw [hrun] at htime
    exact absurd htime (by decide)

end Stm32Handler.Dma
