import Mathlib.Data.BitVec
import Mathlib.Data.List.Basic
import Stm32Handler.Drivers.Interface
import Stm32Handler.Lib.Bytes
import Stm32Handler.Lib.Poll

/-!
# Sending a CAN frame

`can_driver_write` of `drv_can.c`, on a controller whose number of free transmit
mailboxes is any function of the millisecond of the call. The driver waits as long
as all three mailboxes are free, for a hundred milliseconds, and then hands the
frame over whatever the number is.
-/

namespace Stm32Handler.Can

open Drivers

/-- `CAN_TxHeaderTypeDef`. -/
structure TxHeader where
  stdId : ℕ
  extId : ℕ
  ide : ℕ
  rtr : ℕ
  dlc : ℕ
  transmitGlobalTime : Bool

/-- What a mailbox is loaded with. -/
structure Frame where
  header : TxHeader
  data : List Byte

/-- A call as the controller sees it: the clock, when the mailboxes were asked for,
and the frames put into them. -/
structure Call where
  now : ℕ := 0
  polls : List ℕ := []
  queued : List Frame := []

section Model

variable (level : ℕ → Fin 4)

/-- `HAL_CAN_GetTxMailboxesFreeLevel`. -/
def txMailboxesFreeLevel (c : Call) : Fin 4 × Call :=
  (level c.now, { c with polls := c.polls ++ [c.now] })

/-- `HAL_CAN_AddTxMessage`, `true` for `HAL_OK`. -/
def addTxMessage (header : TxHeader) (msg : Buf) (c : Call) : Bool × Call :=
  if level c.now = 0 then (false, c)
  else (true, { c with queued := c.queued ++ [⟨header, (List.range 8).map msg⟩] })

/-- The wait of `can_driver_write`, `false` for its return with `pdFAIL`. -/
def waitLoop (errTimes : ℕ) (c : Call) : Bool × Call :=
  let (free, c) := txMailboxesFreeLevel level c
  if free = 3 then
    let c := { c with now := delayMs 1 c.now }
    if errTimes + 1 > 100 then (false, c) else waitLoop (errTimes + 1) c
  else (true, c)
termination_by 101 - errTimes

/-- The header that `can_driver_write` fills in. -/
def canTxHeader (size : Byte) : TxHeader where
  stdId := 0x12
  extId := 0
  ide := 0
  rtr := 0
  dlc := size.toNat
  transmitGlobalTime := false

/-- `can_driver_write`, `true` for `pdPASS`: what `HAL_CAN_AddTxMessage` returns is
not looked at. -/
def canDriverWrite (msg : Buf) (size : Byte) (c : Call) : Bool × Call :=
  let (left, c) := waitLoop level 0 c
  if left = false then (false, c)
  else (true, (addTxMessage level (canTxHeader size) msg c).2)

end Model

/-- The frame of a message. -/
def frame (msg : Buf) (size : Byte) : Frame := ⟨canTxHeader size, (List.range 8).map msg⟩

/-- The call passes exactly when its frame is queued, which it is if a poll in the
first hundred milliseconds finds a free mailbox. -/
structure WritesRight (level : ℕ → Fin 4) (msg : Buf) (size : Byte) : Prop where
  pass_iff : (canDriverWrite level msg size {}).1 = true ↔
    (canDriverWrite level msg size {}).2.queued = [frame msg size]
  queued_of_free : (∃ t ∈ (canDriverWrite level msg size {}).2.polls, t ≤ 100 ∧ level t ≠ 0) →
    (canDriverWrite level msg size {}).2.queued = [frame msg size]

section Wait

variable (level : ℕ → Fin 4)

/-- The call after `k` rounds of the wait. -/
def waited (k : ℕ) : Call where
  now := k
  polls := List.range k

/-- The call when round `k` has asked for the mailboxes. -/
def asked (k : ℕ) : Call where
  now := k
  polls := List.range (k + 1)

theorem txMailboxesFreeLevel_waited (k : ℕ) :
    txMailboxesFreeLevel level (waited k) = (level k, asked k) := by
  rw [txMailboxesFreeLevel, waited, asked, List.range_succ]

/-- The loop polls, a hundred and one times. -/
theorem waitLoop_polls :
    Polls (fun k => decide (level k ≠ 3)) 101 (fun k => (true, asked k)) (false, waited 101)
      fun k => waitLoop level k (waited k) := by
  intro k hk
  beta_reduce
  rw [waitLoop, txMailboxesFreeLevel_waited]
  dsimp only
  by_cases hfree : level k = 3
  · have hnext : { asked k with now := delayMs 1 (asked k).now } = waited (k + 1) := rfl
    rw [if_pos hfree, hnext, decide_eq_false (not_not.2 hfree)]
    by_cases hlast : k + 1 < 101
    · rw [if_neg (show ¬ k + 1 > 100 by omega), if_neg Bool.false_ne_true, if_pos hlast]
    · obtain rfl : k = 100 := by omega
      rfl
  · rw [if_neg hfree, decide_eq_true hfree, if_pos rfl]

/-- The wait ends with the first round that does not find all mailboxes free. -/
theorem waitLoop_cases :
    (∃ t ≤ 100, level t ≠ 3 ∧ (∀ j < t, level j = 3) ∧ waitLoop level 0 {} = (true, asked t)) ∨
      (∀ t ≤ 100, level t = 3) ∧ waitLoop level 0 {} = (false, waited 101) := by
  rcases (waitLoop_polls level).cases (Nat.succ_pos _) with ⟨t, ht, hlevel, hbefore, hrun⟩ | ⟨hall, hrun⟩
  · refine .inl ⟨t, Nat.le_of_lt_succ ht, of_decide_eq_true hlevel, fun j hj => ?_, hrun⟩
    exact Decidable.not_not.1 (of_decide_eq_false (hbefore j hj))
  · exact .inr ⟨fun t ht => Decidable.not_not.1 (of_decide_eq_false (hall t (by omega))), hrun⟩

theorem canDriverWrite_cases (msg : Buf) (size : Byte) :
    (∃ t ≤ 100, level t ≠ 3 ∧ (∀ j < t, level j = 3) ∧
      canDriverWrite level msg size {} =
        (true, { asked t with queued := if level t = 0 then [] else [frame msg size] })) ∨
      (∀ t ≤ 100, level t = 3) ∧ canDriverWrite level msg size {} = (false, waited 101) := by
  rcases waitLoop_cases level with ⟨t, ht, hlevel, hbefore, hrun⟩ | ⟨hall, hrun⟩
  · refine .inl ⟨t, ht, hlevel, hbefore, ?_⟩
    rw [canDriverWrite, hrun]
    by_cases hzero : level t = 0
    · simp [addTxMessage, asked, hzero]
    · simp [addTxMessage, asked, hzero, frame]
  · refine .inr ⟨hall, ?_⟩
    rw [canDriverWrite, hrun]
    rfl

end Wait

/-- Some poll does not find all three mailboxes free, and the first of these finds
one or two. -/
def FirstTakenIsFree (level : ℕ → Fin 4) : Prop :=
  ∃ t ≤ 100, (∀ j < t, level j = 3) ∧ (level t = 1 ∨ level t = 2)

/-- **A frame is written right exactly when** the first poll that finds a mailbox
taken also finds one free. -/
theorem writes_right_iff (level : ℕ → Fin 4) (msg : Buf) (size : Byte) :
    WritesRight level msg size ↔ FirstTakenIsFree level := by
  rcases canDriverWrite_cases level msg size with ⟨t, ht, hlevel, hbefore, hrun⟩ | ⟨hall, hrun⟩
  · by_cases hzero : level t = 0
    · rw [if_pos hzero] at hrun
      refine iff_of_false (fun hright => ?_) ?_
      · have hqueued := hright.pass_iff
        rw [hrun] at hqueued
        cases hqueued.1 rfl
      · rintro ⟨u, hu, hfree, htaken⟩
        rcases Nat.lt_trichotomy u t with hlt | rfl | hlt
        · have := hbefore u hlt
          omega
        · omega
        · exact hlevel (hfree t hlt)
    · rw [if_neg hzero] at hrun
      refine iff_of_true ⟨?_, ?_⟩ ⟨t, ht, hbefore, by omega⟩
      · rw [hrun]
        exact iff_of_true rfl rfl
      · rw [hrun]
        exact fun _ => rfl
  · refine iff_of_false (fun hright => ?_) ?_
    · -- all three mailboxes are free, and nothing is sent
      have hqueued := hright.queued_of_free
      rw [hrun] at hqueued
      have hstart := hall 0 (Nat.zero_le _)
      cases hqueued ⟨0, List.mem_range.2 (Nat.succ_pos _), Nat.zero_le _, by rw [hstart]; decide⟩
    · rintro ⟨u, hu, -, htaken⟩
      have := hall u hu
      omega

/-- On an idle bus no frame is ever sent. -/
theorem writes_nothing_when_idle : ¬ ∀ (level : ℕ → Fin 4) (msg : Buf) (size : Byte),
    WritesRight level msg size := by
  intro hright
  have hqueued := (hright (fun _ => 3) (fun _ => 0) 8).queued_of_free
  rcases canDriverWrite_cases (fun _ => 3) (fun _ => 0) 8 with ⟨t, -, hlevel, -⟩ | ⟨-, hrun⟩
  · exact hlevel rfl
  · rw [hrun] at hqueued
    cases hqueued ⟨0, List.mem_range.2 (Nat.succ_pos _), Nat.zero_le _, by decide⟩

end Stm32Handler.Can
