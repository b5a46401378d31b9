import Stm32Handler.App.TriggerSchedule

/-!
# Slots of finished triggers

Both loops free a slot whose count has run out, but only where `used_` is not
1, and a registered trigger has `used_` 1: a one-shot that has fired keeps its
slot until its id is removed. `registerEventTrigger` then fails with ten
registered triggers even when all of them are done.
-/

namespace Stm32Handler.App

variable {φ π : Type*}

/-- Registered, not removed, and with remaining count. -/
def TimeTrigger.live (t : TimeTrigger φ π) : Bool := t.used ≠ 0 ∧ 0 < t.triggerCount

namespace SysTimeManage

def liveCount (m : SysTimeManage φ π) : ℕ := m.triggerList.countP TimeTrigger.live

/-- Registered and not removed, finished or not. -/
def usedCount (m : SysTimeManage φ π) : ℕ := m.triggerList.countP fun t => t.used ≠ 0

theorem usedCount_le (m : SysTimeManage φ π) : m.usedCount ≤ systemTimeMaxTriggers := by
  rw [← m.size]
  exact List.countP_le_length

theorem liveCount_le_usedCount (m : SysTimeManage φ π) : m.liveCount ≤ m.usedCount := by
  refine List.countP_mono_left fun t _ h => ?_
  simp only [TimeTrigger.live, decide_eq_true_eq] at h ⊢
  exact h.1

end SysTimeManage

/-- A registration finds room iff some slot is unused. -/
theorem registerLoop_isSome {ts : List (TimeTrigger φ π)} {ss : List (Slot φ π)}
    (h : TableHolds ts ss) (r : Registration φ π) (k : ℕ) :
    (registerLoop r k ts).1.isSome ↔ ts.countP (fun t => t.used ≠ 0) < ts.length := by
  induction h generalizing k with
  | nil => simp [registerLoop]
  | @cons t s ts ss ht hts ih =>
    simp only [registerLoop, ht.deleteNoCount, List.countP_cons, List.length_cons]
    by_cases hu : t.used = 0
    · have hle := List.countP_le_length (p := fun t : TimeTrigger φ π => t.used ≠ 0) (l := ts)
      simp only [hu, ↓reduceIte, Option.isSome_some, ne_eq, not_true_eq_false, decide_false,
        Bool.false_eq_true, true_iff]
      exact Nat.lt_succ_of_le hle
    · simp only [hu, ↓reduceIte, ne_eq, not_false_eq_true, decide_true, Nat.add_lt_add_iff_right]
      exact ih (k + 1)

/-- **When a finished trigger costs nothing**: in a reachable state a
registration succeeds whenever fewer than ten triggers are live, provided that
fewer than ten are registered and not removed, or that all ten are live; in
no other. -/
theorem register_succeeds_iff (m : SysTimeManage φ π) (ops : List (Op φ π)) (s : TimerRun φ π)
    (hrun : exec timerStep (timerInit m) ops = some s) (r : Registration φ π) :
    (s.manage.liveCount < systemTimeMaxTriggers →
        (s.manage.registerEventTrigger r).1.isSome) ↔
      (s.manage.usedCount < systemTimeMaxTriggers ∨
        s.manage.liveCount = systemTimeMaxTriggers) := by
  obtain ⟨ss, hinv⟩ := exec_inv_all (I := fun s => ∃ ss, ScheduleInv s ss)
    (fun _ _ _ h hs => scheduleInv_step h hs) (scheduleInv_init m) hrun
  have hsome : (s.manage.registerEventTrigger r).1.isSome ↔
      s.manage.usedCount < systemTimeMaxTriggers := by
    have h := registerLoop_isSome hinv.holds r 0
    rw [s.manage.size] at h
    exact h
  have hused := s.manage.usedCount_le
  have hlive := s.manage.liveCount_le_usedCount
  rw [hsome]
  omega

/-- Ten triggers of one shot each, ten of them fired. -/
def tenShots : List (Op Unit Unit) :=
  (List.range 10).map (fun i => .register ⟨BitVec.ofNat 16 i, 1, some (), none, 1⟩) ++
    [.process true fun _ _ => 0]

theorem register_succeeds_iff_ten_shots :
    ∃ s, exec timerStep (timerInit (zeroManage Unit Unit)) tenShots = some s ∧
      ((s.manage.liveCount < systemTimeMaxTriggers →
          (s.manage.registerEventTrigger ⟨10, 1, some (), none, 1⟩).1.isSome) ↔
        (s.manage.usedCount < systemTimeMaxTriggers ∨
          s.manage.liveCount = systemTimeMaxTriggers)) :=
  ⟨_, rfl, register_succeeds_iff (zeroManage Unit Unit) tenShots _ rfl _⟩

/-- After the ten shots no trigger is live and none can be registered. -/
theorem not_finished_frees :
    ¬ ∀ (ops : List (Op Unit Unit)) (s : TimerRun Unit Unit) (r : Registration Unit Unit),
      exec timerStep (timerInit (zeroManage Unit Unit)) ops = some s →
        s.manage.liveCount < systemTimeMaxTriggers →
          (s.manage.registerEventTrigger r).1.isSome := by
  intro h
  have hsome := h tenShots _ ⟨10, 1, some (), none, 1⟩ rfl (by decide)
  exact absurd hsome (by decide)

end Stm32Handler.App
