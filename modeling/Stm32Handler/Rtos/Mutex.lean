import Mathlib.Data.List.Basic
import Mathlib.Logic.Function.Basic

/-!
# The FreeRTOS mutex

A semaphore made by `xSemaphoreCreateMutex`, as `queue.c` and `tasks.c` treat
it once the scheduler runs: a take records the running task as holder, a give
of an available mutex is refused (`errQUEUE_FULL`), and a give by a task other
than the holder trips `configASSERT(pxTCB == pxCurrentTCB)` in
`xTaskPriorityDisinherit`, which stops the system with interrupts disabled.

`gives` records every `xSemaphoreGive` with the holder it met. `Owns m inside`
says every task inside the protected section holds the mutex; it is what makes
the section exclusive.
-/

namespace Stm32Handler.Rtos

structure Mutex (τ : Type*) where
  /-- `xMutexHolder`, none while the mutex is available -/
  holder : Option τ
  /-- every `xSemaphoreGive` so far: the caller and the holder at that moment -/
  gives : List (τ × Option τ)
  /-- the assertion fired -/
  halted : Bool

namespace Mutex

variable {τ : Type*}

/-- `xSemaphoreCreateMutex`. -/
def create : Mutex τ := { holder := none, gives := [], halted := false }

/-- `xSemaphoreTake` by `t`; `none` while another task holds the mutex. -/
def take (m : Mutex τ) (t : τ) : Option (Mutex τ) :=
  match m.holder with
  | none => some { m with holder := some t }
  | some _ => none

/-- `xSemaphoreGive` by `t`. -/
def give [DecidableEq τ] (m : Mutex τ) (t : τ) : Mutex τ :=
  { holder := if m.holder = some t then none else m.holder
    gives := m.gives ++ [(t, m.holder)]
    halted := m.halted || (m.holder.isSome && m.holder ≠ some t) }

/-- Every give was executed by the task that held the mutex. -/
def WellGiven (m : Mutex τ) : Prop := ∀ g ∈ m.gives, g.2 = some g.1

/-- Every task of the protected section holds the mutex. -/
def Owns (m : Mutex τ) (inside : τ → Prop) : Prop := ∀ t, inside t → m.holder = some t

theorem take_eq_some {m m' : Mutex τ} {t : τ} :
    m.take t = some m' ↔ m.holder = none ∧ m' = { m with holder := some t } := by
  unfold take
  split
  · next h => simp [h, eq_comm]
  · next h => simp [h]

theorem create_wellGiven : (create : Mutex τ).WellGiven := fun _ h => by cases h

/-- At most one task is in an owned section. -/
theorem Owns.exclusive {m : Mutex τ} {inside : τ → Prop} (h : m.Owns inside) {t u : τ}
    (ht : inside t) (hu : inside u) : t = u := by
  have := (h t ht).symm.trans (h u hu)
  exact Option.some.inj this

/-- Whoever enters an owned section with the mutex finds it empty. -/
theorem Owns.take {m m' : Mutex τ} {inside inside' : τ → Prop} {t : τ} (h : m.Owns inside)
    (ht : m.take t = some m') (hin : ∀ u, inside' u → u = t ∨ inside u) : m'.Owns inside' := by
  obtain ⟨hfree, rfl⟩ := take_eq_some.1 ht
  intro u hu
  rcases hin u hu with rfl | hu
  · rfl
  · have := h u hu
    rw [hfree] at this
    cases this

variable [DecidableEq τ]

/-- A give by the holder: the mutex is available again and the record is clean. -/
theorem give_of_holder {m : Mutex τ} {t : τ} (h : m.holder = some t) (hw : m.WellGiven) :
    (m.give t).holder = none ∧ (m.give t).WellGiven ∧ (m.give t).halted = m.halted := by
  refine ⟨by simp [give, h], fun g hg => ?_, by simp [give, h]⟩
  simp only [give, List.mem_append, List.mem_singleton] at hg
  rcases hg with hg | rfl
  · exact hw g hg
  · exact h

/-- A give by a task that does not hold the mutex is on record. -/
theorem not_wellGiven_give {m : Mutex τ} {t : τ} (h : m.holder ≠ some t) :
    ¬ (m.give t).WellGiven := by
  intro hw
  exact h (hw (t, m.holder) (by simp [give]))

/-- When the holder leaves the section and gives, the section is empty. -/
theorem Owns.give {m : Mutex τ} {inside inside' : τ → Prop} {t : τ} (h : m.Owns inside)
    (ht : inside t) (hin : ∀ u, inside' u → u ≠ t ∧ inside u) : (m.give t).Owns inside' := by
  intro u hu
  obtain ⟨hne, hu⟩ := hin u hu
  exact absurd (h.exclusive hu ht) hne

end Mutex

end Stm32Handler.Rtos
