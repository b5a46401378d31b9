import Stm32Handler.Lib.Run
import Stm32Handler.Rtos.Mutex

/-!
# `print_log` and its static buffer

`print_log` formats into the static `LoggerMaxBuffer` between `logger_protect`
and `logger_unprotect`. Both read `is_multi_thread_run` on their own: with the
flag clear they return at once, with the flag set they take and give the
mutex. `logger_set_multi_thread_run` sets the flag, once, from the monitor
task.

A task is three steps (`protect`, `format`, `unprotect`); a `protect` that
finds the mutex taken can also time out, and the task leaves `print_log`
without formatting. `Settled` is the condition under which the two reads agree:
no task enters on a clear flag while another is inside, and the flag is set
while nobody is inside.
-/

namespace Stm32Handler.Logger

open Stm32Handler.Rtos

/-- Where a task is in `print_log`. -/
inductive PrintPc where
  /-- outside, or before `logger_protect` -/
  | idle
  /-- `logger_protect` returned `GLOBAL_OK` -/
  | inside
  /-- the message is formatted, `logger_unprotect` is next -/
  | formatted (text : List UInt8)

/-- Between a successful `logger_protect` and `logger_unprotect`. -/
def PrintPc.Busy : PrintPc → Prop
  | .idle => False
  | _ => True

structure PrintState (τ : Type*) where
  isMultiThreadRun : Bool
  protect : Mutex τ
  loggerMaxBuffer : List UInt8
  pc : τ → PrintPc

inductive PrintAct (τ : Type*) where
  | protect (t : τ)
  | timeout (t : τ)
  | format (t : τ) (text : List UInt8)
  | unprotect (t : τ)
  | setMulti

section

variable {τ : Type*} [DecidableEq τ]

/-- `logger_protect`: `none` while the task has to wait for the mutex. -/
def loggerProtect (s : PrintState τ) (t : τ) : Option (PrintState τ) :=
  if s.isMultiThreadRun then
    (s.protect.take t).map fun m => { s with protect := m, pc := Function.update s.pc t .inside }
  else some { s with pc := Function.update s.pc t .inside }

/-- `logger_unprotect`. -/
def loggerUnprotect (s : PrintState τ) (t : τ) : PrintState τ :=
  { s with
    protect := if s.isMultiThreadRun then s.protect.give t else s.protect
    pc := Function.update s.pc t .idle }

/-- One step, unless an assertion has stopped the system. -/
def printStep (s : PrintState τ) (a : PrintAct τ) : Option (PrintState τ) :=
  if s.protect.halted then none else
  match a with
  | .protect t =>
    match s.pc t with
    | .idle => loggerProtect s t
    | _ => none
  | .timeout t =>
    match s.pc t with
    | .idle => if s.isMultiThreadRun ∧ s.protect.holder.isSome then some s else none
    | _ => none
  | .format t text =>
    match s.pc t with
    | .inside =>
      some { s with loggerMaxBuffer := text, pc := Function.update s.pc t (.formatted text) }
    | _ => none
  | .unprotect t =>
    match s.pc t with
    | .formatted _ => some (loggerUnprotect s t)
    | _ => none
  | .setMulti => if s.isMultiThreadRun then none else some { s with isMultiThreadRun := true }

/-- After `logger_init`, with every task outside `print_log`. -/
def printInit : PrintState τ :=
  { isMultiThreadRun := false, protect := .create, loggerMaxBuffer := [], pc := fun _ => .idle }

/-- At most one task is between its `logger_protect` and its
`logger_unprotect`, and only the holder has given the mutex. -/
def PrintGood (s : PrintState τ) : Prop :=
  (∀ t u, (s.pc t).Busy → (s.pc u).Busy → t = u) ∧ s.protect.WellGiven

/-- The flag is clear only while at most one task uses `print_log`, and it is
set while none does. -/
def Settled (s : PrintState τ) : PrintAct τ → Prop
  | .protect _ => s.isMultiThreadRun = false → ∀ u, ¬ (s.pc u).Busy
  | .setMulti => ∀ u, ¬ (s.pc u).Busy
  | _ => True

/-! ## The invariant -/

structure PrintInv (s : PrintState τ) : Prop where
  exclusive : ∀ t u, (s.pc t).Busy → (s.pc u).Busy → t = u
  unused : s.isMultiThreadRun = false → s.protect.holder = none
  owned : s.isMultiThreadRun = true → s.protect.Owns fun t => (s.pc t).Busy
  given : s.protect.WellGiven
  buffer : ∀ t text, s.pc t = .formatted text → s.loggerMaxBuffer = text

/-- A task other than the one that moved was busy before. -/
theorem busy_of_update {pc : τ → PrintPc} {t u : τ} {p : PrintPc}
    (h : (Function.update pc t p u).Busy) : u = t ∨ (pc u).Busy := by
  rcases (Function.pred_update (fun _ q => q.Busy) pc t p u).1 h with ⟨hu, -⟩ | ⟨-, hbusy⟩
  · exact .inl hu
  · exact .inr hbusy

omit [DecidableEq τ] in
theorem printInit_inv : PrintInv (printInit : PrintState τ) where
  exclusive _ _ h := h.elim
  unused _ := rfl
  owned h := by cases h
  given := Mutex.create_wellGiven
  buffer _ _ h := by cases h

/-- A task that enters an empty section is alone in it. -/
theorem printInv_enter {s : PrintState τ} {t : τ}
    (hnone : ∀ u, ¬ (s.pc u).Busy) {m : Mutex τ} (hgiven : m.WellGiven)
    (hunused : s.isMultiThreadRun = false → m.holder = none)
    (howned : s.isMultiThreadRun = true → m.holder = some t) :
    PrintInv { s with protect := m, pc := Function.update s.pc t .inside } := by
  have honly : ∀ u, (Function.update s.pc t .inside u).Busy → u = t := fun u hu =>
    (busy_of_update hu).resolve_right (hnone u)
  refine ⟨fun u v hu hv => (honly u hu).trans (honly v hv).symm, hunused, fun hmt u hu => ?_, hgiven,
    fun u text hu => ?_⟩
  · rw [honly u hu]
    exact howned hmt
  · have hut : u = t := honly u (by simp only at hu; rw [hu]; trivial)
    subst hut
    simp at hu

theorem printInv_protect {s s' : PrintState τ} (h : PrintInv s) {t : τ}
    (hset : Settled s (.protect t)) (hs : loggerProtect s t = some s') : PrintInv s' := by
  unfold loggerProtect at hs
  split at hs
  · next hmt =>
    obtain ⟨m, hm, rfl⟩ := Option.map_eq_some_iff.1 hs
    obtain ⟨hfree, rfl⟩ := Mutex.take_eq_some.1 hm
    have hnone : ∀ u, ¬ (s.pc u).Busy := fun u hu => by
      have := h.owned hmt u hu
      rw [hfree] at this
      cases this
    exact printInv_enter hnone h.given (fun e => by rw [hmt] at e; cases e) fun _ => rfl
  · next hmt =>
    cases hs
    have hmt := Bool.eq_false_iff.2 hmt
    exact printInv_enter (hset hmt) h.given (fun _ => h.unused hmt) fun e => by
      rw [hmt] at e; cases e

theorem printInv_format {s : PrintState τ} (h : PrintInv s) {t : τ} (ht : s.pc t = .inside)
    (text : List UInt8) :
    PrintInv { s with loggerMaxBuffer := text, pc := Function.update s.pc t (.formatted text) } := by
  have hbusy : ∀ u, (Function.update s.pc t (.formatted text) u).Busy → (s.pc u).Busy := fun u hu => by
    rcases busy_of_update hu with rfl | hu
    · rw [ht]; trivial
    · exact hu
  refine ⟨fun u v hu hv => h.exclusive u v (hbusy u hu) (hbusy v hv), h.unused,
    fun hmt u hu => h.owned hmt u (hbusy u hu), h.given, fun u txt hu => ?_⟩
  have hut : u = t := h.exclusive u t (hbusy u (by simp only at hu; rw [hu]; trivial))
    (by rw [ht]; trivial)
  subst hut
  simpa using hu

theorem printInv_unprotect {s : PrintState τ} (h : PrintInv s) {t : τ} {text : List UInt8}
    (ht : s.pc t = .formatted text) : PrintInv (loggerUnprotect s t) := by
  have htb : (s.pc t).Busy := by rw [ht]; trivial
  have hnone : ∀ u, ¬ (Function.update s.pc t .idle u).Busy := fun u hu => by
    rcases busy_of_update hu with rfl | hb
    · simp [PrintPc.Busy] at hu
    · have := h.exclusive u t hb htb
      subst this
      simp [PrintPc.Busy] at hu
  refine ⟨fun u _ hu => absurd hu (hnone u), fun hmt => ?_, fun _ u hu => absurd hu (hnone u), ?_,
    fun u txt hu => ?_⟩
  · simp only [loggerUnprotect] at hmt ⊢
    rw [if_neg (by rw [hmt]; exact Bool.false_ne_true)]
    exact h.unused hmt
  · simp only [loggerUnprotect]
    split
    · next hmt => exact (Mutex.give_of_holder (h.owned hmt t htb) h.given).2.1
    · exact h.given
  · exact absurd (by simp only [loggerUnprotect] at hu; rw [hu]; trivial) (hnone u)

theorem printInv_step {s s' : PrintState τ} {a : PrintAct τ} (h : PrintInv s) (hset : Settled s a)
    (hs : printStep s a = some s') : PrintInv s' := by
  unfold printStep at hs
  split at hs
  · cases hs
  cases a with
  | protect t =>
    simp only at hs
    split at hs
    · exact printInv_protect h hset hs
    · cases hs
  | timeout t =>
    simp only at hs
    split at hs
    · simp only [Option.ite_none_right_eq_some, Option.some.injEq] at hs
      obtain ⟨-, rfl⟩ := hs
      exact h
    · cases hs
  | format t text =>
    simp only at hs
    split at hs
    · next ht =>
      cases hs
      exact printInv_format h ht text
    · cases hs
  | unprotect t =>
    simp only at hs
    split at hs
    · next text ht =>
      cases hs
      exact printInv_unprotect h ht
    · cases hs
  | setMulti =>
    simp only at hs
    split at hs
    · cases hs
    · cases hs
      exact ⟨h.exclusive, nofun, fun _ u hu => absurd hu (hset u), h.given, h.buffer⟩

/-! ## Runs -/

theorem print_settled_inv {acts : List (PrintAct τ)} {s : PrintState τ}
    (hset : Along printStep Settled printInit acts) (hrun : exec printStep printInit acts = some s) :
    PrintInv s :=
  exec_inv (fun _ _ _ h hc hs => printInv_step h hc hs) printInit_inv hset hrun

/-- **Settled runs own the buffer exclusively**: if no task enters on a clear
flag while another is inside and the flag is set while nobody is inside, then
at most one task is ever inside and only the holder gives the mutex. -/
theorem print_settled_good (acts : List (PrintAct τ)) (s : PrintState τ)
    (hset : Along printStep Settled printInit acts) (hrun : exec printStep printInit acts = some s) :
    PrintGood s :=
  have h := print_settled_inv hset hrun
  ⟨h.exclusive, h.given⟩

/-- The flag is set before the first message, then two tasks print in turn. -/
theorem print_settled_good_two :
    ∃ s, exec printStep (printInit : PrintState Bool)
        [.setMulti, .protect true, .format true [1], .unprotect true, .protect false] = some s ∧
      PrintGood s := by
  refine ⟨_, rfl, print_settled_good [.setMulti, .protect true, .format true [1], .unprotect true,
    .protect false] _ ?_ rfl⟩
  refine (along_cons rfl).2 ⟨fun _ => id, (along_cons rfl).2 ⟨nofun, ?_⟩⟩
  exact (along_cons rfl).2 ⟨trivial, (along_cons rfl).2 ⟨trivial, (along_cons rfl).2 ⟨nofun, trivial⟩⟩⟩

/-- The monitor task sets the flag while a task is inside on the clear flag:
the next task takes the free mutex and is inside as well. -/
theorem print_switch_two_inside :
    ¬ ∀ (acts : List (PrintAct Bool)) (s : PrintState Bool),
      exec printStep printInit acts = some s → PrintGood s := by
  intro h
  have hgood := h [.protect true, .setMulti, .protect false] _ rfl
  exact absurd (hgood.1 true false trivial trivial) (by decide)

/-- In a settled run the buffer holds a task's message until the task lets go of it. -/
theorem print_settled_buffer {acts : List (PrintAct τ)} {s : PrintState τ}
    (hset : Along printStep Settled printInit acts) (hrun : exec printStep printInit acts = some s)
    {t : τ} {text : List UInt8} (ht : s.pc t = .formatted text) : s.loggerMaxBuffer = text :=
  (print_settled_inv hset hrun).buffer t text ht

/-! ## What an unsettled step does -/

/-- Entering on a clear flag next to a busy task: two tasks are inside. -/
theorem protect_unsettled_bad {s s' : PrintState τ} {t : τ} (ht : s.pc t = .idle)
    (hset : ¬ Settled s (.protect t)) (hs : loggerProtect s t = some s') : ¬ PrintGood s' := by
  simp only [Settled, not_forall, not_not] at hset
  obtain ⟨hmt, u, hu⟩ := hset
  simp only [loggerProtect, hmt, Bool.false_eq_true, ↓reduceIte, Option.some.injEq] at hs
  subst hs
  have hne : u ≠ t := fun e => by rw [e, ht] at hu; exact hu
  intro hgood
  refine hne (hgood.1 u t ?_ ?_)
  · simpa only [Function.update_of_ne hne] using hu
  · simp [PrintPc.Busy]

/-- Setting the flag while a task is inside: that task gives a mutex it never
took. -/
theorem setMulti_unsettled_bad {s : PrintState τ} (h : PrintInv s) (hmt : s.isMultiThreadRun = false)
    (t : τ) : ¬ PrintGood (loggerUnprotect { s with isMultiThreadRun := true } t) := by
  intro hgood
  have hgiven := hgood.2
  simp only [loggerUnprotect, ↓reduceIte] at hgiven
  exact Mutex.not_wellGiven_give (by rw [h.unused hmt]; exact nofun) hgiven

end

end Stm32Handler.Logger
