import Stm32Handler.App.I2cMonitor
import Stm32Handler.Lib.Run

/-!
# Output pins converge to the last request

`pcf8574_write_io` leaves its request in a shadow byte and an event without
data in the queue. While every send and every write to the chip succeeds, an
update that has not reached the chip has left something behind: its caller
before the send, an event in the queue, or the task before it reads the
shadow. A byte the task has read but not written is the shadow or has such a
trace behind it.
-/

namespace Stm32Handler.App

/-- The status of the last executed write to a pin. -/
def lastStatus (executed : List (Byte × Byte)) (p : OutputPin) : Option Byte :=
  ((executed.filter fun w => w.1 = p.number).map Prod.snd).getLast?

/-- The level an active-low pin is to have: high until a write says `IO_ON`. -/
def requested (executed : List (Byte × Byte)) (p : OutputPin) : Bool :=
  match lastStatus executed p with
  | none => true
  | some status => status ≠ ioOn

namespace MonitorState

variable {ω : Type*}

/-- The write that an action executes: a caller's, or that of the sensor's branch. -/
def executes (s : MonitorState ω) : MonitorAct ω → List (Byte × Byte)
  | .update _ pin status => [(pin, status)]
  | .task _ =>
    match s.task with
    | .readBeep => [(OutputPin.beep.number, if 500 < s.ap3216.ps then ioOn else ioOff)]
    | _ => []
  | .isr | .post _ | .timer => []

theorem trigger_executed (s : MonitorState ω) (e : I2cEvent) : (s.trigger e).executed = s.executed := by
  unfold trigger
  split <;> rfl

/-- `executed` is what the actions of the run executed. -/
theorem executed_history [DecidableEq ω] {s s' : MonitorState ω} {acts : List (MonitorAct ω)}
    (hrun : exec monitorStep s acts = some s') :
    s'.executed = s.executed ++ history monitorStep executes s acts := by
  refine exec_history (show ∀ s a s', monitorStep s a = some s' →
    s'.executed = s.executed ++ executes s a from ?_) hrun
  intro s a s' hs
  cases a with
  | isr =>
    simp only [monitorStep, isrStep, Option.ite_none_right_eq_some, Option.some.injEq] at hs
    obtain ⟨-, rfl⟩ := hs
    exact (trigger_executed s _).trans (List.append_nil _).symm
  | update w pin status =>
    simp only [monitorStep, Option.ite_none_right_eq_some, Option.some.injEq] at hs
    obtain ⟨-, rfl⟩ := hs
    rfl
  | post w =>
    simp only [monitorStep, Option.ite_none_right_eq_some, Option.some.injEq] at hs
    obtain ⟨-, rfl⟩ := hs
    exact (trigger_executed s _).trans (List.append_nil _).symm
  | task replies =>
    have hcases := taskStep_cases hs
    unfold executes
    cases hcases with
    | readBeep htask =>
      simp only [monitorStep, taskStep, htask, Option.some.injEq] at hs
      rw [← hs]
      simp only [htask]
      rfl
    | readPost htask =>
      simp only [htask]
      exact (trigger_executed s _).trans (List.append_nil _).symm
    | receive htask hqueue | writeRead htask | writeChip htask | readChip htask hnext | readSensor htask
    | readEnable htask | delayRemove htask hidle | delayRegister htask hidle | refresh htask =>
      simp only [htask, List.append_nil]
  | timer =>
    cases hs
    show s.timerStep.executed = _
    unfold MonitorState.timerStep
    cases htimer : s.timer with
    | idle => exact (List.append_nil _).symm
    | slot i =>
      simp only
      split <;> exact (List.append_nil _).symm
    | post i e => exact (trigger_executed s _).trans (List.append_nil _).symm

/-- Every send finds room and every byte given to `pcf8574_i2c_write` reaches
the chip. -/
def Succeeds (s : MonitorState ω) : MonitorAct ω → Prop
  | .isr => s.queue.length < i2cMonitorMaxQueue
  | .post _ => s.queue.length < i2cMonitorMaxQueue
  | .task replies =>
    match s.task with
    | .writeChip _ => replies.writeOk = true
    | .readPost => s.queue.length < i2cMonitorMaxQueue
    | _ => True
  | .timer =>
    match s.timer with
    | .post _ _ => s.queue.length < i2cMonitorMaxQueue
    | _ => True
  | .update .. => True

instance (s : MonitorState ω) : (a : MonitorAct ω) → Decidable (s.Succeeds a)
  | .isr | .post _ => inferInstanceAs (Decidable (s.queue.length < i2cMonitorMaxQueue))
  | .update .. => isTrue trivial
  | .task replies =>
    match h : s.task with
    | .writeChip _ => decidable_of_iff (replies.writeOk = true) (by simp [Succeeds, h])
    | .readPost =>
      decidable_of_iff (s.queue.length < i2cMonitorMaxQueue) (by simp [Succeeds, h])
    | .receive | .writeRead | .readChip | .readSensor | .readBeep | .readEnable | .delayRemove
    | .delayRegister | .refresh => isTrue (by simp [Succeeds, h])
  | .timer =>
    match h : s.timer with
    | .post _ _ =>
      decidable_of_iff (s.queue.length < i2cMonitorMaxQueue) (by simp [Succeeds, h])
    | .idle | .slot _ => isTrue (by simp [Succeeds, h])

/-- A write request is on its way to the task. -/
def Requested (s : MonitorState ω) : Prop :=
  .chipWrite ∈ s.queue ∨ s.task = .writeRead ∨ s.task = .readPost ∨ ∃ w, s.caller w = .post

/-- The byte last written is the shadow; before the first write no request
was made. -/
def Current (s : MonitorState ω) : Prop :=
  s.written.getLast? = some s.writeData.data ∨ (s.written = [] ∧ s.executed = [])

/-- No write event is queued or being handled, and no caller is between its
update and its send. -/
def Quiet (s : MonitorState ω) : Prop :=
  .chipWrite ∉ s.queue ∧ s.task ≠ .writeRead ∧ (∀ b, s.task ≠ .writeChip b) ∧
    s.task ≠ .readPost ∧ ∀ w, s.caller w ≠ .post

structure ShadowInv (s : MonitorState ω) : Prop where
  shadow : ∀ p, s.writeData.get p = requested s.executed p
  arriving : s.Requested ∨
    match s.task with
    | .writeChip b => b = s.writeData.data
    | _ => s.Current

end MonitorState

theorem requested_append (executed : List (Byte × Byte)) (pin status : Byte) (p : OutputPin) :
    requested (executed ++ [(pin, status)]) p =
      if pin = p.number then decide (status ≠ ioOn) else requested executed p := by
  unfold requested lastStatus
  by_cases h : pin = p.number <;> simp [h]

namespace MonitorState

variable {ω : Type*}

theorem trigger_of_room {s : MonitorState ω} (h : s.queue.length < i2cMonitorMaxQueue)
    (e : I2cEvent) : s.trigger e = { s with queue := s.queue ++ [e] } := by
  simp only [trigger, h, ↓reduceIte]

/-- The shadow follows every executed write, whatever pin it names. -/
theorem ShadowInv.writeIo {s : MonitorState ω} (h : s.ShadowInv) (pin status : Byte)
    (p : OutputPin) : (s.writeIo pin status).writeData.get p =
      requested (s.writeIo pin status).executed p := by
  simp only [MonitorState.writeIo, Pc8574Io.get_write, requested_append, h.shadow p]

/-- A step of the task outside the write branches: what was requested is still
on its way, and the chip has what it had. -/
theorem ShadowInv.of_same {s s' : MonitorState ω} (h : s.ShadowInv)
    (htask : ∀ b, s.task ≠ .writeChip b) (htask' : ∀ b, s'.task ≠ .writeChip b)
    (hdata : s'.writeData = s.writeData) (hexec : s'.executed = s.executed)
    (hwritten : s'.written = s.written) (hreq : s.Requested → s'.Requested) : s'.ShadowInv := by
  refine ⟨by rw [hdata, hexec]; exact h.shadow, ?_⟩
  rcases h.arriving with hr | hc
  · exact .inl (hreq hr)
  · right
    have hcur : s.Current := by
      revert hc
      split
      · rename_i b hb
        exact absurd hb (htask b)
      · exact id
    have hcur' : s'.Current := by
      unfold Current at hcur ⊢
      rwa [hwritten, hdata, hexec]
    split
    · rename_i b hb
      exact absurd hb (htask' b)
    · exact hcur'

/-- The statements without a write request in hand. -/
def Elsewhere (task : TaskPc) : Prop :=
  task ≠ .writeRead ∧ task ≠ .readPost ∧ ∀ b, task ≠ .writeChip b

/-- The same, where neither the queue nor the callers have changed. -/
theorem ShadowInv.elsewhere {s s' : MonitorState ω} {task : TaskPc} (h : s.ShadowInv)
    (htask : s.task = task) (hbefore : Elsewhere task) (htask' : ∀ b, s'.task ≠ .writeChip b)
    (hdata : s'.writeData = s.writeData) (hexec : s'.executed = s.executed)
    (hwritten : s'.written = s.written) (hqueue : s'.queue = s.queue)
    (hcaller : s'.caller = s.caller) : s'.ShadowInv := by
  subst htask
  obtain ⟨hread, hpost, hchip⟩ := hbefore
  apply h.of_same hchip htask' hdata hexec hwritten
  rintro (hmem | he | he | hc)
  · exact .inl (hqueue ▸ hmem)
  · exact absurd he hread
  · exact absurd he hpost
  · exact .inr (.inr (.inr (hcaller ▸ hc)))

/-- The task takes an event: a write event becomes the task's own state. -/
theorem ShadowInv.receive {s : MonitorState ω} (h : s.ShadowInv) (htask : s.task = .receive)
    {e : I2cEvent} {queue : List I2cEvent} (hq : s.queue = e :: queue) :
    ShadowInv { s with queue, task := e.handler } := by
  refine h.of_same (by simp [htask]) (by cases e <;> simp [I2cEvent.handler]) rfl rfl rfl ?_
  rintro (hmem | hw | hp | hc)
  · rw [hq, List.mem_cons] at hmem
    rcases hmem with rfl | hmem
    · exact .inr (.inl rfl)
    · exact .inl hmem
  · rw [htask] at hw
    cases hw
  · rw [htask] at hp
    cases hp
  · exact .inr (.inr (.inr hc))

/-- The byte reaches the chip. -/
theorem ShadowInv.writeChip {s : MonitorState ω} {b : Byte} (h : s.ShadowInv)
    (htask : s.task = .writeChip b) :
    ShadowInv { s with written := s.written ++ [b], task := .receive } := by
  refine ⟨h.shadow, ?_⟩
  rcases h.arriving with (hmem | he | he | hpost) | hb
  · exact .inl (.inl hmem)
  · rw [htask] at he
    cases he
  · rw [htask] at he
    cases he
  · exact .inl (.inr (.inr (.inr hpost)))
  · simp only [htask] at hb
    refine .inr (.inl ?_)
    rw [List.getLast?_concat, hb]

theorem ShadowInv.taskStep {s s' : MonitorState ω} {replies : I2cReplies} (h : s.ShadowInv)
    (hok : s.Succeeds (.task replies)) (hs : s.taskStep replies = some s') : s'.ShadowInv := by
  unfold Succeeds at hok
  cases taskStep_cases hs with
  | receive htask hq => exact h.receive htask hq
  | writeRead htask => exact ⟨h.shadow, .inr rfl⟩
  | writeChip htask =>
    simp only [htask] at hok
    simp only [hok, ↓reduceIte]
    exact h.writeChip htask
  | readChip htask hnext =>
    refine h.elsewhere htask ⟨nofun, nofun, nofun⟩ ?_ rfl rfl rfl rfl rfl
    rcases hnext with rfl | rfl
    · exact nofun
    · exact nofun
  | readBeep htask => exact ⟨h.writeIo _ _, .inl (.inr (.inr (.inl rfl)))⟩
  | readPost htask =>
    simp only [htask] at hok
    rw [trigger_of_room hok]
    exact ⟨h.shadow, .inl (.inl (List.mem_append_right _ (List.mem_singleton_self _)))⟩
  | readSensor htask | readEnable htask | delayRemove htask hidle | delayRegister htask hidle
  | refresh htask => exact h.elsewhere htask ⟨nofun, nofun, nofun⟩ nofun rfl rfl rfl rfl rfl

/-- A send of another event leaves the requests alone. -/
theorem ShadowInv.send {s : MonitorState ω} (h : s.ShadowInv)
    (hroom : s.queue.length < i2cMonitorMaxQueue) (e : I2cEvent) : (s.trigger e).ShadowInv := by
  rw [trigger_of_room hroom]
  refine ⟨h.shadow, ?_⟩
  rcases h.arriving with (hmem | he | he | hpost) | hc
  · exact .inl (.inl (List.mem_append_left _ hmem))
  · exact .inl (.inr (.inl he))
  · exact .inl (.inr (.inr (.inl he)))
  · exact .inl (.inr (.inr (.inr hpost)))
  · exact .inr hc

/-- The parts of the state that the shadow's account does not look at. -/
theorem ShadowInv.frame {s : MonitorState ω} (h : s.ShadowInv) (exti : Bool)
    (timers : SysTimeManage Unit Unit) (timer : TimerPc) :
    ShadowInv { s with exti, timers, timer } :=
  ⟨h.shadow, h.arriving⟩

theorem ShadowInv.timerStep {s : MonitorState ω} (h : s.ShadowInv) (hok : s.Succeeds .timer) :
    s.timerStep.ShadowInv := by
  unfold MonitorState.timerStep
  unfold Succeeds at hok
  cases htimer : s.timer with
  | idle => exact h.frame s.exti s.timers _
  | slot i =>
    simp only
    split
    · exact h.frame s.exti _ _
    · exact h.frame s.exti s.timers _
  | post i e =>
    simp only [htimer] at hok
    exact (h.send hok e).frame _ _ _

variable [DecidableEq ω]

theorem ShadowInv.step {s s' : MonitorState ω} {a : MonitorAct ω} (h : s.ShadowInv)
    (hok : s.Succeeds a) (hs : monitorStep s a = some s') : s'.ShadowInv := by
  cases a with
  | isr =>
    simp only [monitorStep, isrStep, Option.ite_none_right_eq_some, Option.some.injEq] at hs
    obtain ⟨-, rfl⟩ := hs
    exact (h.send hok _).frame _ _ _
  | update w pin status =>
    simp only [monitorStep, Option.ite_none_right_eq_some, Option.some.injEq] at hs
    obtain ⟨-, rfl⟩ := hs
    exact ⟨h.writeIo pin status, .inl (.inr (.inr (.inr ⟨w, Function.update_self ..⟩)))⟩
  | post w =>
    simp only [monitorStep, Option.ite_none_right_eq_some, Option.some.injEq] at hs
    obtain ⟨-, rfl⟩ := hs
    rw [trigger_of_room hok]
    exact ⟨h.shadow, .inl (.inl (List.mem_append_right _ (List.mem_singleton_self _)))⟩
  | task replies => exact h.taskStep hok hs
  | timer =>
    cases hs
    exact h.timerStep hok

omit [DecidableEq ω] in
theorem ShadowInv.current {s : MonitorState ω} (h : s.ShadowInv) (hquiet : s.Quiet) :
    s.Current := by
  obtain ⟨hq, hw, hb, hp, hc⟩ := hquiet
  rcases h.arriving with (hmem | he | he | ⟨w, hpost⟩) | hcur
  · exact absurd hmem hq
  · exact absurd he hw
  · exact absurd he hp
  · exact absurd hpost (hc w)
  · revert hcur
    split
    · rename_i b htask
      exact absurd htask (hb b)
    · exact id

end MonitorState

end Stm32Handler.App
