import Stm32Handler.App.I2cMonitor
import Stm32Handler.App.TriggerSchedule

/-!
# Who re-enables the expander's interrupt

`EXTI15_10_IRQHandler` disables the interrupt and the handling of
`I2C_EVENT_IO_CHIP_READ` enables it again. In between one token travels: the
`DELAY_READ` event, the task that registers the one-shot trigger, the trigger
itself, the timer callback that posts `CHIP_READ`, that event, the task that
handles it. While no post of the token meets a full queue, there is exactly
one of "the interrupt is enabled" and a token; a post that does lose it leaves
the interrupt disabled for good.
-/

namespace Stm32Handler.App

def I2cEvent.isToken : I2cEvent → Bool
  | .delayRead | .chipRead => true
  | .chipWrite | .deviceRefresh => false

/-- The task is in the middle of handling a `DELAY_READ` or a `CHIP_READ`. -/
def TaskPc.hasToken : TaskPc → Bool
  | .readChip | .readSensor | .readBeep | .readPost | .readEnable => true
  | .delayRemove | .delayRegister => true
  | .receive | .writeRead | .writeChip _ | .refresh => false

/-- The timer callback is about to post `CHIP_READ`. -/
def TimerPc.hasToken : TimerPc → Bool
  | .post _ e => e.isToken
  | .idle | .slot _ => false

/-- The one-shot trigger is registered with remaining count. -/
def TimeTrigger.isDelay (t : TimeTrigger Unit Unit) : Bool :=
  t.used ≠ 0 ∧ t.triggerId = eventI2cIoDelay ∧ 0 < t.triggerCount

namespace MonitorState

variable {ω : Type*}

/-- Where a disabled interrupt is to be enabled from. -/
def Awake (s : MonitorState ω) : Prop :=
  s.exti = false →
    (.delayRead ∈ s.queue ∨ .chipRead ∈ s.queue) ∨
      (∃ t ∈ s.timers.triggerList, t.isDelay) ∨ s.task.hasToken ∨ s.timer.hasToken

/-- The handler's post and the callback's post of `CHIP_READ` find room. -/
def PostsToken (s : MonitorState ω) : MonitorAct ω → Prop
  | .isr => s.queue.length < i2cMonitorMaxQueue
  | .timer => s.timer.hasToken = true → s.queue.length < i2cMonitorMaxQueue
  | .update .. | .post _ | .task _ => True

instance (s : MonitorState ω) : (a : MonitorAct ω) → Decidable (s.PostsToken a)
  | .isr => inferInstanceAs (Decidable (s.queue.length < i2cMonitorMaxQueue))
  | .timer =>
    inferInstanceAs (Decidable (s.timer.hasToken = true → s.queue.length < i2cMonitorMaxQueue))
  | .update .. | .post _ | .task _ => isTrue trivial

def tokens (s : MonitorState ω) : ℕ :=
  s.queue.countP I2cEvent.isToken + s.timers.triggerList.countP TimeTrigger.isDelay +
    s.task.hasToken.toNat + s.timer.hasToken.toNat

theorem awake_iff (s : MonitorState ω) : s.Awake ↔ s.exti = false → 0 < s.tokens := by
  unfold Awake tokens
  refine imp_congr_right fun _ => ?_
  have hq : (.delayRead ∈ s.queue ∨ .chipRead ∈ s.queue) ↔ 0 < s.queue.countP I2cEvent.isToken := by
    rw [List.countP_pos_iff]
    constructor
    · rintro (h | h)
      · exact ⟨_, h, rfl⟩
      · exact ⟨_, h, rfl⟩
    · rintro ⟨e, he, htok⟩
      cases e with
      | delayRead => exact .inl he
      | chipRead => exact .inr he
      | chipWrite | deviceRefresh => cases htok
  have ht : (∃ t ∈ s.timers.triggerList, t.isDelay) ↔
      0 < s.timers.triggerList.countP TimeTrigger.isDelay := List.countP_pos_iff.symm
  have hb : ∀ b : Bool, b = true ↔ 0 < b.toNat := by decide
  rw [hq, ht, hb, hb s.timer.hasToken]
  omega

end MonitorState

/-! ## The trigger table of the running system -/

/-- The first slot has the device update, registered at start-up; the second
is the delay trigger's, `age` ticks old if it has been registered. -/
def layout (n : ℕ) (age : Option ℕ) : List (Slot Unit Unit) :=
  some (devUpdateTrigger, n) :: age.map (fun k => (ioDelayTrigger, k)) :: List.replicate 8 none

def HasLayout (m : SysTimeManage Unit Unit) (age : Option ℕ) : Prop :=
  ∃ n, TableHolds m.triggerList (layout n age)

/-- The delay trigger still counts at that age. -/
def pending (age : Option ℕ) : ℕ :=
  match age with
  | none => 0
  | some k => if k < 5 then 1 else 0

theorem ioDelayTrigger_remaining (k : ℕ) : ioDelayTrigger.remaining k = 1 - k / 5 := rfl

theorem ioDelayTrigger_due (k : ℕ) : ioDelayTrigger.due (k + 1) ↔ k = 4 := by
  rw [Registration.due_iff]
  have hp : ioDelayTrigger.period = 5 := rfl
  have hc : ioDelayTrigger.triggerCount.toNat = 1 := rfl
  have hf : ioDelayTrigger.triggerCount ≠ timerTriggerForever := by decide
  rw [hp, hc]
  constructor
  · rintro ⟨-, hdvd, he | hle⟩
    · exact absurd he hf
    · omega
  · rintro rfl
    exact ⟨by decide, by decide, .inr (by decide)⟩

def Slot.isDelay (s : Slot Unit Unit) : Bool :=
  s.any fun x => x.1.id = eventI2cIoDelay ∧ 0 < x.1.remaining x.2

theorem Holds.isDelay {t : TimeTrigger Unit Unit} {s : Slot Unit Unit} (h : Holds t s) :
    t.isDelay = Slot.isDelay s := by
  rcases s with - | ⟨r, n⟩
  · have hu : t.used = 0 := h
    simp [TimeTrigger.isDelay, Slot.isDelay, hu]
  · have hu : t.used ≠ 0 := Tracks.used_ne_zero h
    simp only [TimeTrigger.isDelay, Slot.isDelay, Option.any_some, hu, h.id, Tracks.pos_iff h, ne_eq,
      not_false_eq_true, true_and]

theorem TableHolds.countP_isDelay {ts : List (TimeTrigger Unit Unit)}
    {ss : List (Slot Unit Unit)} (h : TableHolds ts ss) :
    ts.countP TimeTrigger.isDelay = ss.countP Slot.isDelay := by
  induction h with
  | nil => rfl
  | cons ht hts ih => rw [List.countP_cons, List.countP_cons, ih, ht.isDelay]

theorem HasLayout.countP_isDelay {m : SysTimeManage Unit Unit} {age : Option ℕ}
    (h : HasLayout m age) : m.triggerList.countP TimeTrigger.isDelay = pending age := by
  obtain ⟨n, h⟩ := h
  rw [h.countP_isDelay]
  have hdev : Slot.isDelay (some (devUpdateTrigger, n)) = false := by
    simp only [Slot.isDelay, Option.any_some]
    exact decide_eq_false fun hand => absurd hand.1 (by decide)
  have hrest : (List.replicate 8 (none : Slot Unit Unit)).countP Slot.isDelay = 0 := rfl
  rw [layout, List.countP_cons, List.countP_cons, hrest, hdev]
  cases age with
  | none => rfl
  | some k =>
    have hid : ioDelayTrigger.id = eventI2cIoDelay := rfl
    have hpos : 0 < 1 - k / 5 ↔ k < 5 := by omega
    simp [Slot.isDelay, pending, ioDelayTrigger_remaining, hid, hpos]

theorem HasLayout.remove {m : SysTimeManage Unit Unit} {age : Option ℕ} (h : HasLayout m age) :
    HasLayout (m.removeEventTrigger eventI2cIoDelay) none := by
  obtain ⟨n, h⟩ := h
  refine ⟨n, ?_⟩
  have hslots : (layout n age).map (Slot.without eventI2cIoDelay) = layout n none := by
    cases age <;> rfl
  rw [← hslots]
  exact TableHolds.remove h eventI2cIoDelay

theorem HasLayout.register {m : SysTimeManage Unit Unit} (h : HasLayout m none) :
    HasLayout (m.registerEventTrigger ioDelayTrigger).2 (some 0) := by
  obtain ⟨n, h⟩ := h
  exact ⟨n, (TableHolds.register h ioDelayTrigger 0).2⟩

theorem monitorInit_layout {ω : Type*} (m : SysTimeManage Unit Unit) (read : Byte)
    (info : Ap3216cInfo) : HasLayout (monitorInit ω m read info).timers none := by
  have h := (init_holds m).remove eventI2cDevUpdate
  exact ⟨0, (TableHolds.register h devUpdateTrigger 0).2⟩

theorem afterSlot_hasToken (i : ℕ) (calls : List (Call Unit)) :
    (MonitorState.afterSlot i calls).hasToken =
      (calls.filterMap i2cTriggerFunc).head?.any I2cEvent.isToken := by
  unfold MonitorState.afterSlot
  cases calls.filterMap i2cTriggerFunc <;> rfl

theorem afterSlot_devUpdate (i n : ℕ) (mem : Unit → BitVec 32) :
    (MonitorState.afterSlot i (Slot.calls mem (some (devUpdateTrigger, n)))).hasToken = false := by
  simp only [Slot.calls, afterSlot_hasToken]
  split <;> rfl

theorem afterSlot_ioDelay (i k : ℕ) (mem : Unit → BitVec 32) :
    (MonitorState.afterSlot i (Slot.calls mem (some (ioDelayTrigger, k)))).hasToken =
      decide (k = 4) := by
  simp only [Slot.calls, ioDelayTrigger_due, afterSlot_hasToken]
  by_cases hk : k = 4
  · rw [if_pos hk, decide_eq_true hk]
    rfl
  · rw [if_neg hk, decide_eq_false hk]
    rfl

/-- A round of the loop posts `CHIP_READ` exactly when the delay trigger's
count runs out. -/
theorem HasLayout.processSlot {m : SysTimeManage Unit Unit} {age : Option ℕ}
    (h : HasLayout m age) {i : ℕ} (hi : i < systemTimeMaxTriggers) (mem : Unit → BitVec 32) :
    ∃ age', HasLayout (m.processSlot i mem).2 age' ∧ (age = none → age' = none) ∧
      pending age' + (MonitorState.afterSlot i (m.processSlot i mem).1).hasToken.toNat =
        pending age := by
  obtain ⟨n, h⟩ := h
  match i with
  | 0 =>
    obtain ⟨hcalls, hholds⟩ := TableHolds.processSlot h (i := 0) rfl mem
    refine ⟨age, ⟨n + 1, hholds⟩, id, ?_⟩
    rw [hcalls, afterSlot_devUpdate]
    rfl
  | 1 =>
    obtain ⟨hcalls, hholds⟩ := TableHolds.processSlot h (i := 1) rfl mem
    cases age with
    | none =>
      refine ⟨none, ⟨n, hholds⟩, id, ?_⟩
      rw [hcalls]
      rfl
    | some k =>
      refine ⟨some (k + 1), ⟨n, hholds⟩, nofun, ?_⟩
      rw [hcalls]
      simp only [Option.map_some, afterSlot_ioDelay, pending]
      by_cases hk : k = 4
      · simp [hk]
      · have hlt : k + 1 < 5 ↔ k < 5 := by omega
        simp [hk, hlt]
  | i + 2 =>
    have hslot : (layout n age)[i + 2]? = some none := by
      have hi8 : i < 8 := by
        unfold systemTimeMaxTriggers at hi
        omega
      rw [layout, List.getElem?_cons_succ, List.getElem?_cons_succ, List.getElem?_replicate,
        if_pos hi8]
    obtain ⟨hcalls, hholds⟩ := TableHolds.processSlot h hslot mem
    have hset : (layout n age).set (i + 2) (Slot.aged none) = layout n age := by
      rw [layout, List.set_cons_succ, List.set_cons_succ, Slot.aged, Option.map_none,
        List.set_replicate_self]
    rw [hset] at hholds
    refine ⟨age, ⟨n, hholds⟩, id, ?_⟩
    rw [hcalls]
    rfl

/-! ## The token -/

namespace MonitorState

variable {ω : Type*}

/-- Exactly one of the enabled interrupt and the token is there. -/
structure IrqInv (s : MonitorState ω) : Prop where
  table : ∃ age, HasLayout s.timers age ∧ (s.task = .delayRegister → age = none)
  one : s.exti.toNat + s.tokens = 1

theorem IrqInv.awake {s : MonitorState ω} (h : s.IrqInv) : s.Awake := by
  rw [awake_iff]
  intro hexti
  have hone := h.one
  simp only [hexti, Bool.toNat_false] at hone
  omega

theorem countP_trigger (s : MonitorState ω) (e : I2cEvent) :
    (s.trigger e).queue.countP I2cEvent.isToken =
      s.queue.countP I2cEvent.isToken +
        (if s.queue.length < i2cMonitorMaxQueue then e.isToken.toNat else 0) := by
  unfold trigger
  split
  · cases e <;> simp [I2cEvent.isToken]
  · rfl

@[simp] theorem trigger_exti (s : MonitorState ω) (e : I2cEvent) : (s.trigger e).exti = s.exti := by
  unfold trigger
  split <;> rfl

@[simp] theorem trigger_timers (s : MonitorState ω) (e : I2cEvent) :
    (s.trigger e).timers = s.timers := by
  unfold trigger
  split <;> rfl

@[simp] theorem trigger_task (s : MonitorState ω) (e : I2cEvent) : (s.trigger e).task = s.task := by
  unfold trigger
  split <;> rfl

@[simp] theorem trigger_timer (s : MonitorState ω) (e : I2cEvent) :
    (s.trigger e).timer = s.timer := by
  unfold trigger
  split <;> rfl

/-- What one step does to the table and the token, `p` saying that the step
loses no post of the token. -/
structure TokenStep (s' : MonitorState ω) (p : Prop) : Prop where
  table : ∃ age, HasLayout s'.timers age ∧ (s'.task = .delayRegister → age = none)
  kept : p → s'.exti.toNat + s'.tokens = 1
  lost : ¬ p → s'.exti.toNat + s'.tokens = 0

theorem TokenStep.of_kept {s' : MonitorState ω} {p : Prop} {age : Option ℕ}
    (hlayout : HasLayout s'.timers age) (hage : s'.task = .delayRegister → age = none)
    (hone : s'.exti.toNat + s'.tokens = 1) (hp : p) : TokenStep s' p :=
  ⟨⟨age, hlayout, hage⟩, fun _ => hone, fun h => absurd hp h⟩

theorem IrqInv.isrStep {s s' : MonitorState ω} (h : s.IrqInv) (hs : s.isrStep = some s') :
    TokenStep s' (s.PostsToken .isr) := by
  simp only [MonitorState.isrStep, Option.ite_none_right_eq_some, Option.some.injEq] at hs
  obtain ⟨hexti, rfl⟩ := hs
  have hone := h.one
  simp only [hexti, Bool.toNat_true, tokens] at hone
  refine ⟨by simpa using h.table, fun hroom => ?_, fun hfull => ?_⟩
  · have hroom : s.queue.length < i2cMonitorMaxQueue := hroom
    simp only [tokens, countP_trigger, trigger_timers, trigger_task, trigger_timer, hroom,
      ↓reduceIte, I2cEvent.isToken, Bool.toNat_true, Bool.toNat_false]
    omega
  · have hfull : ¬ s.queue.length < i2cMonitorMaxQueue := hfull
    simp only [tokens, countP_trigger, trigger_timers, trigger_task, trigger_timer, hfull,
      ↓reduceIte, Bool.toNat_false]
    omega

/-- The task neither takes nor gives up the token, and leaves the table alone. -/
theorem IrqInv.of_same {s s' : MonitorState ω} (h : s.IrqInv) (hqueue : s'.queue = s.queue)
    (htimers : s'.timers = s.timers) (htimer : s'.timer = s.timer) (hexti : s'.exti = s.exti)
    (htoken : s'.task.hasToken = s.task.hasToken) (htask : s'.task ≠ .delayRegister) :
    TokenStep s' True := by
  obtain ⟨⟨age, hlayout, -⟩, hone⟩ := h
  refine .of_kept (htimers ▸ hlayout) (fun he => absurd he htask) ?_ trivial
  unfold tokens at hone ⊢
  rw [hqueue, htimers, htimer, hexti, htoken]
  exact hone

theorem IrqInv.receive {s : MonitorState ω} (h : s.IrqInv) (htask : s.task = .receive)
    {e : I2cEvent} {queue : List I2cEvent} (hq : s.queue = e :: queue) :
    TokenStep { s with queue, task := e.handler } True := by
  obtain ⟨⟨age, hlayout, -⟩, hone⟩ := h
  refine .of_kept hlayout (by cases e <;> exact nofun) ?_ trivial
  simp only [tokens, hq, htask, List.countP_cons] at hone ⊢
  cases e <;> simp only [I2cEvent.isToken, I2cEvent.handler, TaskPc.hasToken, Bool.toNat_true,
    Bool.toNat_false, Bool.false_eq_true, ↓reduceIte] at hone ⊢ <;> omega

/-- The delay trigger takes the token over from the task. -/
theorem IrqInv.register {s : MonitorState ω} (h : s.IrqInv) (htask : s.task = .delayRegister) :
    TokenStep
      { s with
        timers := (s.timers.registerEventTrigger ioDelayTrigger).2
        task := .receive } True := by
  obtain ⟨⟨age, hlayout, hage⟩, hone⟩ := h
  obtain rfl := hage htask
  refine .of_kept hlayout.register nofun ?_ trivial
  simp only [tokens, htask, hlayout.countP_isDelay, hlayout.register.countP_isDelay, pending,
    TaskPc.hasToken, Bool.toNat_true, Bool.toNat_false] at hone ⊢
  exact hone

/-- With the token at the task no delay trigger is pending, so none is removed. -/
theorem IrqInv.remove {s : MonitorState ω} (h : s.IrqInv) (htask : s.task = .delayRemove) :
    TokenStep
      { s with
        timers := s.timers.removeEventTrigger eventI2cIoDelay
        task := .delayRegister } True := by
  obtain ⟨⟨age, hlayout, -⟩, hone⟩ := h
  refine .of_kept hlayout.remove (fun _ => rfl) ?_ trivial
  simp only [tokens, htask, hlayout.countP_isDelay, hlayout.remove.countP_isDelay, pending,
    TaskPc.hasToken, Bool.toNat_true] at hone ⊢
  omega

theorem IrqInv.enable {s : MonitorState ω} (h : s.IrqInv) (htask : s.task = .readEnable) :
    TokenStep { s with exti := true, task := .receive } True := by
  obtain ⟨⟨age, hlayout, -⟩, hone⟩ := h
  refine .of_kept hlayout nofun ?_ trivial
  simp only [tokens, htask, TaskPc.hasToken, Bool.toNat_true, Bool.toNat_false] at hone ⊢
  omega

theorem IrqInv.post {s : MonitorState ω} (h : s.IrqInv) (htask : s.task = .readPost) :
    TokenStep { s.trigger .chipWrite with task := .readEnable } True := by
  obtain ⟨⟨age, hlayout, -⟩, hone⟩ := h
  have hlayout : HasLayout (s.trigger .chipWrite).timers age := by simpa using hlayout
  refine .of_kept hlayout nofun ?_ trivial
  simp only [tokens, htask, countP_trigger, trigger_exti, trigger_timers, trigger_timer,
    I2cEvent.isToken, TaskPc.hasToken, Bool.toNat_true, Bool.toNat_false, ite_self] at hone ⊢
  omega

theorem IrqInv.taskStep {s s' : MonitorState ω} {replies : I2cReplies} (h : s.IrqInv)
    (hs : s.taskStep replies = some s') : TokenStep s' True := by
  cases taskStep_cases hs with
  | receive htask hq => exact h.receive htask hq
  | readChip htask hnext =>
    rcases hnext with rfl | rfl
    · exact h.of_same rfl rfl rfl rfl (by rw [htask]; rfl) nofun
    · exact h.of_same rfl rfl rfl rfl (by rw [htask]; rfl) nofun
  | readPost htask => exact h.post htask
  | readEnable htask => exact h.enable htask
  | delayRemove htask hidle => exact h.remove htask
  | delayRegister htask hidle => exact h.register htask
  | writeRead htask | writeChip htask | readSensor htask | readBeep htask | refresh htask =>
    exact h.of_same rfl rfl rfl rfl (by rw [htask]; rfl) nofun

/-- The timer task passes the token on from the trigger to its callback. -/
theorem IrqInv.timerSlot {s : MonitorState ω} (h : s.IrqInv) {i : ℕ} (htimer : s.timer = .slot i) :
    TokenStep s.timerStep True := by
  obtain ⟨⟨age, hlayout, hage⟩, hone⟩ := h
  simp only [timerStep, htimer]
  simp only [tokens, htimer, hlayout.countP_isDelay, TimerPc.hasToken, Bool.toNat_false] at hone
  split
  · rename_i hi
    obtain ⟨age', hlayout', hnone, hsum⟩ := hlayout.processSlot hi fun _ => 0
    refine .of_kept hlayout' (fun he => hnone (hage he)) ?_ trivial
    simp only [tokens, hlayout'.countP_isDelay]
    omega
  · refine .of_kept hlayout hage ?_ trivial
    simp only [tokens, hlayout.countP_isDelay, TimerPc.hasToken, Bool.toNat_false]
    exact hone

/-- The callback's post loses the token iff it has it and the queue is full. -/
theorem IrqInv.timerPost {s : MonitorState ω} (h : s.IrqInv) {i : ℕ} {e : I2cEvent}
    (htimer : s.timer = .post i e) : TokenStep s.timerStep (s.PostsToken .timer) := by
  obtain ⟨⟨age, hlayout, hage⟩, hone⟩ := h
  simp only [tokens, htimer, TimerPc.hasToken] at hone
  have hstep : s.timerStep = { s.trigger e with timer := .slot (i + 1) } := by
    simp only [timerStep, htimer]
  have hposts : s.PostsToken .timer ↔
      (e.isToken = true → s.queue.length < i2cMonitorMaxQueue) := by
    simp only [PostsToken, htimer, TimerPc.hasToken]
  rw [hstep, hposts]
  refine ⟨⟨age, by simpa using hlayout, by simpa using hage⟩, fun hkept => ?_, fun hlost => ?_⟩ <;>
  simp only [tokens, countP_trigger, trigger_exti, trigger_timers, trigger_task, TimerPc.hasToken,
    Bool.toNat_false]
  · cases htok : e.isToken with
    | true =>
      simp only [htok, hkept htok, ↓reduceIte] at hone ⊢
      omega
    | false =>
      simp only [htok, Bool.toNat_false, ite_self] at hone ⊢
      omega
  · simp only [Classical.not_imp] at hlost
    simp only [hlost.1, hlost.2, ↓reduceIte, Bool.toNat_true] at hone ⊢
    omega

theorem IrqInv.timerStep {s : MonitorState ω} (h : s.IrqInv) :
    TokenStep s.timerStep (s.PostsToken .timer) := by
  cases htimer : s.timer with
  | idle =>
    obtain ⟨⟨age, hlayout, hage⟩, hone⟩ := h
    simp only [tokens, htimer] at hone
    have hkept : s.PostsToken .timer := fun htok => by
      rw [htimer] at htok
      cases htok
    simp only [MonitorState.timerStep, htimer]
    exact .of_kept hlayout hage hone hkept
  | slot i =>
    have hkept : s.PostsToken .timer := fun htok => by
      rw [htimer] at htok
      cases htok
    obtain ⟨htable, hone, -⟩ := h.timerSlot htimer
    exact ⟨htable, fun _ => hone trivial, fun hlost => absurd hkept hlost⟩
  | post i e => exact h.timerPost htimer

variable [DecidableEq ω]

theorem IrqInv.step {s s' : MonitorState ω} {a : MonitorAct ω} (h : s.IrqInv)
    (hs : monitorStep s a = some s') : TokenStep s' (s.PostsToken a) := by
  cases a with
  | isr => exact h.isrStep hs
  | update w pin status =>
    simp only [monitorStep, Option.ite_none_right_eq_some, Option.some.injEq] at hs
    obtain ⟨-, rfl⟩ := hs
    exact ⟨h.table, fun _ => h.one, fun hlost => absurd trivial hlost⟩
  | post w =>
    simp only [monitorStep, Option.ite_none_right_eq_some, Option.some.injEq] at hs
    obtain ⟨-, rfl⟩ := hs
    refine ⟨by simpa using h.table, fun _ => ?_, fun hlost => absurd trivial hlost⟩
    have hone := h.one
    simp only [tokens] at hone
    simp only [tokens, countP_trigger, trigger_exti, trigger_timers, trigger_task, trigger_timer,
      I2cEvent.isToken, Bool.toNat_false, ite_self]
    omega
  | task replies => exact h.taskStep hs
  | timer =>
    cases hs
    exact h.timerStep

end MonitorState

open MonitorState in
theorem irqInv_init (ω : Type*) (m : SysTimeManage Unit Unit) (read : Byte) (info : Ap3216cInfo) :
    (monitorInit ω m read info).IrqInv where
  table := ⟨none, monitorInit_layout m read info, nofun⟩
  one := by
    have hlayout : HasLayout (monitorInit ω m read info).timers none :=
      monitorInit_layout m read info
    simp only [tokens, hlayout.countP_isDelay]
    rfl

open MonitorState in
/-- **When the interrupt comes back**: in every state of an interleaving a
disabled interrupt has somebody to enable it iff no post of the token met a
full queue. -/
theorem interrupt_awake_iff {ω : Type*} [DecidableEq ω] (m : SysTimeManage Unit Unit) (read : Byte)
    (info : Ap3216cInfo) (acts : List (MonitorAct ω)) (s : MonitorState ω)
    (hrun : exec monitorStep (monitorInit ω m read info) acts = some s) :
    (∀ pre post s', acts = pre ++ post →
        exec monitorStep (monitorInit ω m read info) pre = some s' → s'.Awake) ↔
      Along monitorStep PostsToken (monitorInit ω m read info) acts := by
  refine forall_states_iff (I := IrqInv) (fun s h => h.awake) (fun s a s' h hkept hs => ?_)
    (fun s a s' h hlost hs => ?_) (irqInv_init ω m read info) hrun
  · obtain ⟨htable, hone, -⟩ := h.step hs
    exact ⟨htable, hone hkept⟩
  · have hsum := (h.step hs).lost hlost
    rw [awake_iff]
    intro hawake
    have hexti : s'.exti = false := by
      cases hexti : s'.exti with
      | false => rfl
      | true => simp [hexti] at hsum
    have := hawake hexti
    omega

/-- The task takes the handler's event and registers the delay trigger. -/
def delayed : List (MonitorAct Unit) :=
  [.isr, .task ⟨true, none, fun _ => none⟩, .task ⟨true, none, fun _ => none⟩,
    .task ⟨true, none, fun _ => none⟩]

open MonitorState in
theorem interrupt_awake_iff_delayed :
    (∀ pre post s', delayed = pre ++ post →
        exec monitorStep (monitorInit Unit (zeroManage Unit Unit) 0xFF ⟨0, 0, 0⟩) pre = some s' →
          s'.Awake) ↔
      Along monitorStep PostsToken (monitorInit Unit (zeroManage Unit Unit) 0xFF ⟨0, 0, 0⟩)
        delayed :=
  interrupt_awake_iff (zeroManage Unit Unit) 0xFF ⟨0, 0, 0⟩ delayed _ rfl

/-- A task fills the queue before the interrupt comes. -/
def crowded : List (MonitorAct Unit) :=
  (List.replicate 32 [.update () 0 ioOn, .post ()]).flatten ++ [.isr]

open MonitorState in
/-- The handler's event is lost, and the interrupt it disables stays disabled. -/
theorem interrupt_lost :
    ¬ ∀ (acts : List (MonitorAct Unit)) (s : MonitorState Unit),
      exec monitorStep (monitorInit Unit (zeroManage Unit Unit) 0xFF ⟨0, 0, 0⟩) acts = some s →
        s.Awake := by
  intro h
  have hend : (exec monitorStep (monitorInit Unit (zeroManage Unit Unit) 0xFF ⟨0, 0, 0⟩) crowded).map
      (fun s => (s.exti, s.tokens)) = some (false, 0) := by decide +kernel
  obtain ⟨s, hrun, hs⟩ := Option.map_eq_some_iff.1 hend
  obtain ⟨hexti, htokens⟩ := Prod.mk.inj hs
  have hawake := (awake_iff s).1 (h crowded s hrun) hexti
  omega

end Stm32Handler.App
