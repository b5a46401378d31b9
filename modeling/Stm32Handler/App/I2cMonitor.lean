import Mathlib.Logic.Function.Basic
import Stm32Handler.App.TimerManage

/-!
# The I2C monitor and its callers

The task `i2c_monitor::run` takes events from a queue of 32. Who sends them:

* `EXTI15_10_IRQHandler` posts `I2C_EVENT_IO_DELAY_READ` and disables its own
  interrupt;
* any number of tasks call `pcf8574_write_io`, which changes the shadow byte
  in a critical section and then posts `I2C_EVENT_IO_CHIP_WRITE`;
* the timer task runs `processTrigger` slot by slot, with the semaphore held;
  the two triggers call `I2cTriggerFunc::operator()`, which posts
  `I2C_EVENT_IO_CHIP_READ` or `I2C_EVENT_DEVICE_REFRESH`.

The task itself calls `pcf8574_write_io` while it handles a chip read. A send
to a full queue fails, and no caller looks at the result. Each party is its
place in its code; a step of the system is one step of one party.
-/

namespace Stm32Handler.App

/-- `i2c_event`; its `data` is never set or read. -/
inductive I2cEvent where
  | chipWrite
  | chipRead
  | delayRead
  | deviceRefresh
  deriving DecidableEq

/-- `i2c_monitor_MAX_QUEUE` -/
def i2cMonitorMaxQueue : ℕ := 32

/-- `EVENT_I2C_IO_DELAY_TIMER_TIGGER` -/
def eventI2cIoDelay : BitVec 16 := 0

/-- `EVENT_I2C_DEV_UPDATE_TIMER_TIGGER` -/
def eventI2cDevUpdate : BitVec 16 := 1

/-- `registerIODelayTimeTrigger`: 500 ms in periods of 100 ms, once. -/
def ioDelayTrigger : Registration Unit Unit := ⟨eventI2cIoDelay, 5, some (), none, 1⟩

/-- `registerDevUpdateTimeTrigger`: 1000 ms, forever. -/
def devUpdateTrigger : Registration Unit Unit :=
  ⟨eventI2cDevUpdate, 10, some (), none, timerTriggerForever⟩

/-- `I2cTriggerFunc::operator()` -/
def i2cTriggerFunc (c : Call Unit) : Option I2cEvent :=
  if c.id = eventI2cIoDelay then some .chipRead
  else if c.id = eventI2cDevUpdate then some .deviceRefresh
  else none

/-! ## The I/O expander's byte -/

/-- `IO_ON` -/
def ioOn : Byte := 1

/-- `IO_OFF` -/
def ioOff : Byte := 0

/-- The pins `pcf8574_write_io` knows. -/
inductive OutputPin where
  | beep
  | dcmiPwdn
  | usbPwr
  | rs485Sel
  | ethReset
  deriving DecidableEq

/-- The values `OUTPUT_BEEP`, ..., `OUTPUT_ETH_RESET`. -/
def OutputPin.number : OutputPin → Byte
  | .beep => 0
  | .dcmiPwdn => 2
  | .usbPwr => 3
  | .rs485Sel => 6
  | .ethReset => 7

/-- `PC8574_IO`, by its bits; `data` is the other member of the union. -/
structure Pc8574Io where
  beep : Bool
  apInt : Bool
  dcmiPwdn : Bool
  usbPwr : Bool
  exio : Bool
  dInt : Bool
  rs485Sel : Bool
  ethReset : Bool
  deriving DecidableEq

namespace Pc8574Io

def data (io : Pc8574Io) : Byte :=
  BitVec.ofBoolListLE
    [io.beep, io.apInt, io.dcmiPwdn, io.usbPwr, io.exio, io.dInt, io.rs485Sel, io.ethReset]

/-- The initial value `{0xff}`. -/
def allHigh : Pc8574Io := ⟨true, true, true, true, true, true, true, true⟩

def get (io : Pc8574Io) : OutputPin → Bool
  | .beep => io.beep
  | .dcmiPwdn => io.dcmiPwdn
  | .usbPwr => io.usbPwr
  | .rs485Sel => io.rs485Sel
  | .ethReset => io.ethReset

/-- The switch of `pcf8574_write_io`. -/
def write (io : Pc8574Io) (pin : Byte) (status : Bool) : Pc8574Io :=
  if pin = OutputPin.beep.number then { io with beep := status }
  else if pin = OutputPin.dcmiPwdn.number then { io with dcmiPwdn := status }
  else if pin = OutputPin.usbPwr.number then { io with usbPwr := status }
  else if pin = OutputPin.rs485Sel.number then { io with rs485Sel := status }
  else if pin = OutputPin.ethReset.number then { io with ethReset := status }
  else io

example : allHigh.data = 0xFF := rfl

end Pc8574Io

theorem OutputPin.number_injective : Function.Injective OutputPin.number := by
  intro p q h
  cases p <;> cases q <;> first | rfl | exact absurd h (by decide)

/-- A write changes the pin it names and no other. -/
theorem Pc8574Io.get_write (io : Pc8574Io) (pin : Byte) (status : Bool) (p : OutputPin) :
    (io.write pin status).get p = if pin = p.number then status else io.get p := by
  by_cases hpin : ∃ q : OutputPin, pin = q.number
  · obtain ⟨q, rfl⟩ := hpin
    simp only [OutputPin.number_injective.eq_iff]
    cases q <;> cases p <;> rfl
  · have hne : ∀ q : OutputPin, pin ≠ q.number := fun q hq => hpin ⟨q, hq⟩
    simp only [write, hne, ↓reduceIte]

/-! ## The light sensor -/

structure Ap3216cInfo where
  ir : BitVec 16
  als : BitVec 16
  ps : BitVec 16
  deriving DecidableEq

/-- `ap3216c_i2c_run`; `buf i` is what `ap3216_i2c_multi_read` got from
register `AP3216C_IRDATALOW + i`, `none` if it failed. -/
def ap3216cI2cRun (info : Ap3216cInfo) (buf : ℕ → Option Byte) : Ap3216cInfo :=
  match buf 0, buf 1, buf 2, buf 3, buf 4, buf 5 with
  | some b0, some b1, some b2, some b3, some b4, some b5 =>
    { ir :=
        if b0.getLsbD 7 then 0
        else b1.zeroExtend 16 <<< 2 ||| (b0 &&& 0x03).zeroExtend 16
      als := b3.zeroExtend 16 <<< 8 ||| b2.zeroExtend 16
      ps :=
        if b4.getLsbD 6 then 0
        else (b5 &&& 0x3F).zeroExtend 16 <<< 4 ||| (b4 &&& 0x0F).zeroExtend 16 }
  | _, _, _, _, _, _ => info

/-! ## The parties -/

/-- A task inside `pcf8574_write_io`: outside of it, or between the critical
section and `trigger`. -/
inductive CallerPc where
  | idle
  | post
  deriving DecidableEq

/-- The timer task inside `processTrigger`: outside of it, about to process
slot `i`, or in the `trigger` of slot `i`'s callback. -/
inductive TimerPc where
  | idle
  | slot (i : ℕ)
  | post (i : ℕ) (e : I2cEvent)
  deriving DecidableEq

/-- The statement `i2c_monitor::run` is at. -/
inductive TaskPc where
  | receive
  | writeRead
  | writeChip (b : Byte)
  | readChip
  | readSensor
  | readBeep
  | readPost
  | readEnable
  | delayRemove
  | delayRegister
  | refresh
  deriving DecidableEq

/-- The branch of the task's loop an event leads to. -/
def I2cEvent.handler : I2cEvent → TaskPc
  | .chipWrite => .writeRead
  | .chipRead => .readChip
  | .delayRead => .delayRemove
  | .deviceRefresh => .refresh

/-- All of it. `written` are the bytes that `pcf8574_i2c_write` got to the
chip, `executed` the pins and statuses of the critical sections so far. -/
structure MonitorState (ω : Type*) where
  queue : List I2cEvent
  exti : Bool
  timers : SysTimeManage Unit Unit
  writeData : Pc8574Io
  readData : Byte
  ap3216 : Ap3216cInfo
  task : TaskPc
  timer : TimerPc
  caller : ω → CallerPc
  written : List Byte
  executed : List (Byte × Byte)

/-- What the bus answers to the task's next access: whether the chip takes a
byte, the byte it gives, and the sensor's registers. -/
structure I2cReplies where
  writeOk : Bool
  chip : Option Byte
  sensor : ℕ → Option Byte

inductive MonitorAct (ω : Type*) where
  | isr
  | update (w : ω) (pin status : Byte)
  | post (w : ω)
  | task (replies : I2cReplies)
  | timer

namespace MonitorState

variable {ω : Type*}

/-- `trigger` and `trigger_isr`; what they return is nowhere used. -/
def trigger (s : MonitorState ω) (e : I2cEvent) : MonitorState ω :=
  if s.queue.length < i2cMonitorMaxQueue then { s with queue := s.queue ++ [e] } else s

/-- The critical section of `pcf8574_write_io`. -/
def writeIo (s : MonitorState ω) (pin status : Byte) : MonitorState ω :=
  { s with
    writeData := s.writeData.write pin (status ≠ ioOn)
    executed := s.executed ++ [(pin, status)] }

/-- `EXTI15_10_IRQHandler` -/
def isrStep (s : MonitorState ω) : Option (MonitorState ω) :=
  if s.exti then some { s.trigger .delayRead with exti := false } else none

/-- The task waits while the timer task has the semaphore. -/
def taskStep (s : MonitorState ω) (replies : I2cReplies) : Option (MonitorState ω) :=
  match s.task with
  | .receive =>
    match s.queue with
    | [] => none
    | e :: queue => some { s with queue, task := e.handler }
  | .writeRead => some { s with task := .writeChip s.writeData.data }
  | .writeChip b =>
    some { s with
      written := if replies.writeOk then s.written ++ [b] else s.written
      task := .receive }
  | .readChip =>
    match replies.chip with
    | some io => some { s with readData := io, task := .readSensor }
    | none => some { s with task := .readEnable }
  | .readSensor =>
    some { s with ap3216 := ap3216cI2cRun s.ap3216 replies.sensor, task := .readBeep }
  | .readBeep =>
    some { s.writeIo OutputPin.beep.number (if 500 < s.ap3216.ps then ioOn else ioOff) with
      task := .readPost }
  | .readPost => some { s.trigger .chipWrite with task := .readEnable }
  | .readEnable => some { s with exti := true, task := .receive }
  | .delayRemove =>
    if s.timer = .idle then
      some { s with
        timers := s.timers.removeEventTrigger eventI2cIoDelay
        task := .delayRegister }
    else none
  | .delayRegister =>
    if s.timer = .idle then
      some { s with
        timers := (s.timers.registerEventTrigger ioDelayTrigger).2
        task := .receive }
    else none
  | .refresh =>
    some { s with ap3216 := ap3216cI2cRun s.ap3216 replies.sensor, task := .receive }

/-- What a step of the task does. -/
inductive TaskStep (s : MonitorState ω) (replies : I2cReplies) : MonitorState ω → Prop where
  | receive {e : I2cEvent} {queue : List I2cEvent} (task_eq : s.task = .receive)
    (queue_eq : s.queue = e :: queue) : TaskStep s replies { s with queue, task := e.handler }
  | writeRead (task_eq : s.task = .writeRead) :
    TaskStep s replies { s with task := .writeChip s.writeData.data }
  | writeChip {b : Byte} (task_eq : s.task = .writeChip b) :
    TaskStep s replies { s with
      written := if replies.writeOk then s.written ++ [b] else s.written
      task := .receive }
  | readChip {readData : Byte} {task : TaskPc} (task_eq : s.task = .readChip)
    (next : task = .readSensor ∨ task = .readEnable) :
    TaskStep s replies { s with readData, task }
  | readSensor {ap3216 : Ap3216cInfo} (task_eq : s.task = .readSensor) :
    TaskStep s replies { s with ap3216, task := .readBeep }
  | readBeep {status : Byte} (task_eq : s.task = .readBeep) :
    TaskStep s replies { s.writeIo OutputPin.beep.number status with task := .readPost }
  | readPost (task_eq : s.task = .readPost) :
    TaskStep s replies { s.trigger .chipWrite with task := .readEnable }
  | readEnable (task_eq : s.task = .readEnable) :
    TaskStep s replies { s with exti := true, task := .receive }
  | delayRemove (task_eq : s.task = .delayRemove) (idle : s.timer = .idle) :
    TaskStep s replies { s with
      timers := s.timers.removeEventTrigger eventI2cIoDelay
      task := .delayRegister }
  | delayRegister (task_eq : s.task = .delayRegister) (idle : s.timer = .idle) :
    TaskStep s replies { s with
      timers := (s.timers.registerEventTrigger ioDelayTrigger).2
      task := .receive }
  | refresh {ap3216 : Ap3216cInfo} (task_eq : s.task = .refresh) :
    TaskStep s replies { s with ap3216, task := .receive }

theorem taskStep_cases {s s' : MonitorState ω} {replies : I2cReplies}
    (hs : s.taskStep replies = some s') : s.TaskStep replies s' := by
  unfold taskStep at hs
  cases htask : s.task with
  | receive =>
    cases hqueue : s.queue with
    | nil =>
      simp only [htask, hqueue] at hs
      cases hs
    | cons e queue =>
      simp only [htask, hqueue] at hs
      cases hs
      exact .receive htask hqueue
  | writeRead =>
    simp only [htask] at hs
    cases hs
    exact .writeRead htask
  | writeChip b =>
    simp only [htask] at hs
    cases hs
    exact .writeChip htask
  | readChip =>
    cases hchip : replies.chip with
    | none =>
      simp only [htask, hchip] at hs
      cases hs
      exact .readChip htask (.inr rfl)
    | some io =>
      simp only [htask, hchip] at hs
      cases hs
      exact .readChip htask (.inl rfl)
  | readSensor =>
    simp only [htask] at hs
    cases hs
    exact .readSensor htask
  | readBeep =>
    simp only [htask] at hs
    cases hs
    exact .readBeep htask
  | readPost =>
    simp only [htask] at hs
    cases hs
    exact .readPost htask
  | readEnable =>
    simp only [htask] at hs
    cases hs
    exact .readEnable htask
  | delayRemove =>
    simp only [htask, Option.ite_none_right_eq_some, Option.some.injEq] at hs
    obtain ⟨hidle, rfl⟩ := hs
    exact .delayRemove htask hidle
  | delayRegister =>
    simp only [htask, Option.ite_none_right_eq_some, Option.some.injEq] at hs
    obtain ⟨hidle, rfl⟩ := hs
    exact .delayRegister htask hidle
  | refresh =>
    simp only [htask] at hs
    cases hs
    exact .refresh htask

/-- The round of slot `i` ends with the post of its callback's event, if there
is one. -/
def afterSlot (i : ℕ) (calls : List (Call Unit)) : TimerPc :=
  match calls.filterMap i2cTriggerFunc with
  | [] => .slot (i + 1)
  | e :: _ => .post i e

/-- After the last slot the timer task gives the semaphore back. -/
def timerStep (s : MonitorState ω) : MonitorState ω :=
  match s.timer with
  | .idle => { s with timer := .slot 0 }
  | .slot i =>
    if i < systemTimeMaxTriggers then
      { s with
        timers := (s.timers.processSlot i fun _ => 0).2
        timer := afterSlot i (s.timers.processSlot i fun _ => 0).1 }
    else { s with timer := .idle }
  | .post i e => { s.trigger e with timer := .slot (i + 1) }

variable [DecidableEq ω]

def monitorStep (s : MonitorState ω) : MonitorAct ω → Option (MonitorState ω)
  | .isr => s.isrStep
  | .update w pin status =>
    if s.caller w = .idle then
      some { s.writeIo pin status with caller := Function.update s.caller w .post }
    else none
  | .post w =>
    if s.caller w = .post then
      some { s.trigger .chipWrite with caller := Function.update s.caller w .idle }
    else none
  | .task replies => s.taskStep replies
  | .timer => some s.timerStep

end MonitorState

/-- After `SysTimeManage::init`, `pcf8574_driver_init` and `i2c_monitor::init`. -/
def monitorInit (ω : Type*) (m : SysTimeManage Unit Unit) (read : Byte) (info : Ap3216cInfo) :
    MonitorState ω where
  queue := []
  exti := true
  timers := ((m.init.removeEventTrigger eventI2cDevUpdate).registerEventTrigger devUpdateTrigger).2
  writeData := .allHigh
  readData := read
  ap3216 := info
  task := .receive
  timer := .idle
  caller := fun _ => .idle
  written := []
  executed := []

end Stm32Handler.App
