import Stm32Handler.FatfsLog.Record
import Stm32Handler.Logger.Info

/-!
# One line of `print_log`

`print_log` from its first test to its last return, called by task `t` with the
formatted text `b` in place of the format and its arguments. The line is put
together in `LoggerMaxBuffer`, handed to the output device and, with
`LOG_RECORD` in the level, to `fatfs_write`. Stores, reads and conversions are
checked as in `FatfsLog.Record`; the function is cut at its two `snprintf`
calls into `printLog`, `printBody` and `printTail`.
-/

namespace Stm32Handler.Logger

open Stm32Handler.Rtos Stm32Handler.FatfsLog

/-- `LOGGER_MAX_BUFFER_SIZE`. -/
def loggerMaxBufferSize : ℕ := 128

/-- The fields of `g_logger_info` that `print_log` uses, its static buffer, the
file log and, as a history, what each output device was handed. -/
structure LogSystem (τ : Type) where
  isInit : Bool
  level : UInt8
  device : LogDevice
  isMultiThreadRun : Bool
  protect : Mutex τ
  loggerMaxBuffer : Vector UInt8 loggerMaxBufferSize
  fatfs : RecordState τ
  sent : List (LogDevice × List UInt8)

variable {τ : Type}

variable [DecidableEq τ]

omit [DecidableEq τ] in
/-- `logger_protect`: none is `GLOBAL_ERROR`. -/
def LogSystem.loggerProtect (s : LogSystem τ) (t : τ) : Option (LogSystem τ) :=
  if s.isMultiThreadRun then (s.protect.take t).map fun m => { s with protect := m } else some s

/-- `logger_unprotect`. -/
def LogSystem.loggerUnprotect (s : LogSystem τ) (t : τ) : LogSystem τ :=
  if s.isMultiThreadRun then { s with protect := s.protect.give t } else s

section Code

variable (t : τ) (level : UInt8) (b : List UInt8) (pbuffer : Vector UInt8 fatfsSignalWriteMaxSize)

end Code

/-! ## The locks -/

/-- The lock is as it was before, and no assertion has fired on the way. -/
structure Released (s s' : LogSystem τ) : Prop where
  holder : s'.protect.holder = s.protect.holder
  halted : s'.protect.halted = s.protect.halted

section Line

variable {t : τ} {level : UInt8} {b : List UInt8} {pbuffer : Vector UInt8 fatfsSignalWriteMaxSize}
  {s : LogSystem τ} {pre : List UInt8}

end Line

end Stm32Handler.Logger
