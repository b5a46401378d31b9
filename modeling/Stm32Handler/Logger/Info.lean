import Stm32Handler.Logger.CircularBuffer

/-!
# The logger's rings

`LOGGER_INFO` of `logger_process.c` with its two rings, and the entry points
that move bytes in and out of them. `putBuffer` is the body that
`logger_put_rx_buffer` and `logger_put_tx_buffer` share; a one-byte put skips
the room check and leaves it to the macro.
-/

namespace Stm32Handler.Logger

/-- `GlobalType_t`. -/
inductive GlobalType where
  | ok
  | error
  deriving DecidableEq

/-- `LOG_DEVICE`. -/
inductive LogDevice where
  | none
  | i2c
  | spi
  | usart
  | eth
  deriving DecidableEq

/-- `LOGGER_BUFFER_SIZE`. -/
def loggerBufferSize : ℕ := 2048

/-- `LOGGER_INFO`: the rings, with the static arrays as their `data`, and the
fields the buffer functions test. -/
structure LoggerInfo where
  rx : CircularBuffer
  tx : CircularBuffer
  isInit : Bool
  device : LogDevice
  isMultiThreadRun : Bool

/-- The static `g_logger_info`, all zero. -/
def zeroInfo : LoggerInfo :=
  { rx := .init 0 fun _ => 0, tx := .init 0 fun _ => 0, isInit := false, device := .none
    isMultiThreadRun := false }

/-- `logger_init` once the UART and the mutex are there: both rings start over
on their static arrays. -/
def loggerInit (g : LoggerInfo) : LoggerInfo :=
  { rx := .init loggerBufferSize g.rx.data
    tx := .init loggerBufferSize g.tx.data
    isInit := true
    device := .usart
    isMultiThreadRun := false }

/-- The common body of the two put functions; `none` is the refusal of a
message longer than the room left. -/
def putBuffer (cb : CircularBuffer) (ptr : List UInt8) : Option CircularBuffer :=
  match ptr with
  | [b] => some (cb.put b)
  | _ => if ptr.length > loggerBufferSize - cb.currentSize then none else some (ptr.foldl .put cb)

/-- The guard every buffer function starts with. -/
def LoggerInfo.serves (g : LoggerInfo) (dev : LogDevice) : Bool := dev == g.device && g.isInit

def loggerPutRxBuffer (g : LoggerInfo) (dev : LogDevice) (ptr : List UInt8) :
    GlobalType × LoggerInfo :=
  if g.serves dev then
    match putBuffer g.rx ptr with
    | some cb => (.ok, { g with rx := cb })
    | none => (.error, g)
  else (.error, g)

def loggerPutTxBuffer (g : LoggerInfo) (dev : LogDevice) (ptr : List UInt8) :
    GlobalType × LoggerInfo :=
  if g.serves dev then
    match putBuffer g.tx ptr with
    | some cb => (.ok, { g with tx := cb })
    | none => (.error, g)
  else (.error, g)

/-- `logger_get_tx_byte`; no byte is `GLOBAL_ERROR`. -/
def loggerGetTxByte (g : LoggerInfo) (dev : LogDevice) : Option UInt8 × LoggerInfo :=
  if g.serves dev && !g.tx.isEmpty then (g.tx.get.1, { g with tx := g.tx.get.2 }) else (none, g)

theorem putBuffer_single (cb : CircularBuffer) (b : UInt8) : putBuffer cb [b] = some (cb.put b) :=
  rfl

theorem foldl_put_refines {cb : CircularBuffer} {q : List UInt8} (h : cb.Refines q)
    (ptr : List UInt8) :
    (ptr.foldl CircularBuffer.put cb).Refines (ptr.foldl (fifoPut cb.size) q) := by
  induction ptr generalizing cb q with
  | nil => exact h
  | cons b ptr ih =>
    have := ih (CircularBuffer.put_refines h b)
    rwa [CircularBuffer.put_size] at this

@[simp] theorem foldl_put_size (cb : CircularBuffer) (ptr : List UInt8) :
    (ptr.foldl CircularBuffer.put cb).size = cb.size := by
  induction ptr generalizing cb with
  | nil => rfl
  | cons b ptr ih => rw [List.foldl_cons, ih, CircularBuffer.put_size]

/-- **A put is all or nothing**: with room for the message the ring takes all
of it; without room a ring of the logger's size is left alone, whether the
function reports the refusal or not. -/
theorem putBuffer_spec {cb : CircularBuffer} {q : List UInt8} (h : cb.Refines q)
    (hs : cb.size = loggerBufferSize) (ptr : List UInt8) :
    (q.length + ptr.length ≤ loggerBufferSize →
      ∃ cb', putBuffer cb ptr = some cb' ∧ cb'.size = loggerBufferSize ∧ cb'.Refines (q ++ ptr)) ∧
    (loggerBufferSize < q.length + ptr.length →
      putBuffer cb ptr = none ∨ ptr.length = 1 ∧ putBuffer cb ptr = some cb) := by
  have hlen := h.length_eq
  have hle := h.countLe
  rw [hs] at hle
  constructor
  · intro hroom
    have hfold := foldl_put_refines h ptr
    rw [foldl_fifoPut (by rw [hs]; exact hroom)] at hfold
    refine ⟨ptr.foldl .put cb, ?_, by rw [foldl_put_size, hs], hfold⟩
    unfold putBuffer
    split
    · rfl
    · rw [if_neg (by omega)]
  · intro hfull
    unfold putBuffer
    split
    · right
      rw [List.length_singleton] at hfull
      exact ⟨rfl, by rw [CircularBuffer.put_full (by omega)]⟩
    · left
      rw [if_pos (by omega)]

/-- The state every run of the buffer functions starts from and stays in. -/
structure LoggerInfo.Ready (g : LoggerInfo) : Prop where
  isInit : g.isInit = true
  device : g.device = .usart

theorem LoggerInfo.Ready.serves {g : LoggerInfo} (h : g.Ready) : g.serves .usart = true := by
  simp [LoggerInfo.serves, h.isInit, h.device]

theorem loggerInit_ready (g : LoggerInfo) : (loggerInit g).Ready := ⟨rfl, rfl⟩

end Stm32Handler.Logger
