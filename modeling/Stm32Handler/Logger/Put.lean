import Stm32Handler.Lib.Run
import Stm32Handler.Logger.Info

/-!
# What a put reports

`logger_put_tx_buffer` and `logger_put_rx_buffer` compare a message with the
room left, except that a single byte goes straight to the macro. `Truthful` is
what a caller is promised of the status; on a full ring the short cut breaks
it, because the macro drops the byte and the function still returns
`GLOBAL_OK` (`ringPut_truthful_iff`).

`LoggerAct` are the calls that reach a ring from `logger_init` on.
-/

namespace Stm32Handler.Logger

/-- The branch of the put functions for any size but 1. -/
def putChecked (cb : CircularBuffer) (ptr : List UInt8) : Option CircularBuffer :=
  if ptr.length > loggerBufferSize - cb.currentSize then none else some (ptr.foldl .put cb)

/-- The status and the ring after it: `GLOBAL_OK` iff the ring took the whole
message, `GLOBAL_ERROR` and the old ring otherwise, and for one byte what the
general branch would have done. -/
structure Truthful (cb : CircularBuffer) (ptr : List UInt8) (status : GlobalType)
    (cb' : CircularBuffer) : Prop where
  ok_iff : status = .ok ↔ cb'.Refines (cb.bytes ++ ptr)
  refused : ¬ cb'.Refines (cb.bytes ++ ptr) → status = .error ∧ cb' = cb
  fast : ptr.length = 1 → putBuffer cb ptr = putChecked cb ptr

/-- What the put functions do to their ring. -/
def ringPut (cb : CircularBuffer) (ptr : List UInt8) : GlobalType × CircularBuffer :=
  match putBuffer cb ptr with
  | some cb' => (.ok, cb')
  | none => (.error, cb)

theorem LoggerInfo.Ready.serves_device {g : LoggerInfo} (h : g.Ready) : g.serves g.device = true := by
  rw [h.device]
  exact h.serves

theorem loggerPutTxBuffer_eq {g : LoggerInfo} (h : g.Ready) (ptr : List UInt8) :
    loggerPutTxBuffer g g.device ptr = ((ringPut g.tx ptr).1, { g with tx := (ringPut g.tx ptr).2 }) := by
  unfold loggerPutTxBuffer ringPut
  rw [if_pos h.serves_device]
  cases putBuffer g.tx ptr with
  | some cb => rfl
  | none => rfl

theorem loggerPutRxBuffer_eq {g : LoggerInfo} (h : g.Ready) (ptr : List UInt8) :
    loggerPutRxBuffer g g.device ptr = ((ringPut g.rx ptr).1, { g with rx := (ringPut g.rx ptr).2 }) := by
  unfold loggerPutRxBuffer ringPut
  rw [if_pos h.serves_device]
  cases putBuffer g.rx ptr with
  | some cb => rfl
  | none => rfl

section Ring

variable {cb : CircularBuffer} {q : List UInt8} (h : cb.Refines q) (hs : cb.size = loggerBufferSize)
include h hs

/-- With room for the message the promise holds. -/
theorem ringPut_room {ptr : List UInt8} (hroom : cb.currentSize + ptr.length ≤ loggerBufferSize) :
    Truthful cb ptr (ringPut cb ptr).1 (ringPut cb ptr).2 := by
  have hlen := h.length_eq
  obtain ⟨cb', hput, -, hcb'⟩ := (putBuffer_spec h hs ptr).1 (by omega)
  unfold ringPut
  rw [hput]
  rw [← h.bytesEq] at hcb'
  refine ⟨iff_of_true rfl hcb', fun hnot => absurd hcb' hnot, fun hone => ?_⟩
  -- the general branch finds the room too
  obtain ⟨b, rfl⟩ := List.length_eq_one_iff.1 hone
  unfold putChecked
  rw [if_neg (by omega), putBuffer_single]
  rfl

/-- Without room the ring is left alone, so nothing was appended. -/
theorem ringPut_noRoom {ptr : List UInt8} (hfull : loggerBufferSize < cb.currentSize + ptr.length) :
    (ringPut cb ptr).2 = cb ∧ ¬ cb.Refines (cb.bytes ++ ptr) := by
  have hlen := h.length_eq
  have hle := h.countLe
  have hnot : ¬ cb.Refines (cb.bytes ++ ptr) := fun hcb => by
    have := hcb.length_eq
    rw [List.length_append, CircularBuffer.length_bytes] at this
    omega
  unfold ringPut
  rcases (putBuffer_spec h hs ptr).2 (by omega) with hput | ⟨-, hput⟩
  · rw [hput]
    exact ⟨rfl, hnot⟩
  · rw [hput]
    exact ⟨rfl, hnot⟩

/-- **The short cut is wrong exactly on a full ring.** -/
theorem ringPut_truthful_iff (ptr : List UInt8) :
    Truthful cb ptr (ringPut cb ptr).1 (ringPut cb ptr).2 ↔
      ¬ (ptr.length = 1 ∧ cb.currentSize = loggerBufferSize) := by
  have hle := h.countLe
  by_cases hroom : cb.currentSize + ptr.length ≤ loggerBufferSize
  · exact iff_of_true (ringPut_room h hs hroom) fun hone => by omega
  obtain ⟨hring, hnot⟩ := ringPut_noRoom h hs (Nat.not_le.1 hroom)
  by_cases hone : ptr.length = 1
  · -- the macro dropped the byte
    refine iff_of_false (fun ht => ?_) fun hfull => hfull ⟨hone, by omega⟩
    obtain ⟨b, rfl⟩ := List.length_eq_one_iff.1 hone
    apply hnot
    have := ht.ok_iff.1 rfl
    rwa [hring] at this
  · refine iff_of_true ?_ fun hfull => hone hfull.1
    have hput : ringPut cb ptr = (.error, cb) := by
      rcases (putBuffer_spec h hs ptr).2 (by have := h.length_eq; omega) with hput | ⟨hlen, -⟩
      · unfold ringPut
        rw [hput]
      · exact absurd hlen hone
    rw [hput]
    exact ⟨iff_of_false nofun hnot, fun _ => ⟨rfl, rfl⟩, fun h1 => absurd h1 hone⟩

end Ring

/-! ## The calls -/

inductive LoggerAct where
  | putTx (dev : LogDevice) (ptr : List UInt8)
  | putRx (dev : LogDevice) (ptr : List UInt8)
  | getTx (dev : LogDevice)
  /-- `logger_process_run`; what `cmd_process` does with the byte is no matter here -/
  | processRun
  /-- `logger_set_multi_thread_run` -/
  | setMultiThreadRun

def loggerStep (g : LoggerInfo) : LoggerAct → Option LoggerInfo
  | .putTx dev ptr => some (loggerPutTxBuffer g dev ptr).2
  | .putRx dev ptr => some (loggerPutRxBuffer g dev ptr).2
  | .getTx dev => some (loggerGetTxByte g dev).2
  | .processRun => some (if g.isInit && !g.rx.isEmpty then { g with rx := g.rx.get.2 } else g)
  | .setMultiThreadRun => some { g with isMultiThreadRun := true }

/-- A ring of the logger's size that stands for some queue. -/
def RingOk (cb : CircularBuffer) : Prop := cb.size = loggerBufferSize ∧ ∃ q, cb.Refines q

/-- What every call keeps. -/
structure LoggerOk (g : LoggerInfo) : Prop where
  ready : g.Ready
  tx : RingOk g.tx
  rx : RingOk g.rx

theorem loggerInit_ok (g : LoggerInfo) : LoggerOk (loggerInit g) where
  ready := loggerInit_ready g
  tx := ⟨rfl, [], CircularBuffer.init_refines (by decide) _⟩
  rx := ⟨rfl, [], CircularBuffer.init_refines (by decide) _⟩

theorem RingOk.putBuffer {cb cb' : CircularBuffer} (h : RingOk cb) {ptr : List UInt8}
    (hput : putBuffer cb ptr = some cb') : RingOk cb' := by
  obtain ⟨hs, q, hq⟩ := h
  by_cases hroom : q.length + ptr.length ≤ loggerBufferSize
  · obtain ⟨cb1, hput1, hs1, hq1⟩ := (putBuffer_spec hq hs ptr).1 hroom
    rw [hput] at hput1
    cases hput1
    exact ⟨hs1, _, hq1⟩
  · rcases (putBuffer_spec hq hs ptr).2 (Nat.not_le.1 hroom) with hnone | ⟨-, hsame⟩
    · rw [hput] at hnone
      cases hnone
    · rw [hput] at hsame
      cases hsame
      exact ⟨hs, q, hq⟩

theorem RingOk.get {cb : CircularBuffer} (h : RingOk cb) : RingOk cb.get.2 := by
  obtain ⟨hs, q, hq⟩ := h
  exact ⟨by rw [CircularBuffer.get_size, hs], _, (CircularBuffer.get_refines hq).2⟩

theorem loggerStep_ok {g g' : LoggerInfo} {a : LoggerAct} (h : LoggerOk g)
    (hstep : loggerStep g a = some g') : LoggerOk g' := by
  cases a with
  | putTx dev ptr =>
    cases hstep
    unfold loggerPutTxBuffer
    split
    · split
      · next cb hput => exact ⟨⟨h.ready.isInit, h.ready.device⟩, h.tx.putBuffer hput, h.rx⟩
      · exact h
    · exact h
  | putRx dev ptr =>
    cases hstep
    unfold loggerPutRxBuffer
    split
    · split
      · next cb hput => exact ⟨⟨h.ready.isInit, h.ready.device⟩, h.tx, h.rx.putBuffer hput⟩
      · exact h
    · exact h
  | getTx dev =>
    cases hstep
    unfold loggerGetTxByte
    split
    · exact ⟨⟨h.ready.isInit, h.ready.device⟩, h.tx.get, h.rx⟩
    · exact h
  | processRun =>
    cases hstep
    split
    · exact ⟨⟨h.ready.isInit, h.ready.device⟩, h.tx, h.rx.get⟩
    · exact h
  | setMultiThreadRun =>
    cases hstep
    exact ⟨⟨h.ready.isInit, h.ready.device⟩, h.tx, h.rx⟩

/-- **When a put tells the truth**, in every state calls reach from
`logger_init`: unless it is a single byte for a full ring. -/
theorem logger_put_truthful_iff (g0 g : LoggerInfo) (acts : List LoggerAct)
    (hrun : exec loggerStep (loggerInit g0) acts = some g) (ptr : List UInt8) :
    (Truthful g.tx ptr (loggerPutTxBuffer g g.device ptr).1 (loggerPutTxBuffer g g.device ptr).2.tx ↔
        ¬ (ptr.length = 1 ∧ g.tx.currentSize = loggerBufferSize)) ∧
      (Truthful g.rx ptr (loggerPutRxBuffer g g.device ptr).1 (loggerPutRxBuffer g g.device ptr).2.rx ↔
        ¬ (ptr.length = 1 ∧ g.rx.currentSize = loggerBufferSize)) := by
  have hok : LoggerOk g := exec_inv_all (fun _ _ _ h hstep => loggerStep_ok h hstep) (loggerInit_ok g0) hrun
  obtain ⟨htx, q, hq⟩ := hok.tx
  obtain ⟨hrx, r, hr⟩ := hok.rx
  rw [loggerPutTxBuffer_eq hok.ready, loggerPutRxBuffer_eq hok.ready]
  exact ⟨ringPut_truthful_iff hq htx ptr, ringPut_truthful_iff hr hrx ptr⟩

/-- A message that fits. -/
theorem logger_put_truthful_iff_room :
    let g := (loggerPutTxBuffer (loggerInit zeroInfo) .usart [1, 2]).2
    Truthful g.tx [3] (loggerPutTxBuffer g g.device [3]).1 (loggerPutTxBuffer g g.device [3]).2.tx :=
  (logger_put_truthful_iff zeroInfo _ [.putTx .usart [1, 2]] rfl [3]).1.2 (by decide)

/-! ## A full ring -/

/-- `n` single bytes fill the ring up to `n`. -/
theorem exec_fill (g0 : LoggerInfo) (b : UInt8) {n : ℕ} (hn : n ≤ loggerBufferSize) :
    ∃ g, exec loggerStep (loggerInit g0) (List.replicate n (.putTx .usart [b])) = some g ∧
      g.tx.currentSize = n := by
  induction n with
  | zero => exact ⟨loggerInit g0, rfl, rfl⟩
  | succ n ih =>
    obtain ⟨g, hrun, hcount⟩ := ih (by omega)
    have hok : LoggerOk g := exec_inv_all (fun _ _ _ h hstep => loggerStep_ok h hstep) (loggerInit_ok g0) hrun
    obtain ⟨hs, -⟩ := hok.tx
    have hput : g.tx.put b = { g.tx.store b with currentSize := g.tx.currentSize + 1 } := if_pos (by omega)
    refine ⟨{ g with tx := g.tx.put b }, ?_, ?_⟩
    · rw [List.replicate_succ', exec_append]
      refine ⟨g, hrun, exec_cons.2 ⟨_, ?_, rfl⟩⟩
      simp only [loggerStep, loggerPutTxBuffer, hok.ready.serves, putBuffer_single, ↓reduceIte]
    · simp only [hput]
      omega

/-- The byte a full ring drops with `GLOBAL_OK`. -/
theorem logger_put_full_ok :
    ¬ ∀ (g0 g : LoggerInfo) (acts : List LoggerAct), exec loggerStep (loggerInit g0) acts = some g →
      ∀ ptr : List UInt8, ptr.length ≤ 255 →
        Truthful g.tx ptr (loggerPutTxBuffer g g.device ptr).1 (loggerPutTxBuffer g g.device ptr).2.tx ∧
          Truthful g.rx ptr (loggerPutRxBuffer g g.device ptr).1
            (loggerPutRxBuffer g g.device ptr).2.rx := by
  intro hall
  obtain ⟨g, hrun, hfull⟩ := exec_fill zeroInfo 0 (Nat.le_refl loggerBufferSize)
  have hok : LoggerOk g := exec_inv_all (fun _ _ _ h hstep => loggerStep_ok h hstep)
    (loggerInit_ok zeroInfo) hrun
  obtain ⟨hs, q, hq⟩ := hok.tx
  have ht := (hall zeroInfo g _ hrun [1] (by decide)).1
  rw [loggerPutTxBuffer_eq hok.ready] at ht
  exact (ringPut_truthful_iff hq hs [1]).1 ht ⟨rfl, hfull⟩

end Stm32Handler.Logger
