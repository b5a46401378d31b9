import Stm32Handler.Lib.Run
import Stm32Handler.Logger.Info

/-!
# The transmit path

`uart_logger_write` puts a message into the TX ring with interrupts disabled
and then, if the put returned `GLOBAL_OK`, sets `UART_IT_TXE`; the transmit
half of `USART1_IRQHandler` sends one byte, or clears `UART_IT_TXE` when there
is none. A writer is two steps (`put`, `enable`), the handler is one; any
number of writers take turns, each with any number of messages.

`TxInv` ties the ring, the enable flag and the writers' places together: a
non-empty ring has `UART_IT_TXE` set or a writer about to set it, and what was
sent followed by what is in the ring is the messages that found room.
-/

namespace Stm32Handler.Logger

/-- A writer's next step: start a message, or set `UART_IT_TXE` for the one
that was just put. -/
inductive TxPc where
  | idle
  | enable
  deriving DecidableEq

/-- The logger, the flag `UART_IT_TXE`, every writer's place, the bytes given
to `UART_SendData`, and the messages offered so far, each with the room the
ring had for it. -/
structure TxState (ω : Type*) where
  info : LoggerInfo
  txe : Bool
  pc : ω → TxPc
  sent : List UInt8
  offered : List (List UInt8 × ℕ)

inductive TxAct (ω : Type*) where
  | put (w : ω) (msg : List UInt8)
  | enable (w : ω)
  | isr

section

variable {ω : Type*} [DecidableEq ω]

/-- The first half of `uart_logger_write`, with interrupts disabled. -/
def txPut (s : TxState ω) (w : ω) (msg : List UInt8) : TxState ω :=
  let r := loggerPutTxBuffer s.info .usart msg
  { s with
    info := r.2
    pc := Function.update s.pc w (if r.1 = .ok then .enable else .idle)
    offered := s.offered ++ [(msg, loggerBufferSize - s.info.tx.currentSize)] }

/-- The second half: `__HAL_UART_ENABLE_IT(&huart1, UART_IT_TXE)`. -/
def txEnable (s : TxState ω) (w : ω) : TxState ω :=
  { s with txe := true, pc := Function.update s.pc w .idle }

/-- The transmit half of `USART1_IRQHandler`. -/
def txIsr (s : TxState ω) : TxState ω :=
  match loggerGetTxByte s.info .usart with
  | (none, info) => { s with info := info, txe := false }
  | (some b, info) => { s with info := info, sent := s.sent ++ [b] }

/-- A message has at most 255 bytes (`uint8_t size`); the handler runs only
while `UART_IT_TXE` is set. -/
def txStep (s : TxState ω) : TxAct ω → Option (TxState ω)
  | .put w msg => if s.pc w = .idle ∧ msg.length ≤ 255 then some (txPut s w msg) else none
  | .enable w => if s.pc w = .enable then some (txEnable s w) else none
  | .isr => if s.txe then some (txIsr s) else none

/-- `logger_init` has run; only the receive interrupt is enabled. -/
def txInit (g : LoggerInfo) : TxState ω :=
  { info := loggerInit g, txe := false, pc := fun _ => .idle, sent := [], offered := [] }

/-- A put offers its message to the room there is; no other action offers any. -/
def offer (s : TxState ω) : TxAct ω → List (List UInt8 × ℕ)
  | .put _ msg => [(msg, loggerBufferSize - s.info.tx.currentSize)]
  | .enable _ | .isr => []

/-- The messages offered are those of the puts of the run. -/
theorem offered_history {s s' : TxState ω} {acts : List (TxAct ω)}
    (hrun : exec txStep s acts = some s') : s'.offered = s.offered ++ history txStep offer s acts := by
  refine exec_history (show ∀ s a s', txStep s a = some s' → s'.offered = s.offered ++ offer s a from ?_) hrun
  intro s a s' hs
  cases a with
  | put w msg =>
    simp only [txStep, Option.ite_none_right_eq_some, Option.some.injEq] at hs
    obtain ⟨-, rfl⟩ := hs
    rfl
  | enable w =>
    simp only [txStep, Option.ite_none_right_eq_some, Option.some.injEq] at hs
    obtain ⟨-, rfl⟩ := hs
    exact (List.append_nil _).symm
  | isr =>
    simp only [txStep, Option.ite_none_right_eq_some, Option.some.injEq] at hs
    obtain ⟨-, rfl⟩ := hs
    rw [txIsr]
    split <;> exact (List.append_nil _).symm

/-- The messages that found room, back to back. -/
def stored (offered : List (List UInt8 × ℕ)) : List UInt8 :=
  ((offered.filter fun m => m.1.length ≤ m.2).map Prod.fst).flatten

theorem stored_append (offered : List (List UInt8 × ℕ)) (msg : List UInt8) (room : ℕ) :
    stored (offered ++ [(msg, room)]) =
      stored offered ++ if msg.length ≤ room then msg else [] := by
  unfold stored
  by_cases h : msg.length ≤ room <;> simp [h]

/-! ## The invariant -/

structure TxInv (s : TxState ω) : Prop where
  ready : s.info.Ready
  sizeEq : s.info.tx.size = loggerBufferSize
  ring : s.info.tx.Refines s.info.tx.bytes
  wake : s.info.tx.currentSize ≠ 0 → s.txe = true ∨ ∃ w, s.pc w = .enable
  bytesEq : s.sent ++ s.info.tx.bytes = stored s.offered

omit [DecidableEq ω] in
theorem txInit_inv (g : LoggerInfo) : TxInv (txInit (ω := ω) g) where
  ready := loggerInit_ready g
  sizeEq := rfl
  ring := CircularBuffer.init_refines (by decide) _
  wake := fun h => absurd rfl h
  bytesEq := rfl

/-- A message that found room is in the ring as a whole, and its writer goes
on to set the flag. -/
theorem txPut_room {s : TxState ω} (h : TxInv s) (w : ω) {msg : List UInt8}
    (hroom : msg.length ≤ loggerBufferSize - s.info.tx.currentSize) : TxInv (txPut s w msg) := by
  obtain ⟨hready, hsize, hring, hwake, hbytes⟩ := h
  have hlen := hring.length_eq
  have hle := hring.countLe
  rw [hsize] at hle
  obtain ⟨cb, hput, hcbs, hcb⟩ := (putBuffer_spec hring hsize msg).1 (by omega)
  have hr : loggerPutTxBuffer s.info .usart msg = (.ok, { s.info with tx := cb }) := by
    simp only [loggerPutTxBuffer, hready.serves, ↓reduceIte, hput]
  simp only [txPut, hr]
  refine ⟨⟨hready.isInit, hready.device⟩, hcbs, ?_, fun _ => .inr ⟨w, Function.update_self ..⟩, ?_⟩
  · rw [hcb.bytesEq]
    exact hcb
  · rw [stored_append, if_pos hroom, hcb.bytesEq, ← hbytes, List.append_assoc]

/-- A message without room leaves the ring alone; a writer that stays idle had
nothing to announce. -/
theorem txPut_full {s : TxState ω} (h : TxInv s) {w : ω} (hidle : s.pc w = .idle) {msg : List UInt8}
    (hroom : loggerBufferSize - s.info.tx.currentSize < msg.length) : TxInv (txPut s w msg) := by
  obtain ⟨hready, hsize, hring, hwake, hbytes⟩ := h
  have hlen := hring.length_eq
  have hinfo : (loggerPutTxBuffer s.info .usart msg).2 = s.info := by
    simp only [loggerPutTxBuffer, hready.serves, ↓reduceIte]
    rcases (putBuffer_spec hring hsize msg).2 (by omega) with hnone | ⟨-, hsame⟩
    · rw [hnone]
    · rw [hsame]
  have hstored : stored (s.offered ++ [(msg, loggerBufferSize - s.info.tx.currentSize)]) =
      stored s.offered := by
    rw [stored_append, if_neg (by omega), List.append_nil]
  simp only [txPut, hinfo]
  refine ⟨hready, hsize, hring, fun hne => ?_, by rw [hstored]; exact hbytes⟩
  rcases hwake hne with htxe | ⟨v, hv⟩
  · exact .inl htxe
  · refine .inr ⟨v, ?_⟩
    have hvw : v ≠ w := fun e => by rw [e, hidle] at hv; cases hv
    exact (Function.update_of_ne hvw _ _).trans hv

theorem txEnable_inv {s : TxState ω} (h : TxInv s) (w : ω) : TxInv (txEnable s w) :=
  ⟨h.ready, h.sizeEq, h.ring, fun _ => .inl rfl, h.bytesEq⟩

omit [DecidableEq ω] in
/-- The handler clears the flag only when it found the ring empty. -/
theorem txIsr_inv {s : TxState ω} (h : TxInv s) (htxe : s.txe = true) : TxInv (txIsr s) := by
  obtain ⟨hready, hsize, hring, hwake, hbytes⟩ := h
  obtain ⟨hget, hrest⟩ := CircularBuffer.get_refines hring
  by_cases h0 : s.info.tx.currentSize = 0
  · have hr : loggerGetTxByte s.info .usart = (none, s.info) := by
      have he : s.info.tx.isEmpty = true := (CircularBuffer.isEmpty_iff _).2 h0
      simp [loggerGetTxByte, he]
    simp only [txIsr, hr]
    exact ⟨hready, hsize, hring, fun hne => absurd h0 hne, hbytes⟩
  · have hlen := hring.length_eq
    cases hq : s.info.tx.bytes with
    | nil => rw [hq] at hlen; exact absurd hlen.symm h0
    | cons b q =>
      rw [hq] at hget hrest hbytes
      have hr : loggerGetTxByte s.info .usart = (some b, { s.info with tx := s.info.tx.get.2 }) := by
        have hne : s.info.tx.isEmpty = false := by simp [CircularBuffer.isEmpty, h0]
        simp only [loggerGetTxByte, hready.serves, hne, Bool.not_false, Bool.and_self, ↓reduceIte, hget,
          fifoGet]
      simp only [txIsr, hr]
      refine ⟨⟨hready.isInit, hready.device⟩, ?_, ?_, fun _ => .inl htxe, ?_⟩
      · rw [CircularBuffer.get_size]
        exact hsize
      · rw [hrest.bytesEq]
        exact hrest
      · rw [hrest.bytesEq, ← hbytes]
        simp [fifoGet]

theorem txInv_step {s s' : TxState ω} {a : TxAct ω} (h : TxInv s) (hs : txStep s a = some s') :
    TxInv s' := by
  cases a with
  | put w msg =>
    simp only [txStep, Option.ite_none_right_eq_some, Option.some.injEq] at hs
    obtain ⟨⟨hidle, -⟩, rfl⟩ := hs
    by_cases hroom : msg.length ≤ loggerBufferSize - s.info.tx.currentSize
    · exact txPut_room h w hroom
    · exact txPut_full h hidle (by omega)
  | enable w =>
    simp only [txStep, Option.ite_none_right_eq_some, Option.some.injEq] at hs
    obtain ⟨-, rfl⟩ := hs
    exact txEnable_inv h w
  | isr =>
    simp only [txStep, Option.ite_none_right_eq_some, Option.some.injEq] at hs
    obtain ⟨htxe, rfl⟩ := hs
    exact txIsr_inv h htxe

/-- **No stuck data and no mixing**: in every interleaving of the writers with
the handler, a non-empty ring has `UART_IT_TXE` set or a writer between its
successful put and its enable step, and the bytes sent followed by the bytes
in the ring are the messages that found room, each whole, in the order of the
puts. -/
theorem tx_awake_and_whole (g : LoggerInfo) (acts : List (TxAct ω)) (s : TxState ω)
    (hrun : exec txStep (txInit g) acts = some s) :
    (s.info.tx.currentSize ≠ 0 → s.txe = true ∨ ∃ w, s.pc w = .enable) ∧
      s.sent ++ window s.info.tx.data s.info.tx.size s.info.tx.tail s.info.tx.currentSize =
        ((s.offered.filter fun m => m.1.length ≤ m.2).map Prod.fst).flatten := by
  have h := exec_inv_all (I := TxInv) (fun _ _ _ h hs => txInv_step h hs) (txInit_inv g) hrun
  exact ⟨h.wake, h.bytesEq⟩

/-- Two writers, the second putting its message before the first enables the
interrupt. -/
theorem tx_awake_and_whole_two :
    ∃ s, exec txStep (txInit (ω := Bool) zeroInfo)
        [.put true [1, 2], .put false [3], .enable true, .isr] = some s ∧
      (s.info.tx.currentSize ≠ 0 → s.txe = true ∨ ∃ w, s.pc w = .enable) ∧
      s.sent ++ window s.info.tx.data s.info.tx.size s.info.tx.tail s.info.tx.currentSize =
        ((s.offered.filter fun m => m.1.length ≤ m.2).map Prod.fst).flatten :=
  ⟨_, rfl, tx_awake_and_whole zeroInfo [.put true [1, 2], .put false [3], .enable true, .isr] _ rfl⟩

end

end Stm32Handler.Logger
