import Stm32Handler.Lib.Run
import Stm32Handler.Logger.Info

/-!
# The receive ring under interrupts

`logger_process_run` fetches one byte of the RX ring with `CircularBufferGet`
and hands it to `cmd_process`, while `USART1_IRQHandler` may put a byte between
any two statements of it. The consumer's program counter `RxPc` names the next
statement; `--currentSize` is a load and a store. `RxAct.run` is one statement
of the consumer, `RxAct.isr b` one whole `logger_put_rx_buffer(dev, &b, 1)`.

The two shared-count statements are not protected: a put between the load and
the store is overwritten, and a put into a full ring between the store and the
read of the slot replaces the byte being fetched. `Calm` is the absence of
these two; under it `RxInv` is kept by every step (`rxInv_step`), so the
consumer sees exactly what the handler stored.
-/

namespace Stm32Handler.Logger

/-- The next statement of `logger_process_run`. -/
inductive RxPc where
  /-- `is_init` and `!CircularBufferIsEmpty` -/
  | start
  /-- the test of the macro -/
  | test
  /-- the load of `--currentSize` -/
  | load
  /-- its store, `v` being the value loaded -/
  | store (v : ℕ)
  /-- `c = data[tail++]` -/
  | read
  /-- `if (tail == size) tail = 0` -/
  | wrap
  /-- `cmd_process(c)` -/
  | hand

/-- A `CircularBufferGet` is under way. -/
def RxPc.inGet : RxPc → Bool
  | .load | .store _ | .read | .wrap => true
  | _ => false

/-- The logger, the consumer's place and its local `c`, and two histories: the
bytes the handler stored and the bytes handed to `cmd_process`. -/
structure RxState where
  info : LoggerInfo
  pc : RxPc
  c : UInt8
  stored : List UInt8
  handed : List UInt8

inductive RxAct where
  | run
  | isr (b : UInt8)

/-- One statement of `logger_process_run`. -/
def rxRun (s : RxState) : RxState :=
  match s.pc with
  | .start => if s.info.isInit && !s.info.rx.isEmpty then { s with pc := .test } else s
  | .test => { s with pc := if s.info.rx.currentSize ≠ 0 then .load else .hand }
  | .load => { s with pc := .store s.info.rx.currentSize }
  | .store v =>
    { s with pc := .read, info := { s.info with rx := { s.info.rx with currentSize := v - 1 } } }
  | .read =>
    { s with
      pc := .wrap
      c := s.info.rx.data s.info.rx.tail
      info := { s.info with rx := { s.info.rx with tail := s.info.rx.tail + 1 } } }
  | .wrap =>
    { s with
      pc := .hand
      info := { s.info with rx := { s.info.rx with
        tail := if s.info.rx.tail = s.info.rx.size then 0 else s.info.rx.tail } } }
  | .hand => { s with pc := .start, handed := s.handed ++ [s.c] }

/-- One run of the receive half of `USART1_IRQHandler`. The byte was stored if
the count went up. -/
def rxIsr (s : RxState) (b : UInt8) : RxState :=
  let info := (loggerPutRxBuffer s.info .usart [b]).2
  { s with
    info := info
    stored := if info.rx.currentSize = s.info.rx.currentSize + 1 then s.stored ++ [b] else s.stored }

def rxStep (s : RxState) : RxAct → Option RxState
  | .run => some (rxRun s)
  | .isr b => some (rxIsr s b)

/-- `logger_init` has run; `c` is whatever the stack held. -/
def rxInit (g : LoggerInfo) (c : UInt8) : RxState :=
  { info := loggerInit g, pc := .start, c := c, stored := [], handed := [] }

/-- What the consumer is promised: the bytes it handed on are the first stored
ones, in order, and outside a `Get` the indices and the count agree. -/
def RxGood (s : RxState) : Prop :=
  s.handed <+: s.stored ∧
    (s.pc.inGet = false →
      s.info.rx.head = (s.info.rx.tail + s.info.rx.currentSize) % s.info.rx.size ∧
        s.info.rx.currentSize ≤ s.info.rx.size)

/-- The interrupt does not hit the two open statements: between the load and
the store of the count it finds the ring full (and drops the byte), and while
the oldest byte of a full ring is being fetched it brings the same byte. -/
def Calm (s : RxState) : RxAct → Prop
  | .run => True
  | .isr b =>
    match s.pc with
    | .store _ => s.info.rx.size ≤ s.info.rx.currentSize
    | .read => s.info.rx.currentSize + 1 = s.info.rx.size → b = s.info.rx.data s.info.rx.tail
    | _ => True

/-! ## The invariant -/

/-- Bytes of the ring from `tail` on, the slot of a begun fetch included. -/
def RxPc.pending (pc : RxPc) (rx : CircularBuffer) : ℕ :=
  match pc with
  | .read => rx.currentSize + 1
  | _ => rx.currentSize

/-- The byte taken out of the ring and not yet handed on. -/
def RxPc.fetched (pc : RxPc) (c : UInt8) : List UInt8 :=
  match pc with
  | .wrap | .hand => [c]
  | _ => []

/-- What each statement may assume about the count and the tail. -/
def RxPc.Ok (pc : RxPc) (rx : CircularBuffer) : Prop :=
  match pc with
  | .test | .load => 0 < rx.currentSize ∧ rx.tail < rx.size
  | .store v => 0 < v ∧ v = rx.currentSize ∧ rx.tail < rx.size
  | .wrap => rx.tail ≤ rx.size
  | _ => rx.tail < rx.size

structure RxInv (s : RxState) : Prop where
  ready : s.info.Ready
  sizeEq : s.info.rx.size = loggerBufferSize
  headLt : s.info.rx.head < s.info.rx.size
  countLe : s.info.rx.currentSize ≤ s.info.rx.size
  pcOk : s.pc.Ok s.info.rx
  headEq : s.info.rx.head = (s.info.rx.tail + s.pc.pending s.info.rx) % s.info.rx.size
  bytesEq : s.handed ++ s.pc.fetched s.c ++
    window s.info.rx.data s.info.rx.size s.info.rx.tail (s.pc.pending s.info.rx) = s.stored

theorem rxInit_inv (g : LoggerInfo) (c : UInt8) : RxInv (rxInit g c) where
  ready := loggerInit_ready g
  sizeEq := rfl
  headLt := show 0 < loggerBufferSize by decide
  countLe := Nat.zero_le _
  pcOk := show 0 < loggerBufferSize by decide
  headEq := rfl
  bytesEq := rfl

theorem RxInv.good {s : RxState} (h : RxInv s) : RxGood s := by
  refine ⟨⟨_, by rw [← List.append_assoc]; exact h.bytesEq⟩, fun hget => ⟨?_, h.countLe⟩⟩
  have hpend : s.pc.pending s.info.rx = s.info.rx.currentSize := by
    unfold RxPc.pending
    split
    · next hpc => rw [hpc] at hget; cases hget
    · rfl
  rw [h.headEq, hpend]

/-! ## The consumer's statements -/

theorem rxRun_inv {s : RxState} (h : RxInv s) : RxInv (rxRun s) := by
  obtain ⟨⟨hinit, hdev⟩, hsize, hhead, hcount, hpc, hheq, hbytes⟩ := h
  cases hs : s.pc with
  | start =>
    simp only [RxPc.Ok, RxPc.pending, RxPc.fetched, hs] at hpc hheq hbytes
    simp only [rxRun, hs]
    split
    · next hne =>
      have : s.info.rx.currentSize ≠ 0 := by
        simp only [Bool.and_eq_true, Bool.not_eq_true', CircularBuffer.isEmpty, beq_eq_false_iff_ne,
          ne_eq] at hne
        exact hne.2
      exact ⟨⟨hinit, hdev⟩, hsize, hhead, hcount, ⟨Nat.pos_of_ne_zero this, hpc⟩, hheq, hbytes⟩
    · refine ⟨⟨hinit, hdev⟩, hsize, hhead, hcount, ?_, ?_, ?_⟩ <;> rw [hs]
      · exact hpc
      · exact hheq
      · exact hbytes
  | test =>
    simp only [RxPc.Ok, RxPc.pending, RxPc.fetched, hs] at hpc hheq hbytes
    simp only [rxRun, hs]
    rw [if_pos (Nat.pos_iff_ne_zero.1 hpc.1)]
    exact ⟨⟨hinit, hdev⟩, hsize, hhead, hcount, hpc, hheq, hbytes⟩
  | load =>
    simp only [RxPc.Ok, RxPc.pending, RxPc.fetched, hs] at hpc hheq hbytes
    simp only [rxRun, hs]
    exact ⟨⟨hinit, hdev⟩, hsize, hhead, hcount, ⟨hpc.1, rfl, hpc.2⟩, hheq, hbytes⟩
  | store v =>
    simp only [RxPc.Ok, RxPc.pending, RxPc.fetched, hs] at hpc hheq hbytes
    simp only [rxRun, hs]
    obtain ⟨hv, rfl, htail⟩ := hpc
    have hback : s.info.rx.currentSize - 1 + 1 = s.info.rx.currentSize := by omega
    refine ⟨⟨hinit, hdev⟩, hsize, hhead, Nat.le_trans (Nat.sub_le ..) hcount, htail, ?_, ?_⟩
    · simpa only [RxPc.pending, hback] using hheq
    · simpa only [RxPc.pending, RxPc.fetched, hback] using hbytes
  | read =>
    simp only [RxPc.Ok, RxPc.pending, RxPc.fetched, hs] at hpc hheq hbytes
    simp only [rxRun, hs]
    refine ⟨⟨hinit, hdev⟩, hsize, hhead, hcount, Nat.succ_le_of_lt hpc, ?_, ?_⟩
    · simp only [RxPc.pending]
      rw [hheq]
      congr 1
      omega
    · simp only [RxPc.pending, RxPc.fetched]
      rw [window_cons, Nat.mod_eq_of_lt hpc] at hbytes
      simpa using hbytes
  | wrap =>
    simp only [RxPc.Ok, RxPc.pending, RxPc.fetched, hs] at hpc hheq hbytes
    have hpos : 0 < s.info.rx.size := by omega
    simp only [rxRun, hs, wrap_end_eq_mod hpc]
    refine ⟨⟨hinit, hdev⟩, hsize, hhead, hcount, Nat.mod_lt _ hpos, ?_, ?_⟩
    · simp only [RxPc.pending]
      rw [hheq, Nat.mod_add_mod]
    · simp only [RxPc.pending, RxPc.fetched, window_mod]
      exact hbytes
  | hand =>
    simp only [RxPc.Ok, RxPc.pending, RxPc.fetched, hs] at hpc hheq hbytes
    simp only [rxRun, hs]
    exact ⟨⟨hinit, hdev⟩, hsize, hhead, hcount, hpc, hheq, by
      simpa only [RxPc.pending, RxPc.fetched, List.append_nil] using hbytes⟩

/-! ## The handler -/

theorem rxIsr_info {s : RxState} (h : s.info.Ready) (b : UInt8) :
    (loggerPutRxBuffer s.info .usart [b]).2 = { s.info with rx := s.info.rx.put b } := by
  simp only [loggerPutRxBuffer, h.serves, ↓reduceIte, putBuffer_single]

theorem rxIsr_full {s : RxState} (h : s.info.Ready) (hfull : s.info.rx.size ≤ s.info.rx.currentSize)
    (b : UInt8) : rxIsr s b = s := by
  simp only [rxIsr, rxIsr_info h, CircularBuffer.put_full hfull]
  rw [if_neg (by omega)]

/-- Past the pending bytes there is a free slot, or it is the slot being read
and the handler brings its byte again. -/
theorem window_rx_put {s : RxState} (h : RxInv s) (hroom : s.info.rx.currentSize < s.info.rx.size)
    {b : UInt8} (hcalm : Calm s (.isr b)) :
    window (Function.update s.info.rx.data s.info.rx.head b) s.info.rx.size s.info.rx.tail
        (s.pc.pending s.info.rx + 1) =
      window s.info.rx.data s.info.rx.size s.info.rx.tail (s.pc.pending s.info.rx) ++ [b] := by
  have hheq := h.headEq
  by_cases hp : s.pc.pending s.info.rx < s.info.rx.size
  · rw [hheq, window_push hp]
  · have hs : s.pc = .read := by
      unfold RxPc.pending at hp
      split at hp
      · next hs => exact hs
      · omega
    have htail : s.info.rx.tail < s.info.rx.size := by
      have := h.pcOk
      rwa [hs] at this
    simp only [hs, RxPc.pending] at hp hheq ⊢
    have hlast : s.info.rx.currentSize + 1 = s.info.rx.size := by omega
    simp only [Calm, hs] at hcalm
    rw [hlast, Nat.add_mod_right, Nat.mod_eq_of_lt htail] at hheq
    rw [hheq, hcalm hlast, Function.update_eq_self, window_succ, hlast, Nat.add_mod_right,
      Nat.mod_eq_of_lt htail]

/-- A put that finds room, with the field values it leaves. -/
theorem put_room {cb : CircularBuffer} (hhead : cb.head < cb.size)
    (hroom : cb.currentSize < cb.size) (b : UInt8) :
    cb.put b = ⟨cb.size, cb.currentSize + 1, (cb.head + 1) % cb.size, cb.tail,
      Function.update cb.data cb.head b⟩ := by
  simp only [CircularBuffer.put, if_pos hroom, CircularBuffer.store, wrap_eq_mod hhead]

/-- A stored byte leaves the consumer's place alone and ends up behind the
bytes already pending. -/
theorem rxIsr_room {s : RxState} (h : RxInv s) (hroom : s.info.rx.currentSize < s.info.rx.size)
    {b : UInt8} (hcalm : Calm s (.isr b)) : RxInv (rxIsr s b) := by
  have hwin := window_rx_put h hroom hcalm
  obtain ⟨hready, hsize, hhead, hcount, hpc, hheq, hbytes⟩ := h
  have hpos : 0 < s.info.rx.size := by omega
  have hput := put_room hhead hroom b
  have hpend : s.pc.pending (s.info.rx.put b) = s.pc.pending s.info.rx + 1 := by
    rw [hput]
    unfold RxPc.pending
    split <;> rfl
  simp only [rxIsr, rxIsr_info hready]
  rw [if_pos (by rw [hput])]
  refine ⟨⟨hready.isInit, hready.device⟩, ?_, ?_, ?_, ?_, ?_, ?_⟩
  · rw [hput]
    exact hsize
  · rw [hput]
    exact Nat.mod_lt _ hpos
  · rw [hput]
    exact hroom
  · rw [hput]
    cases hs : s.pc with
    | store v =>
      simp only [Calm, hs] at hcalm
      omega
    | test | load =>
      simp only [hs, RxPc.Ok] at hpc ⊢
      exact ⟨Nat.succ_pos _, hpc.2⟩
    | start | read | wrap | hand =>
      simp only [hs, RxPc.Ok] at hpc ⊢
      exact hpc
  · simp only [hpend]
    rw [hput, hheq, Nat.mod_add_mod, Nat.add_assoc]
  · simp only [hpend]
    rw [hput, ← hbytes, List.append_assoc _ _ [b], ← hwin]

theorem rxInv_step {s s' : RxState} {a : RxAct} (h : RxInv s) (hcalm : Calm s a)
    (hs : rxStep s a = some s') : RxInv s' := by
  cases a with
  | run =>
    cases hs
    exact rxRun_inv h
  | isr b =>
    cases hs
    by_cases hroom : s.info.rx.currentSize < s.info.rx.size
    · exact rxIsr_room h hroom hcalm
    · rw [rxIsr_full h.ready (by omega)]
      exact h

/-! ## Runs -/

/-- **Calm runs lose nothing**: in every run of consumer statements and
interrupts whose interrupts are calm, the bytes handed to `cmd_process` are
the first bytes the handler stored, in order, and outside a `Get` the ring's
indices and count agree. -/
theorem rx_calm_good (g : LoggerInfo) (c : UInt8) (acts : List RxAct) (s : RxState)
    (hcalm : Along rxStep Calm (rxInit g c) acts) (hrun : exec rxStep (rxInit g c) acts = some s) :
    RxGood s :=
  (exec_inv (fun _ _ _ h hc hs => rxInv_step h hc hs) (rxInit_inv g c) hcalm hrun).good

/-- Two bytes arrive, one of them inside the fetch of the other. -/
theorem rx_calm_good_two :
    ∃ s, exec rxStep (rxInit zeroInfo 0) [.isr 1, .run, .run, .isr 2, .run, .run, .run] = some s ∧
      RxGood s := by
  refine ⟨_, rfl, rx_calm_good zeroInfo 0 [.isr 1, .run, .run, .isr 2, .run, .run, .run] _ ?_ rfl⟩
  iterate 7 refine (along_cons rfl).2 ⟨trivial, ?_⟩
  trivial

/-- An interrupt between the load and the store of the count: the store
overwrites the handler's increment, and the second byte is lost. -/
theorem rx_update_lost :
    ¬ ∀ (g : LoggerInfo) (c : UInt8) (acts : List RxAct) (s : RxState),
      exec rxStep (rxInit g c) acts = some s → RxGood s := by
  intro h
  have hgood := h zeroInfo 0 [.isr 1, .run, .run, .run, .isr 2, .run, .run, .run] _ rfl
  exact absurd (hgood.2 rfl).1 (by decide)

/-! ## What a step that is not calm does

From any state of a calm run, an interrupt that hits one of the two open
statements leaves a state that is not good once the consumer has gone on for
three statements. -/

/-- The handler's increment is overwritten: after the fetch the indices and
the count disagree. -/
theorem rxIsr_store_bad {s : RxState} (h : RxInv s) {v : ℕ} (hs : s.pc = .store v) {b : UInt8}
    (hcalm : ¬ Calm s (.isr b)) : ¬ RxGood (rxRun (rxRun (rxRun (rxIsr s b)))) := by
  have hpc := h.pcOk
  simp only [Calm, hs, Nat.not_le] at hcalm
  simp only [RxPc.Ok, hs] at hpc
  have hheq := h.headEq
  simp only [RxPc.pending, hs] at hheq
  intro hgood
  have hidx := (hgood.2 (by simp only [rxIsr, rxRun, hs, RxPc.inGet])).1
  simp only [rxIsr, rxRun, hs, rxIsr_info h.ready, put_room h.headLt hcalm, wrap_eq_mod hpc.2.2,
    Nat.mod_add_mod] at hidx
  rw [hheq, Nat.mod_add_mod, ← hpc.2.1,
    show s.info.rx.tail + 1 + (v - 1) = s.info.rx.tail + v by omega] at hidx
  exact add_mod_ne (k := s.info.rx.tail + v) (i := 0) Nat.one_pos (by rw [h.sizeEq]; decide) hidx.symm

/-- The byte being fetched is replaced: what is handed on is not what was stored. -/
theorem rxIsr_read_bad {s : RxState} (h : RxInv s) (hs : s.pc = .read) {b : UInt8}
    (hcalm : ¬ Calm s (.isr b)) : ¬ RxGood (rxRun (rxRun (rxRun (rxIsr s b)))) := by
  simp only [Calm, hs, not_forall] at hcalm
  obtain ⟨hlast, hne⟩ := hcalm
  have htail := h.pcOk
  simp only [RxPc.Ok, hs] at htail
  have hbytes := h.bytesEq
  simp only [RxPc.pending, RxPc.fetched, hs, window_cons, List.append_nil,
    Nat.mod_eq_of_lt htail] at hbytes
  have hheq := h.headEq
  simp only [RxPc.pending, hs, hlast, Nat.add_mod_right, Nat.mod_eq_of_lt htail] at hheq
  rintro ⟨hpre, -⟩
  simp only [rxIsr, rxRun, hs, rxIsr_info h.ready, put_room h.headLt (show _ < _ by omega), ↓reduceIte,
    hheq, Function.update_self, ← hbytes] at hpre
  rw [List.append_assoc, List.prefix_append_right_inj, List.cons_append, List.cons_prefix_cons] at hpre
  exact hne hpre.1

end Stm32Handler.Logger
