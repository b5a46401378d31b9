import Stm32Handler.Spi.W25qLine

/-!
# The operations of the W25Q driver, followed through

Each public operation from an idle line: the frames it sends and what it
returns, by the answers of the bus. All but the reads wait twice around their
command, and the command starts with exchange `2 * k + 3` if status read `k` is
the first clear one.
-/

namespace Stm32Handler.Spi

variable {ans : Answers} {id : BitVec 32}

/-- The operations without DMA. -/
inductive WqOp where
  | sectorErase (addr : BitVec 32)
  | blockErase (addr : BitVec 32)
  | chipErase
  | memoryRead (addr : BitVec 32) (num : ℕ)
  | memoryWrite (addr : BitVec 32) (pbuffer : List Byte)
  deriving DecidableEq

namespace WqOp

def call {m : Type → Type} [Monad m] (bus : WqBus m) (id : BitVec 32) : WqOp → m WqOpStatus
  | .sectorErase addr => bus.wqSectorErase id addr
  | .blockErase addr => bus.wqBlockErase id addr
  | .chipErase => bus.wqChipErase id
  | .memoryRead addr num => Prod.fst <$> bus.wqMemoryRead id addr num
  | .memoryWrite addr pbuffer => bus.wqMemoryWrite id addr pbuffer

def instruct : WqOp → Byte
  | .sectorErase _ => w25xSectorErase
  | .blockErase _ => w25xBlockErase
  | .chipErase => w25xChipErase
  | .memoryRead _ _ => w25xInstruRead
  | .memoryWrite _ _ => w25xPageProgram

/-- The address and the data that follow the command byte. -/
def rest (id : BitVec 32) : WqOp → List Byte
  | .sectorErase addr => addrBytes id (addr - addr % w25xSectorSize)
  | .blockErase addr => addrBytes id (addr - addr % w25xBlockSize)
  | .chipErase => []
  | .memoryRead addr num => addrBytes id addr ++ List.replicate num 0xFF
  | .memoryWrite addr pbuffer => addrBytes id addr ++ pbuffer

/-- It waits before and after its command. -/
def Waits : WqOp → Prop
  | .memoryRead _ _ => False
  | _ => True

instance : DecidablePred Waits := fun op => by
  cases op <;> unfold Waits <;> infer_instance

/-- The exchange the first wait starts with: the erases send the write enable
before it, the write after it. -/
def waitStart : WqOp → ℕ
  | .memoryWrite _ _ => 0
  | _ => 1

/-- What the last wait is called with. -/
def mode : WqOp → Byte
  | .blockErase _ | .chipErase => 1
  | _ => 0

/-- The frames before its first wait. -/
def opening (ans : Answers) : WqOp → List (List Exchange)
  | .memoryWrite _ _ => []
  | _ => [exchanges ans 0 [w25xInstruWren]]

/-- The frames between its first wait of `k` status reads and the command. -/
def enabling (ans : Answers) (k : ℕ) : WqOp → List (List Exchange)
  | .memoryWrite _ _ => [exchanges ans (2 * k) [w25xInstruWren]]
  | _ => []

/-- The frames before the command, with `k` status reads. -/
def lead (ans : Answers) (k : ℕ) (op : WqOp) : List (List Exchange) :=
  op.opening ans ++ (statusFrames ans op.waitStart k ++ op.enabling ans k)

/-- What it returns for a chip of another manufacturer: `WQ_OP_DEVICE_ERR`, but
`pdFAIL` in `wq_memory_write`. -/
def refusal : WqOp → WqOpStatus
  | .memoryWrite _ _ => .ok
  | _ => .deviceErr

theorem call_unmatched (hid : getManufacturerId id ≠ wq25ManufacturerId) (op : WqOp) (s : Line) :
    (op.call (lineBus ans).toWqBus id).run s = (op.refusal, s) := by
  cases op with
  | sectorErase addr =>
    rw [call, WqBus.wqSectorErase, WqBus.wqErase, if_pos hid]
    rfl
  | blockErase addr =>
    rw [call, WqBus.wqBlockErase, WqBus.wqErase, if_pos hid]
    rfl
  | chipErase =>
    rw [call, WqBus.wqChipErase, if_pos hid]
    rfl
  | memoryRead addr num =>
    rw [call, WqBus.wqMemoryRead, if_pos hid]
    rfl
  | memoryWrite addr pbuffer =>
    rw [call, WqBus.wqMemoryWrite, if_pos hid]
    rfl

end WqOp

/-- The last wait of a command and the value returned. -/
def finishLine (ans : Answers) (mode : Byte) (status : Bool) : LineM WqOpStatus := do
  if (← (lineBus ans).wqWaitBusy mode) ≠ .ok then return .timeoutErr
  if !status then return .comErr
  return .ok

/-- An operation after its first wait: it gives up, or goes on from the line
that the wait has left. -/
def afterWait (w : WqOpStatus × Line) (k : Line → WqOpStatus × Line) : WqOpStatus × Line :=
  if w.1 ≠ .ok then (.timeoutErr, w.2) else k w.2

/-- An erase, followed through: the write enable, a wait, the command. -/
def eraseLine (ans : Answers) (mode instruct : Byte) (rest : List Byte) (s : Line) :
    WqOpStatus × Line :=
  afterWait (((lineBus ans).wqWaitBusy 0).run (s.framed [exchanges ans s.sent [w25xInstruWren]]))
    fun s' => (finishLine ans mode (ans.exchange s'.sent).2).run
      (s'.framed [commandFrame ans s'.sent instruct rest])

theorem ClearAfter.unique {p k k' : ℕ} (h : ClearAfter ans p k) (h' : ClearAfter ans p k') : k = k' := by
  rcases Nat.lt_trichotomy k k' with hlt | heq | hgt
  · exact absurd h.clear (h'.busy k hlt)
  · exact heq
  · exact absurd h'.clear (h.busy k' hgt)

theorem afterWait_cases (ans : Answers) (s : Line) (k : Line → WqOpStatus × Line) :
    (∃ r < w25xWaitTimeout, ClearAfter ans s.sent r ∧
        afterWait (((lineBus ans).wqWaitBusy 0).run s) k = k (s.framed (statusFrames ans s.sent (r + 1)))) ∨
      (∀ j < w25xWaitTimeout, ¬ ClearAt ans s.sent j) ∧
        afterWait (((lineBus ans).wqWaitBusy 0).run s) k =
          (.timeoutErr, s.framed (statusFrames ans s.sent w25xWaitTimeout)) := by
  have hwait := wqWaitLoop_line ans s w25xWaitTimeout
  rcases hwait with ⟨r, hr, hafter, hrun⟩ | ⟨hbusy, hrun⟩
  · refine .inl ⟨r, hr, hafter, ?_⟩
    show afterWait (((lineBus ans).wqWaitLoop w25xWaitTimeout).run s) k = _
    rw [hrun]
    rfl
  · refine .inr ⟨hbusy, ?_⟩
    show afterWait (((lineBus ans).wqWaitLoop w25xWaitTimeout).run s) k = _
    rw [hrun]
    rfl

theorem finishLine_cases (ans : Answers) (s : Line) (mode : Byte) (status : Bool) :
    (∃ k < WqBus.waitRounds mode, ClearAfter ans s.sent k ∧ (finishLine ans mode status).run s =
        (if status then .ok else .comErr, s.framed (statusFrames ans s.sent (k + 1)))) ∨
      (∀ j < WqBus.waitRounds mode, ¬ ClearAt ans s.sent j) ∧ (finishLine ans mode status).run s =
        (.timeoutErr, s.framed (statusFrames ans s.sent (WqBus.waitRounds mode))) := by
  have hwait := wqWaitLoop_line ans s (WqBus.waitRounds mode)
  unfold finishLine WqBus.wqWaitBusy
  rw [line_bind]
  rcases hwait with ⟨k, hk, hafter, hrun⟩ | ⟨hbusy, hrun⟩
  · refine .inl ⟨k, hk, hafter, ?_⟩
    rw [hrun]
    cases status <;> rfl
  · refine .inr ⟨hbusy, ?_⟩
    rw [hrun]
    rfl

variable (hid : getManufacturerId id = wq25ManufacturerId)
include hid

theorem wqErase_line (ans : Answers) (s : Line) (instruct : Byte) (size : BitVec 32) (mode : Byte)
    (addr : BitVec 32) :
    ((lineBus ans).wqErase id instruct size mode addr).run s =
      eraseLine ans mode instruct (addrBytes id (addr - addr % size)) s := by
  unfold WqBus.wqErase eraseLine afterWait
  rw [if_neg (not_not_intro hid), line_bind, wqWriteEnable_line, line_bind, line_ite]
  split
  · rfl
  · exact command_line _ instruct (sends_spiSend _) (finishLine ans mode)

theorem wqChipErase_line (s : Line) :
    ((lineBus ans).wqChipErase id).run s =
      eraseLine ans 1 w25xChipErase [] s := by
  have hcommand := fun s' =>
    command_line s' w25xChipErase (sends_pure ans ()) (finishLine ans 1)
  simp only [pure_bind, ite_self] at hcommand
  unfold WqBus.wqChipErase eraseLine afterWait
  rw [if_neg (not_not_intro hid), line_bind, wqWriteEnable_line, line_bind, line_ite]
  split
  · rfl
  · exact hcommand _

theorem wqMemoryWrite_line (s : Line) (addr : BitVec 32) (pbuffer : List Byte) :
    ((lineBus ans).wqMemoryWrite id addr pbuffer).run s =
      afterWait (((lineBus ans).wqWaitBusy 0).run s) fun s' =>
        (finishLine ans 0 (ans.exchange (s'.sent + 1)).2).run
          (s'.framed [exchanges ans s'.sent [w25xInstruWren],
            commandFrame ans (s'.sent + 1) w25xPageProgram (addrBytes id addr ++ pbuffer)]) := by
  have hsends : Sends ans (do
      (lineBus ans).spiSend (addrBytes id addr)
      (lineBus ans).spiSend pbuffer) (addrBytes id addr ++ pbuffer) :=
    (sends_spiSend _).bind fun _ => sends_spiSend _
  unfold WqBus.wqMemoryWrite afterWait
  rw [if_neg (not_not_intro hid), line_bind, line_ite]
  split
  · rfl
  · generalize (((lineBus ans).wqWaitBusy 0).run s).2 = s'
    have hcommand := command_line (s'.framed [exchanges ans s'.sent [w25xInstruWren]])
      w25xPageProgram hsends (finishLine ans 0)
    rw [Line.framed_framed, Line.framed_sent, List.flatten_singleton, exchanges_length] at hcommand
    rw [line_bind, wqWriteEnable_line]
    exact hcommand

theorem wqMemoryRead_line (s : Line) (addr : BitVec 32) (num : ℕ) :
    (Prod.fst <$> (lineBus ans).wqMemoryRead id addr num).run s =
      (if (ans.exchange s.sent).2 then .ok else .comErr,
        s.framed [commandFrame ans s.sent w25xInstruRead
          (addrBytes id addr ++ List.replicate num 0xFF)]) := by
  have hsends : Sends ans (do
      (lineBus ans).spiSend (addrBytes id addr)
      (lineBus ans).spiReceive num) (addrBytes id addr ++ List.replicate num 0xFF) :=
    (sends_spiSend _).bind fun _ => sends_spiReceive num
  unfold WqBus.wqMemoryRead commandFrame
  rw [if_neg (not_not_intro hid), map_eq_pure_bind, line_bind, line_bind, csOn_line, line_bind,
    firstByte_line]
  cases hstatus : (ans.exchange s.sent).2 with
  | false =>
    simp only [hstatus, Bool.false_eq_true, ↓reduceIte, line_bind, csOff_line, line_pure, Bool.not_false]
  | true =>
    have hbody := hsends s (exchanges ans s.sent [w25xInstruRead])
    rw [line_bind] at hbody
    simp only [hstatus, ↓reduceIte, line_bind, line_pure, Bool.not_true, Bool.false_eq_true, hbody,
      csOff_line]
    rfl

theorem wqMemoryReadDma_line (s : Line) (addr : BitVec 32) (num : ℕ) :
    ((lineBus ans).wqMemoryReadDma id addr num).run s =
      (dmaCommand ans w25xInstruRead (addrBytes id addr)
        fun status => if !status then pure .comErr else pure .ok).run s := by
  unfold WqDmaBus.wqMemoryReadDma
  rw [if_neg (not_not_intro hid)]
  rfl

theorem wqMemoryWriteDma_line (s : Line) (addr : BitVec 32) (pbuffer : List Byte) :
    ((lineBus ans).wqMemoryWriteDma id addr pbuffer).run s =
      afterWait (((lineBus ans).wqWaitBusy 0).run s) fun s' =>
        (dmaCommand ans w25xPageProgram (addrBytes id addr) (finishLine ans 0)).run
          (s'.framed [exchanges ans s'.sent [w25xInstruWren]]) := by
  unfold WqDmaBus.wqMemoryWriteDma afterWait
  rw [if_neg (not_not_intro hid), line_bind, line_ite]
  split
  · rfl
  · rw [line_bind, wqWriteEnable_line]
    rfl

omit hid in
theorem eraseLine_cases (ans : Answers) (mode instruct : Byte) (rest : List Byte) :
    (∃ k < w25xWaitTimeout, ClearAfter ans 1 k ∧ eraseLine ans mode instruct rest idleLine =
        (finishLine ans mode (ans.exchange (2 * k + 3)).2).run (idleLine.framed
          ([exchanges ans 0 [w25xInstruWren]] ++ (statusFrames ans 1 (k + 1) ++ []) ++
            [commandFrame ans (2 * k + 3) instruct rest]))) ∨
      (∀ j < w25xWaitTimeout, ¬ ClearAt ans 1 j) ∧
        eraseLine ans mode instruct rest idleLine = (.timeoutErr, idleLine.framed
          ([exchanges ans 0 [w25xInstruWren]] ++ statusFrames ans 1 w25xWaitTimeout)) := by
  have hcases := afterWait_cases ans (idleLine.framed [exchanges ans 0 [w25xInstruWren]])
    fun s' => (finishLine ans mode (ans.exchange s'.sent).2).run
      (s'.framed [commandFrame ans s'.sent instruct rest])
  rcases hcases with ⟨k, hk, hafter, hrun⟩ | ⟨hbusy, hrun⟩
  · refine .inl ⟨k, hk, hafter, ?_⟩
    have hstate : (idleLine.framed [exchanges ans 0 [w25xInstruWren]]).framed
        (statusFrames ans 1 (k + 1)) =
        idleLine.framed (exchanges ans 0 [w25xInstruWren] :: statusFrames ans 1 (k + 1)) :=
      Line.framed_framed ..
    have hsent : (idleLine.framed
        (exchanges ans 0 [w25xInstruWren] :: statusFrames ans 1 (k + 1))).sent = 2 * k + 3 := by
      rw [Line.framed_sent, List.flatten_cons, List.length_append, exchanges_length,
        statusFrames_flatten_length]
      show 0 + (1 + 2 * (k + 1)) = _
      omega
    refine hrun.trans ?_
    show (fun s' : Line => (finishLine ans mode (ans.exchange s'.sent).2).run
      (s'.framed [commandFrame ans s'.sent instruct rest]))
        ((idleLine.framed [exchanges ans 0 [w25xInstruWren]]).framed (statusFrames ans 1 (k + 1))) = _
    rw [hstate]
    show (finishLine ans mode (ans.exchange (idleLine.framed _).sent).2).run _ = _
    rw [hsent, Line.framed_framed, List.append_nil]
    rfl
  · rw [Line.framed_framed] at hrun
    exact .inr ⟨hbusy, hrun⟩

/-- What an operation with two waits does up to the last one. -/
theorem WqOp.Waits.cases (ans : Answers) {op : WqOp} (hop : op.Waits) :
    (∃ k < w25xWaitTimeout, ClearAfter ans op.waitStart k ∧
        (op.call (lineBus ans).toWqBus id).run idleLine =
          (finishLine ans op.mode (ans.exchange (2 * k + 3)).2).run (idleLine.framed
            (op.lead ans (k + 1) ++ [commandFrame ans (2 * k + 3) op.instruct (op.rest id)]))) ∨
      (∀ j < w25xWaitTimeout, ¬ ClearAt ans op.waitStart j) ∧
        (op.call (lineBus ans).toWqBus id).run idleLine = (.timeoutErr, idleLine.framed
          (op.opening ans ++ statusFrames ans op.waitStart w25xWaitTimeout)) := by
  cases op with
  | sectorErase addr =>
    have hrun := wqErase_line hid ans idleLine w25xSectorErase w25xSectorSize 0 addr
    rw [WqOp.call, WqBus.wqSectorErase, hrun]
    exact eraseLine_cases ans 0 w25xSectorErase _
  | blockErase addr =>
    have hrun := wqErase_line hid ans idleLine w25xBlockErase w25xBlockSize 1 addr
    rw [WqOp.call, WqBus.wqBlockErase, hrun]
    exact eraseLine_cases ans 1 w25xBlockErase _
  | chipErase =>
    rw [WqOp.call, wqChipErase_line hid]
    exact eraseLine_cases ans 1 w25xChipErase _
  | memoryRead addr num => exact hop.elim
  | memoryWrite addr pbuffer =>
    have hcases := afterWait_cases ans idleLine fun s' =>
      (finishLine ans 0 (ans.exchange (s'.sent + 1)).2).run
        (s'.framed [exchanges ans s'.sent [w25xInstruWren],
          commandFrame ans (s'.sent + 1) w25xPageProgram (addrBytes id addr ++ pbuffer)])
    rw [WqOp.call, wqMemoryWrite_line hid]
    rcases hcases with ⟨k, hk, hafter, hrun⟩ | ⟨hbusy, hrun⟩
    · refine .inl ⟨k, hk, hafter, hrun.trans ?_⟩
      have hsent : (idleLine.framed (statusFrames ans 0 (k + 1))).sent = 2 * (k + 1) := by
        rw [Line.framed_sent, statusFrames_flatten_length]
        exact Nat.zero_add _
      show (finishLine ans 0 (ans.exchange ((idleLine.framed (statusFrames ans 0 (k + 1))).sent + 1)).2).run
        ((idleLine.framed (statusFrames ans 0 (k + 1))).framed
          [exchanges ans (idleLine.framed (statusFrames ans 0 (k + 1))).sent [w25xInstruWren],
            commandFrame ans ((idleLine.framed (statusFrames ans 0 (k + 1))).sent + 1) w25xPageProgram
              (addrBytes id addr ++ pbuffer)]) = _
      rw [hsent, Line.framed_framed, WqOp.lead, WqOp.opening, List.nil_append, List.append_assoc]
      rfl
    · exact .inr ⟨hbusy, hrun⟩

end Stm32Handler.Spi
