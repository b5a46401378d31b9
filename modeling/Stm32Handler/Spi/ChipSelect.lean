import Stm32Handler.Spi.W25qRun

/-!
# The chip select

Every operation of the driver sends whole frames and leaves the chip
deselected, whatever the bus answers, but for the two DMA operations: their
wait for the transfer returns on a timeout between `WQ25_CS_ON` and
`WQ25_CS_OFF`.
-/

namespace Stm32Handler.Spi

variable {ans : Answers} {id : BitVec 32}

/-- All public operations of the DMA build. -/
inductive WqCall where
  | plain (op : WqOp)
  | memoryReadDma (addr : BitVec 32) (num : ℕ)
  | memoryWriteDma (addr : BitVec 32) (pbuffer : List Byte)

namespace WqCall

def run (ans : Answers) (id : BitVec 32) : WqCall → WqOpStatus × Line
  | .plain op => (op.call (lineBus ans).toWqBus id).run idleLine
  | .memoryReadDma addr num => ((lineBus ans).wqMemoryReadDma id addr num).run idleLine
  | .memoryWriteDma addr pbuffer => ((lineBus ans).wqMemoryWriteDma id addr pbuffer).run idleLine

/-- From a high line: every command starts at a high level, no byte is sent at
one, and the line is high at the end. -/
def KeepsSelect (ans : Answers) (id : BitVec 32) (c : WqCall) : Prop :=
  exec lineStep true (c.run ans id).2.log = some true

/-- A transfer that is started is complete by the last check. -/
def TransferEnds (ans : Answers) (id : BitVec 32) : WqCall → Prop
  | .plain _ => True
  | .memoryReadDma _ _ => getManufacturerId id = wq25ManufacturerId → (ans.exchange 0).2 = true →
      ∃ i < w25xWaitTimeout + 1, ans.check i = true
  | .memoryWriteDma _ _ => getManufacturerId id = wq25ManufacturerId →
      ∀ k < w25xWaitTimeout, ClearAfter ans 0 k → (ans.exchange (2 * k + 3)).2 = true →
        ∃ i < w25xWaitTimeout + 1, ans.check i = true

end WqCall

/-- The line is high after whole frames. -/
theorem exec_framed (c : ℕ) (fs : List (List Exchange)) :
    exec lineStep true (Line.framed ⟨[], 0, c⟩ fs).log = some true := exec_frameLog fs

/-- It is low in an open one. -/
theorem exec_opened (p c : ℕ) (fs : List (List Exchange)) (es : List Exchange) :
    exec lineStep true (Line.opened ⟨frameLog fs, p, c⟩ es).log ≠ some true := by
  show exec lineStep true (frameLog fs ++ _) ≠ _
  rw [exec_frameLog_open]
  decide

theorem finishLine_framed (ans : Answers) (s : Line) (mode : Byte) (status : Bool) :
    ∃ e fs, (finishLine ans mode status).run s = (e, s.framed fs) := by
  rcases finishLine_cases ans s mode status with ⟨_, -, -, hrun⟩ | ⟨-, hrun⟩
  · exact ⟨_, _, hrun⟩
  · exact ⟨_, _, hrun⟩

theorem exec_finishLine {s : Line} (fs : List (List Exchange)) (hs : s.log = frameLog fs)
    (mode : Byte) (status : Bool) :
    exec lineStep true ((finishLine ans mode status).run s).2.log = some true := by
  obtain ⟨e, gs, hfinish⟩ := finishLine_framed ans s mode status
  rw [hfinish]
  show exec lineStep true (s.log ++ frameLog gs) = some true
  rw [hs, ← frameLog_append]
  exact exec_frameLog _

theorem WqOp.framed (ans : Answers) (id : BitVec 32) (op : WqOp) :
    ∃ e fs, (op.call (lineBus ans).toWqBus id).run idleLine = (e, idleLine.framed fs) := by
  by_cases hid : getManufacturerId id = wq25ManufacturerId
  · by_cases hop : op.Waits
    · rcases hop.cases hid ans with ⟨k, -, -, hrun⟩ | ⟨-, hrun⟩
      · obtain ⟨e, fs, hfinish⟩ := finishLine_framed ans (idleLine.framed
          (op.lead ans (k + 1) ++ [commandFrame ans (2 * k + 3) op.instruct (op.rest id)]))
          op.mode (ans.exchange (2 * k + 3)).2
        rw [hrun, hfinish, Line.framed_framed]
        exact ⟨_, _, rfl⟩
      · exact ⟨_, _, hrun⟩
    · cases op with
      | memoryRead addr num => exact ⟨_, _, wqMemoryRead_line hid idleLine addr num⟩
      | _ => exact absurd trivial hop
  · refine ⟨op.refusal, [], ?_⟩
    rw [op.call_unmatched hid, Line.framed_nil]

/-- A command with a transfer keeps the line if the transfer ends or was never
started. -/
theorem dmaCommand_keeps_iff (ans : Answers) (fs : List (List Exchange)) (instruct : Byte) (rest : List Byte)
    (k : Bool → LineM WqOpStatus)
    (hk : ∀ (s : Line) (gs : List (List Exchange)) (status : Bool), s.log = frameLog gs →
      exec lineStep true ((k status).run s).2.log = some true) :
    exec lineStep true ((dmaCommand ans instruct rest k).run (idleLine.framed fs)).2.log = some true ↔
      ((ans.exchange fs.flatten.length).2 = true → ∃ i < w25xWaitTimeout + 1, ans.check i = true) := by
  have hsent : (idleLine.framed fs).sent = fs.flatten.length :=
    (Line.framed_sent ..).trans (Nat.zero_add _)
  have hcommand := dmaCommand_line ans (idleLine.framed fs) instruct rest k
  simp only [hsent, Line.framed_checks, show idleLine.checks = 0 from rfl, Nat.zero_add] at hcommand
  rcases hcommand with ⟨hends, c, hrun⟩ | ⟨hstatus, hnever, c, hrun⟩
  · rw [hrun]
    refine iff_of_true (hk _ (fs ++ [commandFrame ans fs.flatten.length instruct rest]) _ ?_) hends
    exact (frameLog_append fs _).symm
  · rw [hrun]
    refine iff_of_false (exec_opened _ c fs _) fun h => ?_
    obtain ⟨i, hi, hdone⟩ := h hstatus
    rw [hnever i hi] at hdone
    cases hdone

theorem memoryReadDma_keeps_iff (addr : BitVec 32) (num : ℕ) :
    (WqCall.memoryReadDma addr num).KeepsSelect ans id ↔
      (WqCall.memoryReadDma addr num).TransferEnds ans id := by
  rw [WqCall.KeepsSelect, WqCall.run]
  by_cases hid : getManufacturerId id = wq25ManufacturerId
  · rw [wqMemoryReadDma_line hid]
    have hcommand := dmaCommand_keeps_iff ans [] w25xInstruRead (addrBytes id addr)
      (fun status => if !status then pure .comErr else pure .ok) fun s gs status hs => by
        cases status <;> exact hs ▸ exec_frameLog gs
    exact hcommand.trans ⟨fun hends _ => hends, fun h => h hid⟩
  · rw [WqDmaBus.wqMemoryReadDma, if_pos hid]
    exact iff_of_true rfl fun h => absurd h hid

theorem memoryWriteDma_keeps_iff (addr : BitVec 32) (pbuffer : List Byte) :
    (WqCall.memoryWriteDma addr pbuffer).KeepsSelect ans id ↔
      (WqCall.memoryWriteDma addr pbuffer).TransferEnds ans id := by
  rw [WqCall.KeepsSelect, WqCall.run]
  by_cases hid : getManufacturerId id = wq25ManufacturerId
  · rw [wqMemoryWriteDma_line hid]
    have hcases := afterWait_cases ans idleLine fun s' =>
      (dmaCommand ans w25xPageProgram (addrBytes id addr) (finishLine ans 0)).run
        (s'.framed [exchanges ans s'.sent [w25xInstruWren]])
    rcases hcases with ⟨k, hk, hafter, hwait⟩ | ⟨hbusy, hwait⟩
    · have hcommand := dmaCommand_keeps_iff ans
        (statusFrames ans 0 (k + 1) ++ [exchanges ans
          (idleLine.framed (statusFrames ans 0 (k + 1))).sent [w25xInstruWren]])
        w25xPageProgram (addrBytes id addr) (finishLine ans 0)
        fun s gs status hs => exec_finishLine gs hs 0 status
      have hlength : (statusFrames ans 0 (k + 1) ++ [exchanges ans
          (idleLine.framed (statusFrames ans 0 (k + 1))).sent [w25xInstruWren]]).flatten.length =
          2 * k + 3 := by
        rw [List.flatten_append, List.length_append, statusFrames_flatten_length]
        show 2 * (k + 1) + 1 = _
        omega
      rw [← Line.framed_framed, hlength] at hcommand
      rw [hwait]
      refine hcommand.trans ⟨fun hends _ k' _ hafter' => ?_, fun h => h hid k hk hafter⟩
      rw [hafter'.unique hafter]
      exact hends
    · rw [hwait]
      exact iff_of_true (exec_framed 0 _) fun _ k hk hafter => absurd hafter.clear (hbusy k hk)
  · rw [WqDmaBus.wqMemoryWriteDma, if_pos hid]
    exact iff_of_true rfl fun h => absurd h hid

/-- **The chip select is released exactly when** no started transfer times
out. -/
theorem keeps_select_iff (ans : Answers) (id : BitVec 32) (c : WqCall) :
    c.KeepsSelect ans id ↔ c.TransferEnds ans id := by
  cases c with
  | plain op =>
    obtain ⟨e, fs, hrun⟩ := op.framed ans id
    refine iff_of_true ?_ trivial
    show exec lineStep true ((op.call (lineBus ans).toWqBus id).run idleLine).2.log = some true
    rw [hrun]
    exact exec_framed 0 fs
  | memoryReadDma addr num => exact memoryReadDma_keeps_iff addr num
  | memoryWriteDma addr pbuffer => exact memoryWriteDma_keeps_iff addr pbuffer

/-- The bus takes the command byte, and the transfer never completes. -/
theorem select_left_low : ¬ ∀ (ans : Answers) (id : BitVec 32) (c : WqCall), c.KeepsSelect ans id :=
  fun h => absurd (h ⟨fun _ => (0, true), fun _ => false⟩ 0xEF13 (.memoryReadDma 0 16)) (by
    unfold WqCall.KeepsSelect
    decide +kernel)

end Stm32Handler.Spi
