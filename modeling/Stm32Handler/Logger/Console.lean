import Stm32Handler.Logger.CmdLines
import Stm32Handler.Logger.RxRing

/-!
# The console

`logger_process_run` with the receive ring on one side and `cmd_process` on the
other: the bytes `USART1_IRQHandler` stores are handed on one at a time, and
the byte that ends a frame dispatches it. A statement of the loop is one of
`rxRun`; at `cmd_process(c)` the command buffer moves as well.

The interrupts stay calm (`RxRing`). What has been dispatched then depends on
the stored bytes alone, wherever the interrupts fell (`ConsoleInv`), and once
they stop the loop catches up in `statements` steps.
-/

namespace Stm32Handler.Logger

structure ConsoleState where
  rx : RxState
  cmd : CmdState

/-- One statement of the loop or one interrupt; none is an access outside
`rx_buffer` by `cmd_process`. -/
def consoleStep (s : ConsoleState) (a : RxAct) : Option ConsoleState :=
  match a, s.rx.pc with
  | .run, .hand => (cmdProcess s.cmd s.rx.c).map fun cmd => ⟨rxRun s.rx, cmd⟩
  | _, _ => (rxStep s.rx a).map fun rx => { s with rx := rx }

/-- `logger_init` and `cmd_protocol_init` have run. -/
def consoleInit (g : LoggerInfo) (c : UInt8) : ConsoleState := ⟨rxInit g c, cmdProtocolInit⟩

/-- The interrupt is calm for the ring. -/
def ConsoleCalm (s : ConsoleState) (a : RxAct) : Prop := Calm s.rx a

/-- The bytes handed on are the ones `cmd_process` has seen. -/
structure ConsoleInv (s : ConsoleState) : Prop where
  ring : RxInv s.rx
  seen : exec cmdProcess cmdProtocolInit s.rx.handed = some s.cmd

theorem consoleInit_inv (g : LoggerInfo) (c : UInt8) : ConsoleInv (consoleInit g c) :=
  ⟨rxInit_inv g c, rfl⟩

/-! ## One step -/

section Step

variable {s : ConsoleState}

/-- What is handed on changes with `cmd_process(c)` only. -/
theorem rxStep_handed {r r' : RxState} {a : RxAct} (hne : ¬ (a = .run ∧ r.pc = .hand))
    (hs : rxStep r a = some r') : r'.handed = r.handed := by
  cases a with
  | isr b =>
    cases hs
    rfl
  | run =>
    cases hs
    unfold rxRun
    cases hpc : r.pc with
    | hand => exact absurd ⟨rfl, hpc⟩ hne
    | start =>
      simp only
      split <;> rfl
    | test | load | store v | read | wrap => rfl

theorem consoleStep_other {a : RxAct} (hne : ¬ (a = .run ∧ s.rx.pc = .hand)) :
    consoleStep s a = (rxStep s.rx a).map fun rx => { s with rx := rx } := by
  unfold consoleStep
  split
  · next hpc => exact absurd ⟨rfl, hpc⟩ hne
  · rfl

/-- After the bytes `bs`, `cmd_process` takes one more. -/
theorem cmdProcess_after {bs : List UInt8} {cmd : CmdState}
    (h : exec cmdProcess cmdProtocolInit bs = some cmd) (c : UInt8) :
    ∃ cmd', cmdProcess cmd c = some cmd' ∧ exec cmdProcess cmdProtocolInit (bs ++ [c]) = some cmd' := by
  obtain ⟨cmd', -, -, hrun, -⟩ := exec_cmdProcess (bs ++ [c]) cmdProtocolInit_gathers (by decide)
  obtain ⟨m, hm, hc⟩ := exec_append.1 hrun
  obtain rfl : m = cmd := Option.some.inj (hm.symm.trans h)
  obtain ⟨m', hm', hnil⟩ := exec_cons.1 hc
  cases hnil
  exact ⟨_, hm', hrun⟩

/-- **One step**: it is always enabled, follows the ring, and keeps the tie
between the ring and the commands. -/
theorem consoleStep_inv (h : ConsoleInv s) {a : RxAct} (hcalm : ConsoleCalm s a) :
    ∃ s', consoleStep s a = some s' ∧ ConsoleInv s' ∧ rxStep s.rx a = some s'.rx := by
  obtain ⟨r', hr⟩ : ∃ r', rxStep s.rx a = some r' := by cases a <;> exact ⟨_, rfl⟩
  have hring := rxInv_step h.ring hcalm hr
  by_cases hne : a = .run ∧ s.rx.pc = .hand
  · obtain ⟨rfl, hpc⟩ := hne
    obtain ⟨cmd', hcmd, hseen⟩ := cmdProcess_after h.seen s.rx.c
    have hrun : r' = rxRun s.rx := (Option.some.inj hr).symm
    have hhanded : (rxRun s.rx).handed = s.rx.handed ++ [s.rx.c] := by
      unfold rxRun
      rw [hpc]
    refine ⟨⟨rxRun s.rx, cmd'⟩, ?_, ⟨hrun ▸ hring, ?_⟩, rfl⟩
    · unfold consoleStep
      rw [hpc]
      simp only [hcmd, Option.map_some]
    · show exec cmdProcess cmdProtocolInit (rxRun s.rx).handed = some cmd'
      rw [hhanded, hseen]
  · refine ⟨{ s with rx := r' }, by rw [consoleStep_other hne, hr]; rfl, ⟨hring, ?_⟩, hr⟩
    show exec cmdProcess cmdProtocolInit r'.handed = some s.cmd
    rw [rxStep_handed hne hr, h.seen]

end Step

/-! ## Runs -/

/-- A calm run of the console goes through, whatever the bytes. -/
theorem console_runs {s : ConsoleState} (h : ConsoleInv s) {acts : List RxAct}
    (hcalm : Along consoleStep ConsoleCalm s acts) :
    ∃ s', exec consoleStep s acts = some s' ∧ ConsoleInv s' := by
  refine exec_completes (fun s a h hcalm => ?_) h hcalm
  obtain ⟨s1, hs1, h1, -⟩ := consoleStep_inv h hcalm
  exact ⟨s1, hs1, h1⟩

/-- Frames come out in the order of the bytes: more bytes only add frames. -/
theorem frames_append (acc bs cs : List UInt8) :
    ∃ acc', frames acc (bs ++ cs) = frames acc bs ++ frames acc' cs := by
  induction bs generalizing acc with
  | nil => exact ⟨acc, rfl⟩
  | cons b bs ih =>
    obtain ⟨acc', hacc'⟩ := ih (gather acc b).1
    exact ⟨acc', by rw [List.cons_append, frames, frames, hacc', List.append_assoc]⟩

/-- What the commands have seen is what was dispatched. -/
theorem ConsoleInv.log {s : ConsoleState} (h : ConsoleInv s) :
    s.cmd.log.map (fun d => (d.frame, d.len.toNat)) = (frames [] s.rx.handed).map (fun f => (f, f.length)) ∧
      s.cmd.loggerBuffer.index.toNat < commandMaxSize ∧ ∀ d ∈ s.cmd.log, d.Exact := by
  obtain ⟨cmd, acc, ds, hrun, hgathers, hlt, hlog, hframes, hall⟩ :=
    exec_cmdProcess s.rx.handed cmdProtocolInit_gathers (by decide)
  obtain rfl : cmd = s.cmd := Option.some.inj (hrun.symm.trans h.seen)
  have hlog : s.cmd.log = ds := hlog
  refine ⟨?_, by rwa [hgathers.index_eq], fun d hd => (hall d (hlog ▸ hd)).2⟩
  rw [hlog, ← hframes, List.map_map]
  exact List.map_congr_left fun d hd => Prod.ext rfl (hall d hd).1

/-- **Wherever the interrupts fall**: a calm run goes through without an access
outside `rx_buffer`, the frames dispatched so far are the first frames of the
bytes the handler stored, and each went to the entry its command names. -/
theorem console_dispatches (g : LoggerInfo) (c : UInt8) (acts : List RxAct)
    (hcalm : Along consoleStep ConsoleCalm (consoleInit g c) acts) :
    ∃ s, exec consoleStep (consoleInit g c) acts = some s ∧
      s.cmd.log.map Dispatch.frame <+: frames [] s.rx.stored ∧ ∀ d ∈ s.cmd.log, d.Exact := by
  obtain ⟨s, hrun, h⟩ := console_runs (consoleInit_inv g c) hcalm
  obtain ⟨hlog, -, hexact⟩ := h.log
  obtain ⟨rest, hrest⟩ := h.ring.good.1
  obtain ⟨acc', hframes⟩ := frames_append [] s.rx.handed rest
  refine ⟨s, hrun, ⟨frames acc' rest, ?_⟩, hexact⟩
  have hmap := congrArg (List.map Prod.fst) hlog
  simp only [List.map_map, Function.comp_def, List.map_id'] at hmap
  rw [← hrest, hframes]
  exact congrArg (· ++ frames acc' rest) hmap

/-- A byte, two statements of its fetch, and a line feed behind it. -/
theorem console_dispatches_two :
    ∃ s, exec consoleStep (consoleInit zeroInfo 0) [.isr 33, .run, .run, .isr 10, .run] = some s ∧
      s.cmd.log.map Dispatch.frame <+: frames [] s.rx.stored ∧ ∀ d ∈ s.cmd.log, d.Exact := by
  refine console_dispatches zeroInfo 0 [.isr 33, .run, .run, .isr 10, .run] ?_
  iterate 5 refine (along_cons rfl).2 ⟨trivial, ?_⟩
  trivial

/-! ## Catching up -/

/-- Statements until the ring is empty; a byte takes seven. -/
def RxState.statements (s : RxState) : ℕ :=
  match s.pc with
  | .start => 7 * s.info.rx.currentSize
  | .test => 7 * s.info.rx.currentSize - 1
  | .load => 7 * s.info.rx.currentSize - 2
  | .store v => 7 * v - 3
  | .read => 7 * s.info.rx.currentSize + 3
  | .wrap => 7 * s.info.rx.currentSize + 2
  | .hand => 7 * s.info.rx.currentSize + 1

theorem rxRun_statements {s : RxState} (h : RxInv s) : (rxRun s).statements = s.statements - 1 := by
  have hpc := h.pcOk
  cases hs : s.pc with
  | start =>
    by_cases hzero : s.info.rx.currentSize = 0
    · simp [rxRun, RxState.statements, hs, hzero, CircularBuffer.isEmpty]
    · simp [rxRun, RxState.statements, hs, hzero, CircularBuffer.isEmpty, h.ready.isInit]
  | test =>
    simp only [hs, RxPc.Ok] at hpc
    simp only [rxRun, hs, RxState.statements, if_pos (Nat.pos_iff_ne_zero.1 hpc.1)]
    omega
  | load =>
    simp only [rxRun, hs, RxState.statements]
    omega
  | store v =>
    simp only [hs, RxPc.Ok] at hpc
    simp only [rxRun, hs, RxState.statements]
    omega
  | read | wrap | hand => simp [rxRun, hs, RxState.statements]

theorem rxRun_stored (s : RxState) : (rxRun s).stored = s.stored := by
  unfold rxRun
  cases s.pc with
  | start =>
    simp only
    split <;> rfl
  | test | load | store v | read | wrap | hand => rfl

/-- With no statement left everything stored has been handed on. -/
theorem RxInv.handed_eq {s : RxState} (h : RxInv s) (hs : s.statements = 0) : s.handed = s.stored := by
  have hpc := h.pcOk
  have hbytes := h.bytesEq
  unfold RxState.statements at hs
  cases hpc' : s.pc with
  | start =>
    simp only [hpc', RxPc.pending, RxPc.fetched, List.append_nil] at hs hbytes
    rw [← hbytes, show s.info.rx.currentSize = 0 by omega]
    exact (List.append_nil _).symm
  | test | load | store v =>
    simp only [hpc', RxPc.Ok] at hs hpc
    omega
  | read | wrap | hand =>
    simp only [hpc'] at hs
    omega

theorem RxInv.statements_le {s : RxState} (h : RxInv s) : s.statements ≤ 7 * loggerBufferSize + 3 := by
  have hcount := h.countLe
  have hsize := h.sizeEq
  have hpc := h.pcOk
  unfold RxState.statements
  cases hs : s.pc with
  | store v =>
    simp only [hs, RxPc.Ok] at hpc
    simp only
    omega
  | start | test | load | read | wrap | hand =>
    simp only
    omega

/-- **The loop catches up**: when the interrupts stop, as many statements as
are left hand everything stored to the commands. -/
theorem console_settles {s : ConsoleState} (h : ConsoleInv s) :
    ∃ s', exec consoleStep s (List.replicate s.rx.statements .run) = some s' ∧ ConsoleInv s' ∧
      s'.rx.handed = s.rx.stored := by
  obtain ⟨s', hrun, ⟨h', hstored⟩, hzero⟩ :=
    exec_settles (a := RxAct.run) (m := fun s' => s'.rx.statements)
      (I := fun s' => ConsoleInv s' ∧ s'.rx.stored = s.rx.stored)
      (fun s1 ⟨h1, hstored⟩ => by
        obtain ⟨s2, hs2, h2, hring⟩ := consoleStep_inv h1 (a := .run) trivial
        have hrx : s2.rx = rxRun s1.rx := (Option.some.inj hring).symm
        refine ⟨s2, hs2, ⟨h2, ?_⟩, ?_⟩
        · rw [hrx, rxRun_stored, hstored]
        · show s2.rx.statements = s1.rx.statements - 1
          rw [hrx, rxRun_statements h1.ring])
      ⟨h, rfl⟩
  exact ⟨s', hrun, h', (h'.ring.handed_eq hzero).trans hstored⟩

/-- **Every line is executed once**: when LF-terminated lines, none of them as
long as the buffer, came in over a calm run, the loop dispatches each of them
once and in order, within a number of statements the ring's size bounds. -/
theorem console_lines_once (g : LoggerInfo) (c : UInt8) (acts : List RxAct)
    (hcalm : Along consoleStep ConsoleCalm (consoleInit g c) acts) (lines : List (List UInt8))
    (hlf : ∀ line ∈ lines, lf ∉ line) (hlen : ∀ line ∈ lines, (stripCr line).length < commandMaxSize) :
    ∃ s, exec consoleStep (consoleInit g c) acts = some s ∧
      (s.rx.stored = lineStream lines → ∃ n s', n ≤ 7 * loggerBufferSize + 3 ∧
        exec consoleStep s (List.replicate n .run) = some s' ∧ DispatchedOnce lines s'.cmd.log ∧
        ∀ d ∈ s'.cmd.log, d.Exact) := by
  obtain ⟨s, hrun, h⟩ := console_runs (consoleInit_inv g c) hcalm
  refine ⟨s, hrun, fun hstored => ?_⟩
  obtain ⟨s', hsettle, h', hhanded⟩ := console_settles h
  obtain ⟨hlog, -, hexact⟩ := h'.log
  refine ⟨_, s', h.ring.statements_le, hsettle, ?_, hexact⟩
  unfold DispatchedOnce
  rw [hlog, hhanded, hstored, frames_lineStream hlf fun line hline => (hlen line hline).le,
    (flatMap_lineFrames_iff lines).2 hlen, List.map_map]
  rfl

/-- `!?` and its line feed arrive before the loop runs. -/
theorem console_lines_once_help :
    ∃ n s, exec consoleStep (consoleInit zeroInfo 0) ([.isr 33, .isr 63, .isr 10] ++ List.replicate n .run) =
      some s ∧ DispatchedOnce [[33, 63]] s.cmd.log := by
  obtain ⟨s, hrun, hlines⟩ := console_lines_once zeroInfo 0 [.isr 33, .isr 63, .isr 10]
    (by
      iterate 3 refine (along_cons rfl).2 ⟨trivial, ?_⟩
      trivial)
    [[33, 63]] (by decide) (by decide)
  have hstored : s.rx.stored = lineStream [[33, 63]] := by
    cases hrun
    rfl
  obtain ⟨n, s', -, hsettle, honce, -⟩ := hlines hstored
  exact ⟨n, s', exec_append.2 ⟨s, hrun, hsettle⟩, honce⟩

end Stm32Handler.Logger
