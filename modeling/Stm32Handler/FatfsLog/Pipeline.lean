import Stm32Handler.FatfsLog.Record

/-!
# From the tasks to the log file

`fatfs_write` and `fatfs_close` once the log task runs: any number of tasks
build a message, take the mutex, send, and give the mutex back, while
`fatfs_log_task` takes messages out of the buffer and writes or closes the
file. The steps of the tasks are those of `Message`, the turn of the log task
is that of `Record`, and the file is that of `Device`.

`PipeInv` says the file is the one the calls of the messages taken out so far
leave, and that the messages accepted are these and the ones still in the
buffer. Time-outs do not matter to it: a take that times out ends in a give
that changes nothing of this or stops the system.
-/

namespace Stm32Handler.FatfsLog

open Stm32Handler.Rtos

/-- The tasks and the message buffer, the log task's array, the file, and, as a
history, the messages the buffer accepted. -/
structure PipeState (τ : Type) where
  send : SendState τ
  rxBufferM : Vector UInt8 fatfsSignalWriteMaxSize
  info : FatfsLogInfo
  accepted : List (List UInt8)

inductive PipeAct (τ : Type) where
  /-- `fatfs_write` up to its take, with the buffer of the heap and the time -/
  | write (t : τ) (pbuffer : Vector UInt8 fatfsSignalWriteMaxSize) (time : RtcTime) (ptr : List UInt8)
    (size : UInt8)
  /-- `fatfs_close` up to its take -/
  | close (t : τ)
  | timeout (t : τ)
  | send (t : τ)
  | give (t : τ)
  /-- one turn of `fatfs_log_task` -/
  | logTask

/-- The message of `fatfs_write`: the event byte, the stamp and the line. -/
def fatfsWriteMessage (pbuffer : Vector UInt8 fatfsSignalWriteMaxSize) (time : RtcTime)
    (ptr : List UInt8) (size : UInt8) : Option (List UInt8) := do
  let pbuffer ← storeBytes pbuffer 0 [fatfsEventWrite]
  let (pbuffer, totalSize) ← fillRecord pbuffer 1 time ptr size
  readBytes pbuffer.toList totalSize.toNat

section

variable {τ : Type} [DecidableEq τ]

def PipeState.stepSend (s : PipeState τ) (a : SendAct τ) : Option (PipeState τ) :=
  (sendStep s.send a).map fun send => { s with send := send }

omit [DecidableEq τ] in
/-- What `fatfs_log_task` works on; it reads no time and keeps no record here. -/
def PipeState.record (s : PipeState τ) : RecordState τ :=
  { isFatfsOsOn := true, time := ⟨0, 0, 0⟩, xMutexM := s.send.xMutexM
    xEventMsgBuffer := s.send.xEventMsgBuffer, rxBufferM := s.rxBufferM, info := s.info, records := [] }

def pipeStep (s : PipeState τ) : PipeAct τ → Option (PipeState τ)
  | .write t pbuffer time ptr size =>
    (fatfsWriteMessage pbuffer time ptr size).bind fun pMsg => s.stepSend (.take t pMsg)
  | .close t => s.stepSend (.take t [fatfsEventClose])
  | .timeout t => s.stepSend (.timeout t)
  | .send t =>
    (sendStep s.send (.send t)).map fun send =>
      { s with
        send := send
        accepted := s.accepted ++ send.xEventMsgBuffer.drop s.send.xEventMsgBuffer.length }
  | .give t => s.stepSend (.give t)
  | .logTask =>
    if s.send.xMutexM.halted then none else
    (fatfsLogTask s.record).map fun r =>
      { s with
        send := { s.send with xEventMsgBuffer := r.xEventMsgBuffer }
        rxBufferM := r.rxBufferM
        info := r.info }

/-- After `fatfs_logs_init`, with every task outside `fatfs_send_message`. -/
def pipeInit (rxBufferM : Vector UInt8 fatfsSignalWriteMaxSize) (g : FatfsLogInfo) : PipeState τ :=
  { send := sendInit, rxBufferM := rxBufferM, info := g, accepted := [] }

/-- A line `fatfs_write` has room for. -/
def PipeAct.Fits : PipeAct τ → Prop
  | .write _ _ _ ptr size => size.toNat ≤ ptr.length ∧ size.toNat ≤ 241
  | _ => True

/-! ## Messages -/

/-- The call of the file a message asks for. -/
def logOp : List UInt8 → LogOp
  | [] => .close
  | event :: record => if event = fatfsEventWrite then .write record else .close

/-- A message the tasks send. -/
def IsEvent (pMsg : List UInt8) : Prop :=
  (∃ record, pMsg = fatfsEventWrite :: record ∧ record.length < 255) ∨ pMsg = [fatfsEventClose]

theorem fatfsWriteMessage_eq (pbuffer : Vector UInt8 fatfsSignalWriteMaxSize) (time : RtcTime)
    {ptr : List UInt8} {size : UInt8} (hlen : size.toNat ≤ ptr.length) (hsize : size.toNat ≤ 241) :
    fatfsWriteMessage pbuffer time ptr size =
      some (fatfsEventWrite :: (timeStamp time ++ ptr.take size.toNat)) := by
  have hline : readBytes ptr size.toNat = some (ptr.take size.toNat) := if_pos hlen
  have htake : (ptr.take size.toNat).length = size.toNat := by
    rw [List.length_take]
    omega
  obtain ⟨v1, hstore, hv1⟩ := storeBytes_append (v := pbuffer) List.nil_prefix [fatfsEventWrite]
    (show _ ≤ 255 by decide)
  rw [List.nil_append] at hv1
  obtain ⟨v2, total, hfill, hv2, htotal⟩ := fillRecord_eq hv1 time hline htake
    (by rw [List.length_singleton]; omega)
  have hread := readBytes_prefix hv2
  rw [← htotal] at hread
  rw [List.length_nil] at hstore
  rw [List.length_singleton] at hfill
  simp only [fatfsWriteMessage, hstore, hfill, hread, Option.bind_eq_bind, Option.bind_some]
  rfl

theorem isEvent_write (time : RtcTime) (ptr : List UInt8) {size : UInt8} (hsize : size.toNat ≤ 241) :
    IsEvent (fatfsEventWrite :: (timeStamp time ++ ptr.take size.toNat)) := by
  have hstamp := timeStamp_length time
  refine .inl ⟨_, rfl, ?_⟩
  rw [List.length_append, List.length_take]
  omega

/-! ## The turn of the log task -/

theorem logRun_snoc (g : FatfsLogInfo) (ops : List LogOp) (op : LogOp) :
    (logRun g (ops ++ [op])).1 = (logRun (logRun g ops).1 [op]).1 := by
  induction ops generalizing g with
  | nil => rfl
  | cons o ops ih =>
    cases o with
    | write ptr => exact ih (fatfsDeviceWrite g ptr).2
    | close => exact ih (fatfsDeviceClose g).2

omit [DecidableEq τ] in
/-- A turn takes the oldest message and makes its call. -/
theorem fatfsLogTask_event {r : RecordState τ} {pMsg : List UInt8} {rest : List (List UInt8)}
    (hq : r.xEventMsgBuffer = pMsg :: rest) (hmsg : IsEvent pMsg) :
    ∃ r', fatfsLogTask r = some r' ∧ r'.xEventMsgBuffer = rest ∧
      r'.info = (logRun r.info [logOp pMsg]).1 := by
  rcases hmsg with ⟨record, rfl, hlen⟩ | rfl
  · obtain ⟨v, hstore, hv⟩ := storeBytes_append (v := r.rxBufferM) List.nil_prefix
      (fatfsEventWrite :: record) (show 0 + (record.length + 1) ≤ 255 by omega)
    rw [List.nil_append] at hv
    have htake : v.toList.take (record.length + 1) = fatfsEventWrite :: record :=
      (List.prefix_iff_eq_take.1 hv).symm
    obtain ⟨size, hsizeU, hsizeN⟩ := toUint8_eq (show record.length < 256 by omega)
    have hread : readBytes (v.toList.drop 1) size.toNat = some record := by
      obtain ⟨tail, htail⟩ := hv
      rw [← htail, hsizeN]
      simp [readBytes]
    rw [List.length_nil] at hstore
    unfold fatfsLogTask
    simp only [hq, hstore, htake, hsizeU, hread, List.length_cons, Nat.add_sub_cancel, Option.bind_eq_bind,
      Option.bind_some, Option.pure_def, ↓reduceIte]
    exact ⟨_, rfl, rfl, rfl⟩
  · obtain ⟨v, hstore, hv⟩ := storeBytes_append (v := r.rxBufferM) List.nil_prefix
      [fatfsEventClose] (show _ ≤ 255 by decide)
    rw [List.nil_append] at hv
    have htake : v.toList.take 1 = [fatfsEventClose] := (List.prefix_iff_eq_take.1 hv).symm
    have hne : fatfsEventClose ≠ fatfsEventWrite := by decide
    rw [List.length_nil] at hstore
    unfold fatfsLogTask
    simp only [hq, hstore, htake, List.length_singleton, Option.bind_eq_bind, Option.bind_some,
      Option.pure_def, hne, ↓reduceIte]
    exact ⟨_, rfl, rfl, rfl⟩

/-! ## The invariant -/

/-- The messages accepted are those taken out, which made the file what it is,
and those in the buffer. -/
structure PipeInv (g : FatfsLogInfo) (s : PipeState τ) (taken : List (List UInt8)) : Prop where
  acceptedEq : s.accepted = taken ++ s.send.xEventMsgBuffer
  infoEq : s.info = (logRun g (taken.map logOp)).1
  queued : ∀ pMsg ∈ s.send.xEventMsgBuffer, IsEvent pMsg
  held : ∀ t pMsg, s.send.pc t = .taken pMsg → IsEvent pMsg

omit [DecidableEq τ] in
theorem pipeInit_inv (rxBufferM : Vector UInt8 fatfsSignalWriteMaxSize) (g : FatfsLogInfo) :
    PipeInv g (pipeInit rxBufferM g : PipeState τ) [] where
  acceptedEq := rfl
  infoEq := rfl
  queued := nofun
  held _ _ h := by cases h

section Step

variable {g : FatfsLogInfo} {s s' : PipeState τ} {taken : List (List UInt8)} (h : PipeInv g s taken)
include h

omit [DecidableEq τ] in
/-- A step of a task that leaves the buffer alone. -/
theorem PipeInv.setSend {send : SendState τ} (hbuffer : send.xEventMsgBuffer = s.send.xEventMsgBuffer)
    (hheld : ∀ t pMsg, send.pc t = .taken pMsg → IsEvent pMsg) : PipeInv g { s with send := send } taken where
  acceptedEq := by
    show s.accepted = taken ++ send.xEventMsgBuffer
    rw [hbuffer]
    exact h.acceptedEq
  infoEq := h.infoEq
  queued pMsg hmem := h.queued pMsg (hbuffer ▸ hmem)
  held := hheld

/-- After a change of one task's place. -/
theorem PipeInv.update {t : τ} {p : SendPc} (hp : ∀ pMsg, p = .taken pMsg → IsEvent pMsg) (u : τ)
    (pMsg : List UInt8) (hu : Function.update s.send.pc t p u = .taken pMsg) : IsEvent pMsg := by
  by_cases hut : u = t
  · rw [hut, Function.update_self] at hu
    exact hp pMsg hu
  · rw [Function.update_of_ne hut] at hu
    exact h.held u pMsg hu

theorem PipeInv.take {t : τ} {pMsg : List UInt8} (hmsg : IsEvent pMsg)
    (hs : s.stepSend (.take t pMsg) = some s') : PipeInv g s' taken := by
  obtain ⟨send, hsend, rfl⟩ := Option.map_eq_some_iff.1 hs
  cases sendStep_cases hsend with
  | take htook =>
    obtain ⟨m, -, rfl⟩ := Option.map_eq_some_iff.1 htook
    exact h.setSend rfl (h.update fun m hm => by cases hm; exact hmsg)

theorem PipeInv.timeout {t : τ} (hs : s.stepSend (.timeout t) = some s') : PipeInv g s' taken := by
  obtain ⟨send, hsend, rfl⟩ := Option.map_eq_some_iff.1 hs
  cases sendStep_cases hsend with
  | timeout _ => exact h.setSend rfl (h.update nofun)

theorem PipeInv.give {t : τ} (hs : s.stepSend (.give t) = some s') : PipeInv g s' taken := by
  obtain ⟨send, hsend, rfl⟩ := Option.map_eq_some_iff.1 hs
  cases sendStep_cases hsend with
  | give _ => exact h.setSend rfl (h.update nofun)
  | giveTimedOut _ => exact h.setSend rfl (h.update nofun)

/-- What the buffer takes is accepted. -/
theorem PipeInv.sends {t : τ} (hs : pipeStep s (.send t) = some s') : PipeInv g s' taken := by
  obtain ⟨send, hsend, rfl⟩ := Option.map_eq_some_iff.1 hs
  unfold sendStep at hsend
  split at hsend
  · cases hsend
  simp only at hsend
  split at hsend
  · next pMsg ht =>
    cases hsend
    have hmsg := h.held t pMsg ht
    have hheld := h.update (t := t) (p := .sent (xMessageBufferSend s.send.xEventMsgBuffer pMsg).1) nofun
    by_cases hroom : messageBytes s.send.xEventMsgBuffer + (pMsg.length + 4) ≤ fatfsMaxMessageBuffer
    · have htake : xMessageBufferSend s.send.xEventMsgBuffer pMsg =
          (pMsg.length, s.send.xEventMsgBuffer ++ [pMsg]) := if_pos hroom
      rw [htake] at hheld ⊢
      exact
        { acceptedEq := by
            show s.accepted ++ (s.send.xEventMsgBuffer ++ [pMsg]).drop s.send.xEventMsgBuffer.length = _
            rw [List.drop_left, h.acceptedEq, List.append_assoc]
          infoEq := h.infoEq
          queued := fun m hm => by
            rcases List.mem_append.1 hm with hm | hm
            · exact h.queued m hm
            · rw [List.mem_singleton.1 hm]
              exact hmsg
          held := hheld }
    · have hrefuse : xMessageBufferSend s.send.xEventMsgBuffer pMsg = (0, s.send.xEventMsgBuffer) :=
        if_neg hroom
      rw [hrefuse] at hheld ⊢
      exact
        { acceptedEq := by
            show s.accepted ++ s.send.xEventMsgBuffer.drop s.send.xEventMsgBuffer.length = _
            rw [List.drop_length, List.append_nil]
            exact h.acceptedEq
          infoEq := h.infoEq
          queued := h.queued
          held := hheld }
  · cases hsend

/-- A turn moves the oldest message to those taken out. -/
theorem PipeInv.logTask {pMsg : List UInt8} {rest : List (List UInt8)}
    (hlive : s.send.xMutexM.halted = false) (hq : s.send.xEventMsgBuffer = pMsg :: rest) :
    ∃ s', pipeStep s .logTask = some s' ∧ PipeInv g s' (taken ++ [pMsg]) ∧
      s'.send.xEventMsgBuffer = rest ∧ s'.send.xMutexM = s.send.xMutexM ∧ s'.accepted = s.accepted := by
  obtain ⟨r', hturn, hrest, hinfo⟩ := fatfsLogTask_event (r := s.record) hq
    (h.queued pMsg (hq ▸ List.mem_cons_self))
  have hstep : pipeStep s .logTask = some
      { s with
        send := { s.send with xEventMsgBuffer := r'.xEventMsgBuffer }
        rxBufferM := r'.rxBufferM
        info := r'.info } := by
    simp only [pipeStep, hlive, Bool.false_eq_true, ↓reduceIte, hturn, Option.map_some]
  refine ⟨_, hstep, ?_, hrest, rfl, rfl⟩
  exact
    { acceptedEq := by
        show s.accepted = taken ++ [pMsg] ++ r'.xEventMsgBuffer
        rw [h.acceptedEq, hq, hrest, List.append_assoc]
        rfl
      infoEq := by
        show r'.info = _
        rw [hinfo, List.map_append, List.map_singleton, logRun_snoc]
        exact congrArg (fun i => (logRun i [logOp pMsg]).1) h.infoEq
      queued := fun m hm => h.queued m (by
        rw [hq]
        exact List.mem_cons_of_mem _ (hrest ▸ hm))
      held := h.held }

theorem pipeStep_inv {a : PipeAct τ} (ha : a.Fits) (hs : pipeStep s a = some s') :
    ∃ taken', PipeInv g s' taken' := by
  cases a with
  | write t pbuffer time ptr size =>
    simp only [pipeStep, fatfsWriteMessage_eq pbuffer time ha.1 ha.2, Option.bind_some] at hs
    exact ⟨taken, h.take (isEvent_write time ptr ha.2) hs⟩
  | close t => exact ⟨taken, h.take (.inr rfl) hs⟩
  | timeout t => exact ⟨taken, h.timeout hs⟩
  | send t => exact ⟨taken, h.sends hs⟩
  | give t => exact ⟨taken, h.give hs⟩
  | logTask =>
    have hlive : s.send.xMutexM.halted = false := by
      by_contra hhalt
      simp only [pipeStep, Bool.not_eq_false] at hs hhalt
      rw [if_pos hhalt] at hs
      cases hs
    cases hq : s.send.xEventMsgBuffer with
    | nil =>
      have hwait : fatfsLogTask s.record = none := by
        unfold fatfsLogTask
        rw [show s.record.xEventMsgBuffer = [] from hq]
      simp only [pipeStep, hlive, Bool.false_eq_true, ↓reduceIte, hwait, Option.map_none] at hs
      cases hs
    | cons pMsg rest =>
      obtain ⟨s1, hs1, h1, -⟩ := h.logTask hlive hq
      obtain rfl : s1 = s' := Option.some.inj (hs1.symm.trans hs)
      exact ⟨_, h1⟩

end Step

/-! ## Runs -/

theorem pipeRun_inv {g : FatfsLogInfo} {rxBufferM : Vector UInt8 fatfsSignalWriteMaxSize}
    {acts : List (PipeAct τ)} {s : PipeState τ} (hfits : ∀ a ∈ acts, a.Fits)
    (hrun : exec pipeStep (pipeInit rxBufferM g) acts = some s) : ∃ taken, PipeInv g s taken :=
  exec_inv (G := fun _ a => PipeAct.Fits a) (I := fun s => ∃ taken, PipeInv g s taken)
    (fun _ _ _ ⟨_, h⟩ ha hs => pipeStep_inv h ha hs) ⟨[], pipeInit_inv rxBufferM g⟩ (along_of_forall _ fun a ha _ => hfits a ha) hrun

/-- **The log task catches up** in one turn for each message in the buffer. -/
theorem pipe_drains {g : FatfsLogInfo} {s : PipeState τ} {taken : List (List UInt8)}
    (h : PipeInv g s taken) (hlive : s.send.xMutexM.halted = false) :
    ∃ s', exec pipeStep s (List.replicate s.send.xEventMsgBuffer.length .logTask) = some s' ∧
      PipeInv g s' s.accepted ∧ s'.send.xEventMsgBuffer = [] := by
  obtain ⟨queue, hq⟩ : ∃ queue, s.send.xEventMsgBuffer = queue := ⟨_, rfl⟩
  rw [hq]
  induction queue generalizing s taken with
  | nil =>
    have haccepted := h.acceptedEq
    rw [hq, List.append_nil] at haccepted
    exact ⟨s, rfl, haccepted ▸ h, hq⟩
  | cons pMsg rest ih =>
    obtain ⟨s1, hs1, h1, hrest, hmutex, haccepted⟩ := h.logTask hlive hq
    obtain ⟨s2, hrun, h2, hempty⟩ := ih h1 (by rw [hmutex, hlive]) hrest
    exact ⟨s2, exec_cons.2 ⟨s1, hs1, hrun⟩, haccepted ▸ h2, hempty⟩

/-- **From the tasks to the file**: whatever order the steps of the tasks and
the turns of the log task came in, once the log task has caught up a close of
the file leaves the initial content and then the records of the messages the
buffer accepted, in the order it accepted them, exactly when these messages,
taken as calls, are flushed. -/
theorem log_pipeline_iff (mount : FResult) (osInit : Bool) (entry : Entry) (g : FatfsLogInfo)
    (hinit : fatfsLogsInit mount osInit entry = (fatfsLogOk, g))
    (rxBufferM : Vector UInt8 fatfsSignalWriteMaxSize) (acts : List (PipeAct τ))
    (hfits : ∀ a ∈ acts, a.Fits) (s : PipeState τ)
    (hrun : exec pipeStep (pipeInit rxBufferM g) acts = some s) (hlive : s.send.xMutexM.halted = false) :
    ∃ s', exec pipeStep s (List.replicate s.send.xEventMsgBuffer.length .logTask) = some s' ∧
      ((fatfsDeviceClose s'.info).2.entry =
          some (entry.getD [] ++ (s.accepted.map logOp).flatMap LogOp.payload) ↔
        Flushed (s.accepted.map logOp)) := by
  obtain ⟨taken, h⟩ := pipeRun_inv hfits hrun
  obtain ⟨s', hdrain, h', -⟩ := pipe_drains h hlive
  obtain ⟨v, hview, hshow, -⟩ := logRun_shows (fatfsLogsInit_shows hinit) (s.accepted.map logOp)
  refine ⟨s', hdrain, ?_⟩
  rw [h'.infoEq, (fatfsDeviceClose_shows hshow).entry, Option.some_inj, ← LogView.along_keeps_iff hview,
    ← LogView.collects.run_iff hview]
  simp [LogView.start, LogView.contents, LogView.close]

/-- One task writes a line, another closes the log. -/
theorem log_pipeline_iff_two :
    ∃ (g : FatfsLogInfo) (s s' : PipeState Bool),
      exec pipeStep (pipeInit (Vector.replicate _ 0) g)
        [.write true (Vector.replicate _ 0) ⟨1, 2, 3⟩ [65] 1, .send true, .give true, .close false,
          .send false] = some s ∧
      exec pipeStep s (List.replicate s.send.xEventMsgBuffer.length .logTask) = some s' ∧
      ((fatfsDeviceClose s'.info).2.entry =
          some ((some [1]).getD [] ++ (s.accepted.map logOp).flatMap LogOp.payload) ↔
        Flushed (s.accepted.map logOp)) := by
  obtain ⟨g, hinit⟩ : ∃ g, fatfsLogsInit .ok true (some [1]) = (fatfsLogOk, g) := ⟨_, rfl⟩
  have hmsg := @fatfsWriteMessage_eq (Vector.replicate _ 0) ⟨1, 2, 3⟩ [65] 1 (by decide) (by decide)
  obtain ⟨s, hrun, hlive⟩ : ∃ s : PipeState Bool,
      exec pipeStep (pipeInit (Vector.replicate _ 0) g)
        [.write true (Vector.replicate _ 0) ⟨1, 2, 3⟩ [65] 1, .send true, .give true, .close false,
          .send false] = some s ∧ s.send.xMutexM.halted = false := by
    simp only [exec, pipeStep, hmsg]
    exact ⟨_, rfl, rfl⟩
  obtain ⟨s', hdrain, hiff⟩ := log_pipeline_iff .ok true (some [1]) g hinit (Vector.replicate _ 0)
    [.write true (Vector.replicate _ 0) ⟨1, 2, 3⟩ [65] 1, .send true, .give true, .close false, .send false]
    (by simp [PipeAct.Fits]) s hrun hlive
  exact ⟨g, s, s', hrun, hdrain, hiff⟩

end

end Stm32Handler.FatfsLog
