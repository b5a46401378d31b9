import Mathlib.Algebra.GroupWithZero.Nat
import Stm32Handler.Lib.Run
import Stm32Handler.Rtos.Mutex

/-!
# `fatfs_send_message`

Tasks hand their records to the log task through one message buffer, which
allows one writer at a time; `xMutexM` is to keep it that way. A call is three
steps: `take` (or `timeout`, after `FATFS_WAIT_MAX_TIME` ticks), `send` inside
`xMessageBufferSend`, and `give`.

The give stands behind the `if`, so a task whose take timed out gives as well.
Without time-outs the section is owned (`send_punctual_good`); a task that
timed out gives a mutex it does not hold whatever happens in between
(`send_timeout_bad`).
-/

namespace Stm32Handler.FatfsLog

open Stm32Handler.Rtos

/-- `FATFS_MAX_MESSAGE_BUFFER`. -/
def fatfsMaxMessageBuffer : ℕ := 4096

/-- Where a task is in `fatfs_send_message`. -/
inductive SendPc where
  /-- outside, or waiting in `xSemaphoreTake` -/
  | idle
  /-- the take returned `pdPASS` -/
  | taken (pMsg : List UInt8)
  /-- `xMessageBufferSend` returned -/
  | sent (bytesent : ℕ)
  /-- the take timed out -/
  | timedOut

/-- Between the successful take and the give. -/
def SendPc.Inside : SendPc → Prop
  | .taken _ | .sent _ => True
  | _ => False

structure SendState (τ : Type*) where
  xMutexM : Mutex τ
  xEventMsgBuffer : List (List UInt8)
  pc : τ → SendPc
  /-- what each task's last call returned -/
  returned : τ → ℕ

/-- Every message is stored behind a four byte length. -/
def messageBytes (buffer : List (List UInt8)) : ℕ := (buffer.map fun m => m.length + 4).sum

/-- `xMessageBufferSend`: all of the message or, when room is still lacking at
the end of the wait, nothing. -/
def xMessageBufferSend (buffer : List (List UInt8)) (pMsg : List UInt8) :
    ℕ × List (List UInt8) :=
  if messageBytes buffer + (pMsg.length + 4) ≤ fatfsMaxMessageBuffer then
    (pMsg.length, buffer ++ [pMsg])
  else (0, buffer)

inductive SendAct (τ : Type*) where
  | take (t : τ) (pMsg : List UInt8)
  | timeout (t : τ)
  | send (t : τ)
  | give (t : τ)
  /-- `xMessageBufferReceive` by the log task -/
  | receive

section

variable {τ : Type*} [DecidableEq τ]

/-- The take of `fatfs_send_message`; `none` while the task has to wait. -/
def fatfsSendTake (s : SendState τ) (t : τ) (pMsg : List UInt8) : Option (SendState τ) :=
  (s.xMutexM.take t).map fun m => { s with xMutexM := m, pc := Function.update s.pc t (.taken pMsg) }

/-- `xSemaphoreGive(gLoggerInfo.xMutexM); return bytesent;` -/
def fatfsSendGive (s : SendState τ) (t : τ) (bytesent : ℕ) : SendState τ :=
  { s with
    xMutexM := s.xMutexM.give t
    pc := Function.update s.pc t .idle
    returned := Function.update s.returned t bytesent }

/-- One step, unless an assertion has stopped the system. -/
def sendStep (s : SendState τ) (a : SendAct τ) : Option (SendState τ) :=
  if s.xMutexM.halted then none else
  match a with
  | .take t pMsg =>
    match s.pc t with
    | .idle => fatfsSendTake s t pMsg
    | _ => none
  | .timeout t =>
    match s.pc t with
    | .idle =>
      if s.xMutexM.holder.isSome then some { s with pc := Function.update s.pc t .timedOut } else none
    | _ => none
  | .send t =>
    match s.pc t with
    | .taken pMsg =>
      let (bytesent, buffer) := xMessageBufferSend s.xEventMsgBuffer pMsg
      some { s with xEventMsgBuffer := buffer, pc := Function.update s.pc t (.sent bytesent) }
    | _ => none
  | .give t =>
    match s.pc t with
    | .sent bytesent => some (fatfsSendGive s t bytesent)
    | .timedOut => some (fatfsSendGive s t 0)
    | _ => none
  | .receive =>
    match s.xEventMsgBuffer with
    | [] => none
    | _ :: rest => some { s with xEventMsgBuffer := rest }

/-- What each action does, where it is enabled. -/
inductive SendStep (s : SendState τ) : SendAct τ → SendState τ → Prop where
  | take {t : τ} {pMsg : List UInt8} {s' : SendState τ} (took : fatfsSendTake s t pMsg = some s') :
    SendStep s (.take t pMsg) s'
  | timeout {t : τ} (pc_eq : s.pc t = .idle) :
    SendStep s (.timeout t) { s with pc := Function.update s.pc t .timedOut }
  | send {t : τ} {pMsg : List UInt8} {bytesent : ℕ} {buffer : List (List UInt8)}
    (pc_eq : s.pc t = .taken pMsg) :
    SendStep s (.send t) { s with
      xEventMsgBuffer := buffer
      pc := Function.update s.pc t (.sent bytesent) }
  | give {t : τ} {bytesent : ℕ} (pc_eq : s.pc t = .sent bytesent) :
    SendStep s (.give t) (fatfsSendGive s t bytesent)
  | giveTimedOut {t : τ} (pc_eq : s.pc t = .timedOut) : SendStep s (.give t) (fatfsSendGive s t 0)
  | receive {buffer : List (List UInt8)} : SendStep s .receive { s with xEventMsgBuffer := buffer }

theorem sendStep_cases {s s' : SendState τ} {a : SendAct τ} (hs : sendStep s a = some s') :
    SendStep s a s' := by
  unfold sendStep at hs
  split at hs
  · cases hs
  cases a with
  | take t pMsg =>
    simp only at hs
    split at hs
    · exact .take hs
    · cases hs
  | timeout t =>
    simp only at hs
    split at hs
    · next ht =>
      simp only [Option.ite_none_right_eq_some, Option.some.injEq] at hs
      obtain ⟨-, rfl⟩ := hs
      exact .timeout ht
    · cases hs
  | send t =>
    simp only at hs
    split at hs
    · next pMsg ht =>
      cases hs
      exact .send ht
    · cases hs
  | give t =>
    simp only at hs
    split at hs
    · next bytesent ht =>
      cases hs
      exact .give ht
    · next ht =>
      cases hs
      exact .giveTimedOut ht
    · cases hs
  | receive =>
    simp only at hs
    split at hs
    · cases hs
    · cases hs
      exact .receive

/-- After `fatfs_os_init`, with every task outside `fatfs_send_message`. -/
def sendInit : SendState τ :=
  { xMutexM := .create, xEventMsgBuffer := [], pc := fun _ => .idle, returned := fun _ => 0 }

/-- At most one task is between its take and its give, and only the holder has
given the mutex. -/
def SendGood (s : SendState τ) : Prop :=
  (∀ t u, (s.pc t).Inside → (s.pc u).Inside → t = u) ∧ s.xMutexM.WellGiven

/-- No `xSemaphoreTake` times out. -/
def Punctual (_ : SendState τ) : SendAct τ → Prop
  | .timeout _ => False
  | _ => True

/-! ## The invariant -/

structure SendInv (s : SendState τ) : Prop where
  owned : s.xMutexM.Owns fun t => (s.pc t).Inside
  given : s.xMutexM.WellGiven
  punctual : ∀ t, s.pc t ≠ .timedOut

omit [DecidableEq τ] in
theorem sendInit_inv : SendInv (sendInit : SendState τ) where
  owned _ h := h.elim
  given := Mutex.create_wellGiven
  punctual _ h := by cases h

theorem update_ne_timedOut {pc : τ → SendPc} (h : ∀ u, pc u ≠ .timedOut) {t : τ} {p : SendPc}
    (hp : p ≠ .timedOut) (u : τ) : Function.update pc t p u ≠ .timedOut := by
  have hall : ∀ u, Function.update pc t p u ≠ .timedOut :=
    (Function.forall_update_iff pc fun _ q => q ≠ .timedOut).2 ⟨hp, fun u _ => h u⟩
  exact hall u

theorem inside_of_update {pc : τ → SendPc} {t u : τ} {p : SendPc}
    (h : (Function.update pc t p u).Inside) : u = t ∨ (pc u).Inside := by
  rcases (Function.pred_update (fun _ q => q.Inside) pc t p u).1 h with ⟨hu, -⟩ | ⟨-, hin⟩
  · exact .inl hu
  · exact .inr hin

theorem sendInv_take {s s' : SendState τ} (h : SendInv s) {t : τ} {pMsg : List UInt8}
    (hs : fatfsSendTake s t pMsg = some s') : SendInv s' := by
  obtain ⟨m, hm, rfl⟩ := Option.map_eq_some_iff.1 hs
  refine ⟨h.owned.take hm fun u hu => inside_of_update hu, ?_, update_ne_timedOut h.punctual nofun⟩
  obtain ⟨-, rfl⟩ := Mutex.take_eq_some.1 hm
  exact h.given

theorem sendInv_send {s : SendState τ} (h : SendInv s) {t : τ} {pMsg : List UInt8}
    (ht : s.pc t = .taken pMsg) (bytesent : ℕ) (buffer : List (List UInt8)) :
    SendInv { s with xEventMsgBuffer := buffer, pc := Function.update s.pc t (.sent bytesent) } := by
  refine ⟨fun u hu => ?_, h.given, update_ne_timedOut h.punctual nofun⟩
  rcases inside_of_update hu with rfl | hu
  · exact h.owned u (show (s.pc u).Inside by rw [ht]; trivial)
  · exact h.owned u hu

theorem sendInv_give {s : SendState τ} (h : SendInv s) {t : τ} {bytesent : ℕ}
    (ht : s.pc t = .sent bytesent) : SendInv (fatfsSendGive s t bytesent) := by
  have hin : (s.pc t).Inside := by rw [ht]; trivial
  refine ⟨h.owned.give hin fun u hu => ?_, ?_, update_ne_timedOut h.punctual nofun⟩
  · by_cases hut : u = t
    · simp only [fatfsSendGive, hut, Function.update_self] at hu
      exact hu.elim
    · exact ⟨hut, (inside_of_update hu).resolve_left hut⟩
  · exact (Mutex.give_of_holder (h.owned t hin) h.given).2.1

theorem sendInv_step {s s' : SendState τ} {a : SendAct τ} (h : SendInv s) (hp : Punctual s a)
    (hs : sendStep s a = some s') : SendInv s' := by
  cases sendStep_cases hs with
  | take htook => exact sendInv_take h htook
  | timeout ht => exact hp.elim
  | send ht => exact sendInv_send h ht _ _
  | give ht => exact sendInv_give h ht
  | giveTimedOut ht => exact absurd ht (h.punctual _)
  | receive => exact ⟨h.owned, h.given, h.punctual⟩

/-! ## Runs -/

/-- **Punctual runs have one writer**: if no take times out, at most one task
is ever between its take and its give and only the holder gives. -/
theorem send_punctual_good (acts : List (SendAct τ)) (s : SendState τ)
    (hp : Along sendStep Punctual sendInit acts) (hrun : exec sendStep sendInit acts = some s) :
    SendGood s :=
  have h := exec_inv (fun _ _ _ h hc hs => sendInv_step h hc hs) sendInit_inv hp hrun
  ⟨fun _ _ => h.owned.exclusive, h.given⟩

/-- Two tasks send in turn. -/
theorem send_punctual_good_two :
    ∃ s, exec sendStep (sendInit : SendState Bool)
        [.take true [0, 7], .send true, .give true, .take false [1]] = some s ∧ SendGood s := by
  refine ⟨_, rfl, send_punctual_good [.take true [0, 7], .send true, .give true, .take false [1]] _
    ?_ rfl⟩
  iterate 4 refine (along_cons rfl).2 ⟨trivial, ?_⟩
  trivial

/-- One task waits for the other in vain and then gives the other's mutex. -/
theorem send_timeout_gives :
    ¬ ∀ (acts : List (SendAct Bool)) (s : SendState Bool),
      exec sendStep sendInit acts = some s → SendGood s := by
  intro h
  have hgood := h [.take true [0, 7], .timeout false, .give false] _ rfl
  exact absurd (hgood.2 (false, some true) (List.mem_singleton_self _)) (by decide)

/-! ## After a time-out

These need no assumption on the run. -/

/-- Whoever holds the mutex is between its take and its give. -/
def HolderInside (s : SendState τ) : Prop := ∀ t, s.xMutexM.holder = some t → (s.pc t).Inside

/-- A step of another task, or one that stays inside, keeps the holder inside. -/
theorem HolderInside.update {s : SendState τ} (h : HolderInside s) {t : τ} {p : SendPc}
    (hp : s.xMutexM.holder = some t → p.Inside) (u : τ) (hu : s.xMutexM.holder = some u) :
    (Function.update s.pc t p u).Inside := by
  have hall : ∀ u, s.xMutexM.holder = some u → (Function.update s.pc t p u).Inside :=
    (Function.forall_update_iff s.pc fun u q => s.xMutexM.holder = some u → q.Inside).2
      ⟨hp, fun u _ => h u⟩
  exact hall u hu

theorem holderInside_give {s : SendState τ} (h : HolderInside s) (t : τ) (bytesent : ℕ) :
    HolderInside (fatfsSendGive s t bytesent) := by
  intro u hu
  simp only [fatfsSendGive, Mutex.give] at hu ⊢
  split at hu
  · cases hu
  · next hne => exact h.update (fun ht => absurd ht hne) u hu

theorem holderInside_step {s s' : SendState τ} {a : SendAct τ} (h : HolderInside s)
    (hs : sendStep s a = some s') : HolderInside s' := by
  cases sendStep_cases hs with
  | take htook =>
    obtain ⟨m, hm, rfl⟩ := Option.map_eq_some_iff.1 htook
    obtain ⟨-, rfl⟩ := Mutex.take_eq_some.1 hm
    intro u hu
    cases hu
    simp only [Function.update_self]
    trivial
  | timeout ht =>
    refine h.update fun hm => ?_
    have hin := h _ hm
    rw [ht] at hin
    exact hin.elim
  | send ht => exact h.update fun _ => trivial
  | give ht => exact holderInside_give h _ _
  | giveTimedOut ht => exact holderInside_give h _ _
  | receive => exact h

/-- Whatever the other tasks did since, the give of a task that timed out is a
give of a mutex it does not hold. -/
theorem send_timeout_bad {acts : List (SendAct τ)} {s : SendState τ}
    (hrun : exec sendStep sendInit acts = some s) {t : τ} (ht : s.pc t = .timedOut) :
    ¬ SendGood (fatfsSendGive s t 0) := by
  have hin : HolderInside s := exec_inv_all (fun _ _ _ => holderInside_step) (fun _ h => by cases h) hrun
  intro hgood
  refine Mutex.not_wellGiven_give (fun hm => ?_) hgood.2
  have := hin t hm
  rw [ht] at this
  exact this

end

end Stm32Handler.FatfsLog
