import Stm32Handler.Rtos.StreamBuffer

/-!
# Waiting for the message buffer

A sender without room and a receiver without a message block until the other
one notifies them. `SendOk` and `ReceiveOk` say why no notification is missed:
a party in `xTaskNotifyWait` has been notified, or its handle is in the buffer
and either what it waits for is still not there or the other party is about to
notify it. With a sender that waits as long as it takes, nobody is left behind
(`messages_delivered`); how many statements that takes is bounded by what
`potential` allows for each call, whatever the schedule.
-/

namespace Stm32Handler.Rtos

/-! ## Handles and notifications -/

/-- Between the setting of the handle and its `NULL`. -/
def SenderPc.Holds : SenderPc → Prop
  | .wait _ _ | .blocked _ _ | .unwait _ _ => True
  | _ => False

/-- The message of a sender in `xTaskNotifyWait`. -/
def SenderPc.asleep : SenderPc → Option (List UInt8)
  | .wait msg _ | .blocked msg _ => some msg
  | _ => none

/-- Behind the store of `xHead`, before the receiver has been notified of it. -/
def SenderPc.Announces : SenderPc → Prop
  | .trigger | .completed => True
  | _ => False

def ReceiverPc.Holds : ReceiverPc → Prop
  | .wait _ | .blocked _ | .unwait _ => True
  | _ => False

def ReceiverPc.Asleep : ReceiverPc → Prop
  | .wait _ | .blocked _ => True
  | _ => False

instance : DecidablePred ReceiverPc.Asleep
  | .wait _ | .blocked _ => isTrue trivial
  | .idle | .check _ | .unwait _ | .recheck _ | .length _ _ | .data _ _ | .publish _ _ | .completed =>
    isFalse id

def ReceiverPc.Announces : ReceiverPc → Prop
  | .completed => True
  | _ => False

/-- The sender's handle and notification, with `xSpace` bytes free and the
receiver about to announce some more. -/
structure SendOk (pc : SenderPc) (notify : NotifyState) (handle : Bool) (xSpace : ℕ)
    (announces : Prop) : Prop where
  holds : handle = true → pc.Holds
  wake : ∀ msg ∈ pc.asleep, notify = .received ∨
    handle = true ∧ (xSpace < requiredSpace msg ∨ announces)

/-- The receiver's, with the messages of `queue` in the ring. -/
structure ReceiveOk (pc : ReceiverPc) (notify : NotifyState) (handle : Bool)
    (queue : List (List UInt8)) (announces : Prop) : Prop where
  holds : handle = true → pc.Holds
  wake : pc.Asleep → notify = .received ∨ handle = true ∧ (queue = [] ∨ announces)

section SendOk

variable {pc pc' : SenderPc} {notify : NotifyState} {handle : Bool} {xSpace xSpace' : ℕ}
  {announces announces' : Prop}

theorem SendOk.mono (h : SendOk pc notify handle xSpace announces)
    (himp : ∀ msg ∈ pc.asleep, xSpace < requiredSpace msg ∨ announces →
      xSpace' < requiredSpace msg ∨ announces') : SendOk pc notify handle xSpace' announces' where
  holds := h.holds
  wake msg hmsg := (h.wake msg hmsg).imp_right fun ⟨hhandle, hwhy⟩ => ⟨hhandle, himp msg hmsg hwhy⟩

/-- The receiver announces nothing. -/
theorem SendOk.quiet (h : SendOk pc notify handle xSpace False) :
    SendOk pc notify handle xSpace announces :=
  h.mono fun _ _ => .imp_right False.elim

/-- No notification is missing where no handle is. -/
theorem SendOk.nobody (h : SendOk pc notify false xSpace announces) :
    SendOk pc notify false xSpace' announces' where
  holds := nofun
  wake msg hmsg := .inl ((h.wake msg hmsg).resolve_right fun hright => Bool.false_ne_true hright.1)

/-- A sender that does not wait. -/
theorem SendOk.awake (h : SendOk pc notify handle xSpace announces) (hpc : ¬ pc.Holds)
    (hawake : pc'.asleep = none) : SendOk pc' notify handle xSpace' announces' where
  holds hhandle := absurd (h.holds hhandle) hpc
  wake msg hmsg := by
    rw [hawake] at hmsg
    cases hmsg

end SendOk

section ReceiveOk

variable {pc pc' : ReceiverPc} {notify : NotifyState} {handle : Bool} {queue queue' : List (List UInt8)}
  {announces announces' : Prop}

theorem ReceiveOk.mono (h : ReceiveOk pc notify handle queue announces)
    (himp : queue = [] ∨ announces → queue' = [] ∨ announces') :
    ReceiveOk pc notify handle queue' announces' where
  holds := h.holds
  wake hpc := (h.wake hpc).imp_right fun ⟨hhandle, hwhy⟩ => ⟨hhandle, himp hwhy⟩

theorem ReceiveOk.quiet (h : ReceiveOk pc notify handle queue False) :
    ReceiveOk pc notify handle queue announces :=
  h.mono (.imp_right False.elim)

theorem ReceiveOk.nobody (h : ReceiveOk pc notify false queue announces) :
    ReceiveOk pc notify false queue' announces' where
  holds := nofun
  wake hpc := .inl ((h.wake hpc).resolve_right fun hright => Bool.false_ne_true hright.1)

theorem ReceiveOk.awake (h : ReceiveOk pc notify handle queue announces) (hpc : ¬ pc.Holds)
    (hawake : ¬ pc'.Asleep) : ReceiveOk pc' notify handle queue' announces' where
  holds hhandle := absurd (h.holds hhandle) hpc
  wake hasleep := absurd hasleep hawake

end ReceiveOk

/-- Both parties, and the trigger level of a message buffer. -/
structure SignalInv (s : SbState) (queue : List (List UInt8)) : Prop where
  triggerEq : s.buffer.xTriggerLevelBytes = 1
  send : SendOk s.sender s.senderNotify s.buffer.xTaskWaitingToSend s.buffer.spacesAvailable
    s.receiver.Announces
  receive : ReceiveOk s.receiver s.receiverNotify s.buffer.xTaskWaitingToReceive queue s.sender.Announces

theorem sbInit_signals (xBufferSizeBytes : ℕ) (pucBuffer : ℕ → UInt8) :
    SignalInv (sbInit xBufferSizeBytes pucBuffer) [] :=
  ⟨rfl, ⟨nofun, nofun⟩, ⟨nofun, nofun⟩⟩

section Step

variable {s s' : SbState} {queue : List (List UInt8)} (h : SbInv s queue) (hsig : SignalInv s queue)
include h hsig

theorem sbSender_signals (hs : SenderStep s s') : SignalInv s' (s.sender.queueAfter queue) := by
  obtain ⟨htrigger, hsend, hreceive⟩ := hsig
  cases hs with
  | full hpc hroom =>
    rw [hpc] at hreceive ⊢
    refine ⟨htrigger, ⟨fun _ => trivial, fun msg hmsg => ?_⟩, hreceive.quiet⟩
    cases hmsg
    exact .inr ⟨rfl, .inl hroom⟩
  | enough hpc =>
    rw [hpc] at hsend hreceive ⊢
    exact ⟨htrigger, hsend.awake id rfl, hreceive.quiet⟩
  | wait hpc =>
    rw [hpc] at hsend hreceive ⊢
    refine ⟨htrigger, ⟨fun _ => trivial, fun msg hmsg => ?_⟩, hreceive.quiet⟩
    refine (hsend.wake msg hmsg).imp_left fun hnotified => ?_
    rw [hnotified]
    rfl
  | wake hpc =>
    rw [hpc] at hreceive ⊢
    exact ⟨htrigger, ⟨fun _ => trivial, nofun⟩, hreceive.quiet⟩
  | unwait hpc =>
    rw [hpc] at hreceive ⊢
    exact ⟨htrigger, ⟨nofun, nofun⟩, hreceive.quiet⟩
  | again hpc | space hpc | refuse hpc =>
    rw [hpc] at hsend hreceive ⊢
    exact ⟨htrigger, hsend.awake id rfl, hreceive.quiet⟩
  | length hpc _ hcopy =>
    rw [hpc] at hsend hreceive ⊢
    rw [← (Prod.mk.inj hcopy).1]
    refine ⟨htrigger, hsend.awake id ?_, hreceive.quiet⟩
    show SenderPc.asleep (if _ then _ else _) = none
    split <;> rfl
  | data hpc hcopy =>
    rw [hpc] at hsend hreceive ⊢
    rw [← (Prod.mk.inj hcopy).1]
    exact ⟨htrigger, hsend.awake id rfl, hreceive.quiet⟩
  | publish hpc =>
    rw [hpc] at hsend hreceive ⊢
    exact ⟨htrigger, hsend.awake id rfl, hreceive.mono fun _ => .inr trivial⟩
  | trigger hpc =>
    rw [hpc] at hsend hreceive ⊢
    refine ⟨htrigger, hsend.awake id ?_, hreceive.mono fun _ => ?_⟩
    · show SenderPc.asleep (if _ then _ else _) = none
      split <;> rfl
    · show queue = [] ∨ SenderPc.Announces (if _ then _ else _)
      by_cases hlevel : s.buffer.bytesInBuffer ≥ s.buffer.xTriggerLevelBytes
      · rw [if_pos hlevel]
        exact .inr trivial
      · -- the receiver was faster
        rw [htrigger] at hlevel
        exact .inl (h.drained (by unfold bytesToStoreMessageLength; omega))
  | notify hpc =>
    rw [hpc] at hsend ⊢
    exact ⟨htrigger, hsend.awake id rfl, ⟨nofun, fun _ => .inl rfl⟩⟩
  | nobody hpc hhandle =>
    rw [hpc] at hsend ⊢
    rw [hhandle] at hreceive
    refine ⟨htrigger, hsend.awake id rfl, ?_⟩
    show ReceiveOk s.receiver s.receiverNotify s.buffer.xTaskWaitingToReceive queue False
    rw [hhandle]
    exact hreceive.nobody

theorem sbReceiver_signals (hs : ReceiverStep s s') : SignalInv s' (s.receiver.queueAfter queue) := by
  obtain ⟨htrigger, hsend, hreceive⟩ := hsig
  cases hs with
  | empty hpc hnone =>
    rw [hpc] at hsend ⊢
    exact ⟨htrigger, hsend.quiet,
      ⟨fun _ => trivial, fun _ => .inr ⟨rfl, .inl (h.drained hnone)⟩⟩⟩
  | found hpc =>
    rcases hpc with hpc | hpc
    all_goals
      rw [hpc] at hsend hreceive ⊢
      exact ⟨htrigger, hsend.quiet, hreceive.awake id id⟩
  | wait hpc =>
    rw [hpc] at hsend hreceive ⊢
    refine ⟨htrigger, hsend.quiet, ⟨fun _ => trivial, fun _ => ?_⟩⟩
    refine (hreceive.wake trivial).imp_left fun hnotified => ?_
    rw [hnotified]
    rfl
  | wake hpc =>
    rw [hpc] at hsend ⊢
    exact ⟨htrigger, hsend.quiet, ⟨fun _ => trivial, nofun⟩⟩
  | unwait hpc =>
    rw [hpc] at hsend ⊢
    exact ⟨htrigger, hsend.quiet, ⟨nofun, nofun⟩⟩
  | fail hpc =>
    rw [hpc] at hsend hreceive ⊢
    exact ⟨htrigger, hsend.quiet, hreceive.awake id id⟩
  | length hpc =>
    rw [hpc] at hsend hreceive ⊢
    refine ⟨htrigger, hsend.quiet, hreceive.awake id ?_⟩
    show ¬ ReceiverPc.Asleep (if _ then _ else _)
    split <;> exact id
  | data hpc =>
    rw [hpc] at hsend hreceive ⊢
    exact ⟨htrigger, hsend.quiet, hreceive.awake id id⟩
  | publish hpc =>
    rw [hpc] at hsend hreceive ⊢
    exact ⟨htrigger, hsend.mono fun _ _ _ => .inr trivial, hreceive.awake id id⟩
  | notify hpc =>
    rw [hpc] at hreceive ⊢
    exact ⟨htrigger, ⟨nofun, fun _ _ => .inl rfl⟩, hreceive.awake id id⟩
  | nobody hpc hhandle =>
    rw [hpc] at hreceive ⊢
    rw [hhandle] at hsend
    refine ⟨htrigger, ?_, hreceive.awake id id⟩
    show SendOk s.sender s.senderNotify s.buffer.xTaskWaitingToSend s.buffer.spacesAvailable False
    rw [hhandle]
    exact hsend.nobody

theorem sbStep_signals {a : SbAct} (hs : sbStep s a = some s') : SignalInv s' (a.queueAfter s queue) := by
  cases a with
  | sender => exact sbSender_signals h hsig (sbSender_cases hs)
  | receiver => exact sbReceiver_signals h hsig (sbReceiver_cases hs)
  | send msg waits =>
    obtain ⟨htrigger, hsend, hreceive⟩ := hsig
    simp only [sbStep, sbSend] at hs
    split at hs
    · next hpc =>
      cases hs
      rw [hpc] at hsend hreceive
      refine ⟨htrigger, hsend.awake id ?_, hreceive.quiet⟩
      show SenderPc.asleep (if _ then _ else _) = none
      split <;> rfl
    · cases hs
  | receive n waits =>
    obtain ⟨htrigger, hsend, hreceive⟩ := hsig
    simp only [sbStep, sbReceive] at hs
    split at hs
    · next hpc =>
      cases hs
      rw [hpc] at hsend hreceive
      refine ⟨htrigger, hsend.quiet, hreceive.awake id ?_⟩
      show ¬ ReceiverPc.Asleep (if _ then _ else _)
      split <;> exact id
    · cases hs
  | sendTimeout =>
    obtain ⟨htrigger, hsend, hreceive⟩ := hsig
    simp only [sbStep, sbSendTimeout] at hs
    split at hs
    · next hpc =>
      cases hs
      rw [hpc] at hreceive
      exact ⟨htrigger, ⟨fun _ => trivial, fun msg hmsg => absurd hmsg (Option.not_mem_none msg)⟩,
        hreceive.quiet⟩
    · next hpc =>
      cases hs
      rw [hpc] at hsend hreceive
      exact ⟨htrigger, hsend.awake id rfl, hreceive.quiet⟩
    · cases hs
  | receiveTimeout =>
    obtain ⟨htrigger, hsend, hreceive⟩ := hsig
    simp only [sbStep, sbReceiveTimeout] at hs
    split at hs
    · next hpc =>
      cases hs
      rw [hpc] at hsend
      exact ⟨htrigger, hsend.quiet, ⟨fun _ => trivial, False.elim⟩⟩
    · cases hs

omit h hsig in
/-- Who is to notify the other party is not stuck. -/
theorem sender_announces (hpc : s.sender.Announces) : sbSender s ≠ none := by
  unfold sbSender
  cases hs : s.sender with
  | trigger => exact Option.some_ne_none _
  | completed =>
    simp only
    split <;> exact Option.some_ne_none _
  | _ =>
    rw [hs] at hpc
    exact hpc.elim

omit h hsig in
theorem receiver_announces (hpc : s.receiver.Announces) : sbReceiver s ≠ none := by
  unfold sbReceiver
  cases hs : s.receiver with
  | completed =>
    simp only
    split <;> exact Option.some_ne_none _
  | _ =>
    rw [hs] at hpc
    exact hpc.elim

omit h in
/-- A sender without a statement has no call, or sleeps behind messages that
leave it no room, which the receiver is not taking out. -/
theorem SignalInv.sender_stuck (hstuck : sbSender s = none) (hreceiver : sbReceiver s = none) :
    s.sender = .idle ∨ ∃ msg xSpace, s.sender = .blocked msg xSpace ∧
      s.buffer.spacesAvailable < requiredSpace msg := by
  have hsend := hsig.send
  unfold sbSender at hstuck
  cases hpc : s.sender with
  | idle => exact .inl rfl
  | check msg =>
    simp only [hpc] at hstuck
    split at hstuck
    · split at hstuck
      · next hhandle =>
        -- the assertion holds: no handle of this sender is left
        have hholds := hsend.holds hhandle
        rw [hpc] at hholds
        exact hholds.elim
      · cases hstuck
    · cases hstuck
  | blocked msg xSpace =>
    simp only [hpc, ite_eq_right_iff, reduceCtorEq, imp_false] at hstuck
    have hwake := hsend.wake msg (by rw [hpc]; rfl)
    obtain ⟨-, hspace⟩ := hwake.resolve_left hstuck
    exact .inr ⟨msg, xSpace, rfl, hspace.resolve_right (receiver_announces · hreceiver)⟩
  | wait msg xSpace | unwait msg xSpace | checkTime msg xSpace | space msg xSpace | data msg xNextHead
  | publish msg xNextHead | trigger =>
    simp only [hpc] at hstuck
    cases hstuck
  | length msg xSpace | completed =>
    simp only [hpc] at hstuck
    split at hstuck <;> cases hstuck

omit h in
/-- A receiver without a statement has no call, or sleeps at an empty ring. -/
theorem SignalInv.receiver_stuck (hstuck : sbReceiver s = none) (hsender : sbSender s = none) :
    s.receiver = .idle ∨ (∃ n, s.receiver = .blocked n) ∧ queue = [] := by
  have hreceive := hsig.receive
  unfold sbReceiver at hstuck
  cases hpc : s.receiver with
  | idle => exact .inl rfl
  | check n =>
    simp only [hpc] at hstuck
    split at hstuck
    · split at hstuck
      · next hhandle =>
        have hholds := hreceive.holds hhandle
        rw [hpc] at hholds
        exact hholds.elim
      · cases hstuck
    · cases hstuck
  | blocked n =>
    simp only [hpc, ite_eq_right_iff, reduceCtorEq, imp_false] at hstuck
    have hwake := hreceive.wake (by rw [hpc]; trivial)
    obtain ⟨-, hempty⟩ := hwake.resolve_left hstuck
    exact .inr ⟨⟨n, rfl⟩, hempty.resolve_right (sender_announces · hsender)⟩
  | wait n | unwait n | recheck n | length n xBytesAvailable | data xCount xNextTail
  | publish pvRxData xNextTail =>
    simp only [hpc] at hstuck
    cases hstuck
  | completed =>
    simp only [hpc] at hstuck
    split at hstuck <;> cases hstuck

end Step

/-! ## A sender that waits as long as it takes -/

/-- A message the buffer was made for, sent with `portMAX_DELAY`. -/
def SbAct.Patient (xBufferSizeBytes : ℕ) : SbAct → Prop
  | .send msg waits => waits = true ∧ msg ≠ [] ∧ requiredSpace msg ≤ xBufferSizeBytes
  | .sendTimeout => False
  | .receive _ _ | .sender | .receiver | .receiveTimeout => True

/-- The message of a call to `xMessageBufferSend`. -/
def SbAct.message : SbAct → List (List UInt8)
  | .send msg _ => [msg]
  | .receive _ _ | .sender | .receiver | .sendTimeout | .receiveTimeout => []

/-- The message of a call that has not published it. -/
def SenderPc.pending : SenderPc → List (List UInt8)
  | .check msg | .wait msg _ | .blocked msg _ | .unwait msg _ | .checkTime msg _ | .space msg _
  | .length msg _ | .data msg _ | .publish msg _ => [msg]
  | .idle | .trigger | .completed => []

/-- There is enough room behind the wait loop, and can be in it. -/
def SenderPc.Fits (xLength : ℕ) : SenderPc → Prop
  | .check msg | .wait msg _ | .blocked msg _ | .unwait msg _ | .checkTime msg _ =>
    msg ≠ [] ∧ requiredSpace msg < xLength
  | .space msg xSpace | .length msg xSpace => msg ≠ [] ∧ requiredSpace msg ≤ xSpace
  | .data _ _ | .publish _ _ | .idle | .trigger | .completed => True

theorem sbSender_patient {s s' : SbState} (hfits : s.sender.Fits s.buffer.xLength) (hs : SenderStep s s') :
    s'.sender.Fits s'.buffer.xLength ∧ s'.sent ++ s'.sender.pending = s.sent ++ s.sender.pending := by
  cases hs with
  | full hpc | wait hpc | wake hpc | unwait hpc | again hpc =>
    rw [hpc] at hfits ⊢
    exact ⟨hfits, rfl⟩
  | enough hpc hroom =>
    rw [hpc] at hfits ⊢
    exact ⟨⟨hfits.1, hroom⟩, rfl⟩
  | @space msg xSpace hpc =>
    rw [hpc] at hfits ⊢
    refine ⟨⟨hfits.1, ?_⟩, rfl⟩
    have hle : requiredSpace msg ≤ xSpace := hfits.2
    rw [if_neg (by unfold requiredSpace bytesToStoreMessageLength at hle; omega)]
    exact hle
  | refuse hpc hroom =>
    rw [hpc] at hfits
    exact absurd hfits.2 (Nat.not_le.2 hroom)
  | length hpc =>
    rw [hpc] at hfits ⊢
    have hlen := List.length_pos_iff.2 hfits.1
    rw [if_pos (Nat.pos_iff_ne_zero.1 hlen)]
    exact ⟨trivial, rfl⟩
  | data hpc =>
    rw [hpc]
    exact ⟨trivial, rfl⟩
  | publish hpc =>
    rw [hpc]
    exact ⟨trivial, List.append_nil _⟩
  | trigger hpc =>
    rw [hpc]
    constructor
    · show SenderPc.Fits _ (if _ then _ else _)
      split <;> trivial
    · show s.sent ++ SenderPc.pending (if _ then _ else _) = _
      split <;> rfl
  | notify hpc | nobody hpc =>
    rw [hpc]
    exact ⟨trivial, rfl⟩

/-- One step of a patient run: what the sender was called with is published or
still to be. -/
theorem sbStep_patient {xBufferSizeBytes : ℕ} {s s' : SbState}
    (hlen : s.buffer.xLength = xBufferSizeBytes + 1) (hfits : s.sender.Fits s.buffer.xLength) {a : SbAct}
    (ha : a.Patient xBufferSizeBytes) (hs : sbStep s a = some s') :
    s'.sender.Fits s'.buffer.xLength ∧
      s'.sent ++ s'.sender.pending = s.sent ++ s.sender.pending ++ a.message := by
  cases a with
  | send msg waits =>
    obtain ⟨hwaits, hmsg, hroom⟩ := ha
    simp only [sbStep, sbSend] at hs
    split at hs
    · next hpc =>
      rw [if_pos ⟨hwaits, by rw [hlen]; exact hroom⟩] at hs
      cases hs
      rw [hpc]
      refine ⟨⟨hmsg, ?_⟩, by rw [List.append_assoc]; rfl⟩
      show _ < s.buffer.xLength
      rw [hlen]
      exact Nat.lt_succ_of_le hroom
    · cases hs
  | sender =>
    rw [SbAct.message, List.append_nil]
    exact sbSender_patient hfits (sbSender_cases hs)
  | receiver =>
    rw [SbAct.message, List.append_nil]
    cases sbReceiver_cases hs <;> exact ⟨hfits, rfl⟩
  | receive n waits =>
    rw [SbAct.message, List.append_nil]
    simp only [sbStep, sbReceive] at hs
    split at hs <;> cases hs
    exact ⟨hfits, rfl⟩
  | receiveTimeout =>
    rw [SbAct.message, List.append_nil]
    simp only [sbStep, sbReceiveTimeout] at hs
    split at hs <;> cases hs
    exact ⟨hfits, rfl⟩
  | sendTimeout => exact ha.elim

theorem sbRun_patient {xBufferSizeBytes : ℕ} {pucBuffer : ℕ → UInt8} {acts : List SbAct} {s : SbState}
    (hacts : ∀ a ∈ acts, a.Patient xBufferSizeBytes)
    (hrun : exec sbStep (sbInit xBufferSizeBytes pucBuffer) acts = some s) :
    s.sender.Fits s.buffer.xLength ∧ s.sent ++ s.sender.pending = acts.flatMap SbAct.message := by
  have hG : Along sbStep (fun _ a => a.Patient xBufferSizeBytes) (sbInit xBufferSizeBytes pucBuffer) acts :=
    along_of_forall _ fun a ha _ => hacts a ha
  have hkeep : ∀ s a s', s.buffer.xLength = xBufferSizeBytes + 1 ∧ s.sender.Fits s.buffer.xLength →
      SbAct.Patient xBufferSizeBytes a → sbStep s a = some s' →
      (s'.buffer.xLength = xBufferSizeBytes + 1 ∧ s'.sender.Fits s'.buffer.xLength) ∧
        s'.sent ++ s'.sender.pending = s.sent ++ s.sender.pending ++ a.message := by
    rintro s a s' ⟨hlen, hfits⟩ ha hs
    obtain ⟨hfits', hlog⟩ := sbStep_patient hlen hfits ha hs
    exact ⟨⟨(sbStep_xLength hs).trans hlen, hfits'⟩, hlog⟩
  have hinit : (sbInit xBufferSizeBytes pucBuffer).buffer.xLength = xBufferSizeBytes + 1 ∧
      (sbInit xBufferSizeBytes pucBuffer).sender.Fits (sbInit xBufferSizeBytes pucBuffer).buffer.xLength :=
    ⟨rfl, trivial⟩
  refine ⟨(exec_inv (fun s a s' hI ha hs => (hkeep s a s' hI ha hs).1) hinit hG hrun).2, ?_⟩
  have hhistory := exec_history_inv hkeep hinit hG hrun
  rw [history_eq_flatMap hrun] at hhistory
  exact hhistory

/-! ## How long it takes -/

/-- Statements the sender may take without another notification; a notification
that has come is good for five more. -/
def SenderPc.potential (notify : NotifyState) : SenderPc → ℕ
  | .idle => 0
  | .completed => 1
  | .trigger => 2
  | .publish _ _ => 3
  | .data _ _ => 4
  | .length _ _ => 5
  | .space _ _ => 6
  | .check _ => 7
  | .wait _ _ => if notify = .received then 11 else 6
  | .blocked _ _ => if notify = .received then 10 else 5
  | .unwait _ _ => 9
  | .checkTime _ _ => 8

/-- Statements the receiver may take, and the five of the sender it notifies. -/
def ReceiverPc.potential : ReceiverPc → ℕ
  | .idle => 0
  | .completed => 6
  | .publish _ _ => 7
  | .data _ _ => 8
  | .length _ _ => 9
  | .recheck _ => 10
  | .unwait _ => 11
  | .blocked _ => 12
  | .wait _ => 13
  | .check _ => 14

def SbState.potential (s : SbState) : ℕ := s.sender.potential s.senderNotify + s.receiver.potential

def SbAct.statements : SbAct → ℕ
  | .sender | .receiver => 1
  | _ => 0

/-- The statements a call, or the end of a wait, brings with it. -/
def SbAct.allowance : SbAct → ℕ
  | .send _ _ => 7
  | .receive _ _ => 14
  | .sendTimeout => 4
  | _ => 0

theorem sbSender_potential {s s' : SbState} (hs : SenderStep s s') : s'.potential + 1 ≤ s.potential := by
  unfold SbState.potential
  cases hs with
  | full hpc =>
    have hclear : s.senderNotify.clear ≠ .received := by cases s.senderNotify <;> nofun
    rw [hpc]
    simp only [SenderPc.potential, if_neg hclear]
    omega
  | wait hpc =>
    have hwait : s.senderNotify.wait = .received ↔ s.senderNotify = .received := by
      cases s.senderNotify <;> decide
    rw [hpc]
    simp only [SenderPc.potential, hwait]
    split <;> omega
  | wake hpc hnotified =>
    rw [hpc, hnotified]
    simp only [SenderPc.potential, if_true]
    omega
  | length hpc =>
    rw [hpc]
    split <;> simp only [SenderPc.potential] <;> omega
  | trigger hpc =>
    rw [hpc]
    split <;> simp only [SenderPc.potential] <;> omega
  | enough hpc | unwait hpc | again hpc | space hpc | refuse hpc | data hpc | publish hpc | notify hpc
  | nobody hpc =>
    rw [hpc]
    simp only [SenderPc.potential]
    omega

/-- A notification is good for five statements. -/
theorem SenderPc.potential_received (pc : SenderPc) (notify : NotifyState) :
    pc.potential .received ≤ pc.potential notify + 5 := by
  cases pc with
  | wait msg xSpace | blocked msg xSpace =>
    simp only [potential, if_true]
    split <;> omega
  | _ => exact Nat.le_add_right _ _

theorem sbReceiver_potential {s s' : SbState} (hs : ReceiverStep s s') :
    s'.potential + 1 ≤ s.potential := by
  unfold SbState.potential
  cases hs with
  | notify hpc =>
    have hreceived := s.sender.potential_received s.senderNotify
    rw [hpc]
    simp only [ReceiverPc.potential]
    omega
  | found hpc =>
    rcases hpc with hpc | hpc
    all_goals
      rw [hpc]
      simp only [ReceiverPc.potential]
      omega
  | length hpc =>
    rw [hpc]
    split <;> simp only [ReceiverPc.potential] <;> omega
  | empty hpc | wait hpc | wake hpc | unwait hpc | fail hpc | data hpc | publish hpc | nobody hpc =>
    rw [hpc]
    simp only [ReceiverPc.potential]
    omega

theorem sbStep_potential {s s' : SbState} {a : SbAct} (hs : sbStep s a = some s') :
    s'.potential + a.statements ≤ s.potential + a.allowance := by
  cases a with
  | sender => exact sbSender_potential (sbSender_cases hs)
  | receiver => exact sbReceiver_potential (sbReceiver_cases hs)
  | send msg waits =>
    simp only [sbStep, sbSend] at hs
    split at hs
    · next hpc =>
      cases hs
      simp only [SbState.potential, hpc, SbAct.statements, SbAct.allowance]
      split <;> simp only [SenderPc.potential] <;> omega
    · cases hs
  | receive n waits =>
    simp only [sbStep, sbReceive] at hs
    split at hs
    · next hpc =>
      cases hs
      simp only [SbState.potential, hpc, SbAct.statements, SbAct.allowance]
      split <;> simp only [ReceiverPc.potential] <;> omega
    · cases hs
  | sendTimeout =>
    simp only [sbStep, sbSendTimeout] at hs
    split at hs
    · next hpc =>
      cases hs
      simp only [SbState.potential, hpc, SenderPc.potential, SbAct.statements, SbAct.allowance]
      split <;> omega
    · next hpc =>
      cases hs
      simp only [SbState.potential, hpc, SenderPc.potential, SbAct.statements, SbAct.allowance]
      omega
    · cases hs
  | receiveTimeout =>
    simp only [sbStep, sbReceiveTimeout] at hs
    split at hs
    · next hpc =>
      cases hs
      simp only [SbState.potential, hpc, ReceiverPc.potential, SbAct.statements, SbAct.allowance]
      omega
    · cases hs

/-! ## Runs -/

/-- **Nobody is left waiting**: however the statements interleave, a run has no
more of them than its calls bring with them; what was received is what the
first calls sent. Where neither party has a statement left, a receiver in a
call has received everything there is, and a sender in a call waits behind
messages that no receiver has asked for. -/
theorem messages_delivered (xBufferSizeBytes : ℕ) (hsize : xBufferSizeBytes < 2 ^ 31)
    (pucBuffer : ℕ → UInt8) (acts : List SbAct) (hacts : ∀ a ∈ acts, a.Patient xBufferSizeBytes)
    (s : SbState) (hrun : exec sbStep (sbInit xBufferSizeBytes pucBuffer) acts = some s) :
    (acts.map SbAct.statements).sum ≤ (acts.map SbAct.allowance).sum ∧
      s.received <+: acts.flatMap SbAct.message ∧
      (sbStep s .sender = none → sbStep s .receiver = none →
        (s.receiver ≠ .idle → s.sender = .idle ∧ s.received = acts.flatMap SbAct.message) ∧
          (s.sender ≠ .idle → s.receiver = .idle ∧ bytesToStoreMessageLength < s.buffer.bytesInBuffer)) := by
  obtain ⟨queue, h, hsig⟩ := exec_inv_all (I := fun s => ∃ queue, SbInv s queue ∧ SignalInv s queue)
    (fun _ _ _ ⟨_, h, hsig⟩ hs => ⟨_, sbStep_inv h hs, sbStep_signals h hsig hs⟩)
    ⟨[], sbInit_inv hsize pucBuffer, sbInit_signals _ _⟩ hrun
  have hlen := exec_inv_all (I := fun s => s.buffer.xLength = xBufferSizeBytes + 1)
    (fun _ _ _ h hs => (sbStep_xLength hs).trans h) rfl hrun
  obtain ⟨hfits, hoffered⟩ := sbRun_patient hacts hrun
  have hcost := exec_amortised (fun _ _ _ hs => sbStep_potential hs) hrun
  refine ⟨Nat.le_trans (Nat.le_add_left _ _) (Nat.zero_add (acts.map SbAct.allowance).sum ▸ hcost), ?_,
    fun hstuck hstuck' => ?_⟩
  · rw [← hoffered, h.sentEq, List.append_assoc]
    exact List.prefix_append _ _
  · rcases hsig.sender_stuck hstuck hstuck' with hidle | ⟨msg, xSpace, hsender, hspace⟩
    · refine ⟨fun hcall => ⟨hidle, ?_⟩, fun hcall => absurd hidle hcall⟩
      obtain ⟨-, hempty⟩ := (hsig.receiver_stuck hstuck' hstuck).resolve_left hcall
      rw [← hoffered, h.sentEq, hempty, hidle, SenderPc.pending, List.append_nil, List.append_nil]
    · rw [hsender] at hfits
      have hqueue : queue ≠ [] := by
        -- an empty ring would have room for the message
        rintro rfl
        have hle : requiredSpace msg < s.buffer.xLength := hfits.2
        rw [h.spaces] at hspace
        simp only [wire4, wire, List.flatMap_nil, List.length_nil] at hspace
        omega
      have hreceiver : s.receiver = .idle :=
        (hsig.receiver_stuck hstuck' hstuck).resolve_right fun hempty => hqueue hempty.2
      exact ⟨fun hcall => absurd hreceiver hcall,
        fun _ => ⟨hreceiver, Nat.not_le.1 fun hnone => hqueue (h.drained hnone)⟩⟩

/-- The receiver waits before the send, is notified, and waits again. -/
def waitedFor : List SbAct :=
  [.receive 255 true] ++ List.replicate 2 .receiver ++ [.send [1, 2] true] ++ List.replicate 7 .sender ++
    List.replicate 7 .receiver ++ [.receive 255 true] ++ List.replicate 2 .receiver

theorem messages_delivered_one :
    ∃ s, exec sbStep (sbInit 6 fun _ => 0) waitedFor = some s ∧ s.sender = .idle ∧ s.received = [[1, 2]] := by
  have hlast : ((exec sbStep (sbInit 6 fun _ => 0) waitedFor).any fun s =>
      (sbStep s .sender).isNone && (sbStep s .receiver).isNone && decide s.receiver.Asleep) = true := by
    decide +kernel
  obtain ⟨s, hrun, hs⟩ := (Option.any_eq_true _ _).1 hlast
  simp only [Bool.and_eq_true, Option.isNone_iff_eq_none, decide_eq_true_eq] at hs
  obtain ⟨⟨hsender, hreceiver⟩, hasleep⟩ := hs
  obtain ⟨-, -, hstuck⟩ := messages_delivered 6 (by decide) (fun _ => 0) waitedFor
    (by simp [waitedFor, SbAct.Patient, requiredSpace, bytesToStoreMessageLength]) s hrun
  have hcall : s.receiver ≠ .idle := fun hidle => by
    rw [hidle] at hasleep
    exact hasleep
  exact ⟨s, hrun, (hstuck hsender hreceiver).1 hcall⟩

end Stm32Handler.Rtos
