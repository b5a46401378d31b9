import Stm32Handler.Lib.Frames
import Stm32Handler.Lib.Ring
import Stm32Handler.Lib.Run

/-!
# The FreeRTOS message buffer

`stream_buffer.c` for a buffer that holds messages: a byte ring with a head
that only the sender moves and a tail that only the receiver moves. A message
is stored behind its length; the sender publishes both by one store of `xHead`,
the receiver frees both by one store of `xTail`. No lock is taken around the
copying, so a sender and a receiver interleave between any two statements; the
critical sections and what runs with the scheduler suspended are one statement
each. A party that has to wait leaves its handle in the buffer and blocks in
`xTaskNotifyWait`, until the other one has completed a call and notifies it.

`SbInv` says what that leaves of the ring: it spells the messages that were
sent and not received, and behind them whatever the sender has copied but not
published.
-/

namespace Stm32Handler.Rtos

/-- `sbBYTES_TO_STORE_MESSAGE_LENGTH`: a `size_t`. -/
def bytesToStoreMessageLength : ℕ := 4

/-- `StreamBuffer_t`, with the bytes at `pucBuffer`. With one sender and one
receiver a handle is there or is `NULL`. -/
structure StreamBuffer where
  xTail : ℕ
  xHead : ℕ
  xLength : ℕ
  xTriggerLevelBytes : ℕ
  xTaskWaitingToReceive : Bool
  xTaskWaitingToSend : Bool
  pucBuffer : ℕ → UInt8

/-- `xMessageBufferCreate(xBufferSizeBytes)`; one byte is never filled. -/
def xMessageBufferCreate (xBufferSizeBytes : ℕ) (pucBuffer : ℕ → UInt8) : StreamBuffer :=
  { xTail := 0
    xHead := 0
    xLength := xBufferSizeBytes + 1
    xTriggerLevelBytes := 1
    xTaskWaitingToReceive := false
    xTaskWaitingToSend := false
    pucBuffer := pucBuffer }

/-! ## `stream_buffer.c` -/

namespace StreamBuffer

variable (b : StreamBuffer)

/-- `xStreamBufferSpacesAvailable`. Only the sender calls it, for which the
head stands still: its loop ends with the count of one moment. -/
def spacesAvailable : ℕ :=
  let xSpace := b.xLength + b.xTail - b.xHead - 1
  if xSpace ≥ b.xLength then xSpace - b.xLength else xSpace

/-- `prvBytesInBuffer`. -/
def bytesInBuffer : ℕ :=
  let xCount := b.xLength + b.xHead - b.xTail
  if xCount ≥ b.xLength then xCount - b.xLength else xCount

/-- The index `xCount` cells on, as both copying functions compute it. -/
def advance (xIndex xCount : ℕ) : ℕ :=
  if xIndex + xCount ≥ b.xLength then xIndex + xCount - b.xLength else xIndex + xCount

/-- `prvWriteBytesToBuffer`: the buffer after its two copies, and the next head. -/
def writeBytes (pucData : List UInt8) (xHead : ℕ) : StreamBuffer × ℕ :=
  let xFirstLength := min (b.xLength - xHead) pucData.length
  let pucBuffer := store b.pucBuffer xHead (pucData.take xFirstLength)
  let pucBuffer :=
    if pucData.length > xFirstLength then store pucBuffer 0 (pucData.drop xFirstLength) else pucBuffer
  ({ b with pucBuffer := pucBuffer }, b.advance xHead pucData.length)

/-- `prvReadBytesFromBuffer`: the bytes of its two copies, and the next tail. -/
def readBytes (xCount xTail : ℕ) : List UInt8 × ℕ :=
  let xFirstLength := min (b.xLength - xTail) xCount
  let pucData := (List.range xFirstLength).map fun i => b.pucBuffer (xTail + i)
  let pucData :=
    if xCount > xFirstLength then
      pucData ++ (List.range (xCount - xFirstLength)).map fun i => b.pucBuffer i
    else pucData
  (pucData, b.advance xTail xCount)

end StreamBuffer

/-! ## A sender and a receiver -/

/-- `ucNotifyState` of a task. -/
inductive NotifyState where
  | notWaiting
  | waiting
  | received
  deriving DecidableEq

/-- `xTaskNotifyStateClear`. -/
def NotifyState.clear : NotifyState → NotifyState
  | .received => .notWaiting
  | st => st

/-- `xTaskNotifyWait`, up to where it blocks or finds a notification. -/
def NotifyState.wait : NotifyState → NotifyState
  | .received => .received
  | _ => .waiting

/-- The sender's next statement in `xStreamBufferSend`. -/
inductive SenderPc where
  | idle
  /-- the critical section of the wait loop -/
  | check (msg : List UInt8)
  /-- the first part of `xTaskNotifyWait` -/
  | wait (msg : List UInt8) (xSpace : ℕ)
  /-- its second part -/
  | blocked (msg : List UInt8) (xSpace : ℕ)
  /-- `xTaskWaitingToSend = NULL` -/
  | unwait (msg : List UInt8) (xSpace : ℕ)
  /-- `xTaskCheckForTimeOut` -/
  | checkTime (msg : List UInt8) (xSpace : ℕ)
  /-- `if (xSpace == 0)` behind the loop -/
  | space (msg : List UInt8) (xSpace : ℕ)
  /-- `prvWriteMessageToBuffer`, at the length -/
  | length (msg : List UInt8) (xSpace : ℕ)
  /-- at the data -/
  | data (msg : List UInt8) (xNextHead : ℕ)
  /-- at the assignment of `xHead` -/
  | publish (msg : List UInt8) (xNextHead : ℕ)
  /-- the test of the trigger level -/
  | trigger
  /-- `prvSEND_COMPLETED` -/
  | completed

/-- The receiver's next statement in `xStreamBufferReceive`; its own buffer takes
`xBufferLengthBytes`. -/
inductive ReceiverPc where
  | idle
  /-- the critical section -/
  | check (xBufferLengthBytes : ℕ)
  /-- the first part of `xTaskNotifyWait` -/
  | wait (xBufferLengthBytes : ℕ)
  /-- its second part -/
  | blocked (xBufferLengthBytes : ℕ)
  /-- `xTaskWaitingToReceive = NULL` -/
  | unwait (xBufferLengthBytes : ℕ)
  /-- the reading of the bytes available outside the critical section -/
  | recheck (xBufferLengthBytes : ℕ)
  /-- `prvReadMessageFromBuffer`, at the length -/
  | length (xBufferLengthBytes xBytesAvailable : ℕ)
  /-- at the data -/
  | data (xCount xNextTail : ℕ)
  /-- at the assignment of `xTail` -/
  | publish (pvRxData : List UInt8) (xNextTail : ℕ)
  /-- `prvRECEIVE_COMPLETED` -/
  | completed

/-- The buffer, the two parties with their notification states, and their
histories: the messages whose send was published and the messages received. -/
structure SbState where
  buffer : StreamBuffer
  sender : SenderPc
  receiver : ReceiverPc
  senderNotify : NotifyState
  receiverNotify : NotifyState
  sent : List (List UInt8)
  received : List (List UInt8)

inductive SbAct where
  /-- the sender calls `xMessageBufferSend`, which waits if `xTicksToWait` is not 0 -/
  | send (msg : List UInt8) (waits : Bool)
  /-- the receiver calls `xMessageBufferReceive` -/
  | receive (xBufferLengthBytes : ℕ) (waits : Bool)
  /-- the sender's next statement -/
  | sender
  /-- the receiver's next statement -/
  | receiver
  /-- the time the sender waits is over -/
  | sendTimeout
  /-- the time the receiver waits is over -/
  | receiveTimeout

def requiredSpace (msg : List UInt8) : ℕ := msg.length + bytesToStoreMessageLength

/-- `xStreamBufferSend` up to its loop. -/
def sbSend (s : SbState) (msg : List UInt8) (waits : Bool) : Option SbState :=
  match s.sender with
  | .idle =>
    some { s with
      sender := if waits ∧ requiredSpace msg ≤ s.buffer.xLength - 1 then .check msg else .space msg 0 }
  | _ => none

/-- A statement of the sender; a `configASSERT` that fails enables none. -/
def sbSender (s : SbState) : Option SbState :=
  match s.sender with
  | .idle => none
  | .check msg =>
    let xSpace := s.buffer.spacesAvailable
    if xSpace < requiredSpace msg then
      if s.buffer.xTaskWaitingToSend then none
      else some { s with
        senderNotify := s.senderNotify.clear
        buffer := { s.buffer with xTaskWaitingToSend := true }
        sender := .wait msg xSpace }
    else some { s with sender := .space msg xSpace }
  | .wait msg xSpace =>
    some { s with senderNotify := s.senderNotify.wait, sender := .blocked msg xSpace }
  | .blocked msg xSpace =>
    if s.senderNotify = .received then
      some { s with senderNotify := .notWaiting, sender := .unwait msg xSpace }
    else none
  | .unwait msg xSpace =>
    some { s with buffer := { s.buffer with xTaskWaitingToSend := false }, sender := .checkTime msg xSpace }
  | .checkTime msg _ => some { s with sender := .check msg }
  | .space msg xSpace =>
    some { s with sender := .length msg (if xSpace = 0 then s.buffer.spacesAvailable else xSpace) }
  | .length msg xSpace =>
    if xSpace ≥ requiredSpace msg then
      let (buffer, xNextHead) :=
        s.buffer.writeBytes (leBytes bytesToStoreMessageLength msg.length) s.buffer.xHead
      some { s with buffer := buffer, sender := if msg.length ≠ 0 then .data msg xNextHead else .idle }
    else some { s with sender := .idle }
  | .data msg xNextHead =>
    let (buffer, xNextHead) := s.buffer.writeBytes msg xNextHead
    some { s with buffer := buffer, sender := .publish msg xNextHead }
  | .publish msg xNextHead =>
    some { s with
      buffer := { s.buffer with xHead := xNextHead }
      sender := .trigger
      sent := s.sent ++ [msg] }
  | .trigger =>
    some { s with
      sender := if s.buffer.bytesInBuffer ≥ s.buffer.xTriggerLevelBytes then .completed else .idle }
  | .completed =>
    if s.buffer.xTaskWaitingToReceive then
      some { s with
        receiverNotify := .received
        buffer := { s.buffer with xTaskWaitingToReceive := false }
        sender := .idle }
    else some { s with sender := .idle }

/-- The time is over in `xTaskNotifyWait`, or `xTaskCheckForTimeOut` finds it so. -/
def sbSendTimeout (s : SbState) : Option SbState :=
  match s.sender with
  | .blocked msg xSpace => some { s with senderNotify := .notWaiting, sender := .unwait msg xSpace }
  | .checkTime msg xSpace => some { s with sender := .space msg xSpace }
  | _ => none

/-- `xStreamBufferReceive` up to its first reading. -/
def sbReceive (s : SbState) (xBufferLengthBytes : ℕ) (waits : Bool) : Option SbState :=
  match s.receiver with
  | .idle =>
    some { s with receiver := if waits then .check xBufferLengthBytes else .recheck xBufferLengthBytes }
  | _ => none

/-- A statement of the receiver. -/
def sbReceiver (s : SbState) : Option SbState :=
  match s.receiver with
  | .idle => none
  | .check n =>
    let xBytesAvailable := s.buffer.bytesInBuffer
    if xBytesAvailable ≤ bytesToStoreMessageLength then
      if s.buffer.xTaskWaitingToReceive then none
      else some { s with
        receiverNotify := s.receiverNotify.clear
        buffer := { s.buffer with xTaskWaitingToReceive := true }
        receiver := .wait n }
    else some { s with receiver := .length n xBytesAvailable }
  | .wait n => some { s with receiverNotify := s.receiverNotify.wait, receiver := .blocked n }
  | .blocked n =>
    if s.receiverNotify = .received then
      some { s with receiverNotify := .notWaiting, receiver := .unwait n }
    else none
  | .unwait n =>
    some { s with buffer := { s.buffer with xTaskWaitingToReceive := false }, receiver := .recheck n }
  | .recheck n =>
    let xBytesAvailable := s.buffer.bytesInBuffer
    some { s with
      receiver := if xBytesAvailable > bytesToStoreMessageLength then .length n xBytesAvailable else .idle }
  | .length n xBytesAvailable =>
    let (xTemp, xNextTail) := s.buffer.readBytes bytesToStoreMessageLength s.buffer.xTail
    let xNextMessageLength := if leNat xTemp > n then 0 else leNat xTemp
    let xCount := min xNextMessageLength (xBytesAvailable - bytesToStoreMessageLength)
    some { s with receiver := if xCount ≠ 0 then .data xCount xNextTail else .idle }
  | .data xCount xNextTail =>
    let (pvRxData, xNextTail) := s.buffer.readBytes xCount xNextTail
    some { s with receiver := .publish pvRxData xNextTail }
  | .publish pvRxData xNextTail =>
    some { s with
      buffer := { s.buffer with xTail := xNextTail }
      receiver := .completed
      received := s.received ++ [pvRxData] }
  | .completed =>
    if s.buffer.xTaskWaitingToSend then
      some { s with
        senderNotify := .received
        buffer := { s.buffer with xTaskWaitingToSend := false }
        receiver := .idle }
    else some { s with receiver := .idle }

/-- The time is over in the receiver's `xTaskNotifyWait`. -/
def sbReceiveTimeout (s : SbState) : Option SbState :=
  match s.receiver with
  | .blocked n => some { s with receiverNotify := .notWaiting, receiver := .unwait n }
  | _ => none

def sbStep (s : SbState) : SbAct → Option SbState
  | .send msg waits => sbSend s msg waits
  | .receive xBufferLengthBytes waits => sbReceive s xBufferLengthBytes waits
  | .sender => sbSender s
  | .receiver => sbReceiver s
  | .sendTimeout => sbSendTimeout s
  | .receiveTimeout => sbReceiveTimeout s

/-- A fresh message buffer. -/
def sbInit (xBufferSizeBytes : ℕ) (pucBuffer : ℕ → UInt8) : SbState :=
  { buffer := xMessageBufferCreate xBufferSizeBytes pucBuffer
    sender := .idle
    receiver := .idle
    senderNotify := .notWaiting
    receiverNotify := .notWaiting
    sent := []
    received := [] }

/-! ### What a statement does -/

inductive SenderStep (s : SbState) : SbState → Prop where
  | full {msg : List UInt8} (pc : s.sender = .check msg)
    (room : s.buffer.spacesAvailable < requiredSpace msg) (free : s.buffer.xTaskWaitingToSend = false) :
    SenderStep s { s with
      senderNotify := s.senderNotify.clear
      buffer := { s.buffer with xTaskWaitingToSend := true }
      sender := .wait msg s.buffer.spacesAvailable }
  | enough {msg : List UInt8} (pc : s.sender = .check msg)
    (room : requiredSpace msg ≤ s.buffer.spacesAvailable) :
    SenderStep s { s with sender := .space msg s.buffer.spacesAvailable }
  | wait {msg : List UInt8} {xSpace : ℕ} (pc : s.sender = .wait msg xSpace) :
    SenderStep s { s with senderNotify := s.senderNotify.wait, sender := .blocked msg xSpace }
  | wake {msg : List UInt8} {xSpace : ℕ} (pc : s.sender = .blocked msg xSpace)
    (notified : s.senderNotify = .received) :
    SenderStep s { s with senderNotify := .notWaiting, sender := .unwait msg xSpace }
  | unwait {msg : List UInt8} {xSpace : ℕ} (pc : s.sender = .unwait msg xSpace) :
    SenderStep s { s with
      buffer := { s.buffer with xTaskWaitingToSend := false }
      sender := .checkTime msg xSpace }
  | again {msg : List UInt8} {xSpace : ℕ} (pc : s.sender = .checkTime msg xSpace) :
    SenderStep s { s with sender := .check msg }
  | space {msg : List UInt8} {xSpace : ℕ} (pc : s.sender = .space msg xSpace) :
    SenderStep s { s with
      sender := .length msg (if xSpace = 0 then s.buffer.spacesAvailable else xSpace) }
  | refuse {msg : List UInt8} {xSpace : ℕ} (pc : s.sender = .length msg xSpace)
    (room : xSpace < requiredSpace msg) : SenderStep s { s with sender := .idle }
  | length {msg : List UInt8} {xSpace : ℕ} (pc : s.sender = .length msg xSpace)
    (room : requiredSpace msg ≤ xSpace) {buffer : StreamBuffer} {xNextHead : ℕ}
    (copy : s.buffer.writeBytes (leBytes bytesToStoreMessageLength msg.length) s.buffer.xHead =
      (buffer, xNextHead)) :
    SenderStep s { s with
      buffer := buffer
      sender := if msg.length ≠ 0 then .data msg xNextHead else .idle }
  | data {msg : List UInt8} {k : ℕ} (pc : s.sender = .data msg k) {buffer : StreamBuffer} {xNextHead : ℕ}
    (copy : s.buffer.writeBytes msg k = (buffer, xNextHead)) :
    SenderStep s { s with buffer := buffer, sender := .publish msg xNextHead }
  | publish {msg : List UInt8} {xNextHead : ℕ} (pc : s.sender = .publish msg xNextHead) :
    SenderStep s { s with
      buffer := { s.buffer with xHead := xNextHead }
      sender := .trigger
      sent := s.sent ++ [msg] }
  | trigger (pc : s.sender = .trigger) :
    SenderStep s { s with
      sender := if s.buffer.bytesInBuffer ≥ s.buffer.xTriggerLevelBytes then .completed else .idle }
  | notify (pc : s.sender = .completed) (waiting : s.buffer.xTaskWaitingToReceive = true) :
    SenderStep s { s with
      receiverNotify := .received
      buffer := { s.buffer with xTaskWaitingToReceive := false }
      sender := .idle }
  | nobody (pc : s.sender = .completed) (waiting : s.buffer.xTaskWaitingToReceive = false) :
    SenderStep s { s with sender := .idle }

theorem sbSender_cases {s s' : SbState} (hs : sbSender s = some s') : SenderStep s s' := by
  unfold sbSender at hs
  cases hpc : s.sender with
  | idle =>
    simp only [hpc] at hs
    cases hs
  | check msg =>
    simp only [hpc] at hs
    by_cases hroom : s.buffer.spacesAvailable < requiredSpace msg
    · rw [if_pos hroom] at hs
      by_cases hflag : s.buffer.xTaskWaitingToSend = true
      · rw [if_pos hflag] at hs
        cases hs
      · rw [if_neg hflag] at hs
        cases hs
        exact .full hpc hroom (Bool.eq_false_of_not_eq_true hflag)
    · rw [if_neg hroom] at hs
      cases hs
      exact .enough hpc (Nat.not_lt.1 hroom)
  | wait msg xSpace =>
    simp only [hpc] at hs
    cases hs
    exact .wait hpc
  | blocked msg xSpace =>
    simp only [hpc] at hs
    by_cases hnotified : s.senderNotify = .received
    · rw [if_pos hnotified] at hs
      cases hs
      exact .wake hpc hnotified
    · rw [if_neg hnotified] at hs
      cases hs
  | unwait msg xSpace =>
    simp only [hpc] at hs
    cases hs
    exact .unwait hpc
  | checkTime msg xSpace =>
    simp only [hpc] at hs
    cases hs
    exact .again hpc
  | space msg xSpace =>
    simp only [hpc] at hs
    cases hs
    exact .space hpc
  | length msg xSpace =>
    simp only [hpc] at hs
    by_cases hroom : xSpace ≥ requiredSpace msg
    · rw [if_pos hroom] at hs
      cases hs
      exact .length hpc hroom rfl
    · rw [if_neg hroom] at hs
      cases hs
      exact .refuse hpc (Nat.not_le.1 hroom)
  | data msg k =>
    simp only [hpc] at hs
    cases hs
    exact .data hpc rfl
  | publish msg xNextHead =>
    simp only [hpc] at hs
    cases hs
    exact .publish hpc
  | trigger =>
    simp only [hpc] at hs
    cases hs
    exact .trigger hpc
  | completed =>
    simp only [hpc] at hs
    by_cases hflag : s.buffer.xTaskWaitingToReceive = true
    · rw [if_pos hflag] at hs
      cases hs
      exact .notify hpc hflag
    · rw [if_neg hflag] at hs
      cases hs
      exact .nobody hpc (Bool.eq_false_of_not_eq_true hflag)

inductive ReceiverStep (s : SbState) : SbState → Prop where
  | empty {n : ℕ} (pc : s.receiver = .check n)
    (none : s.buffer.bytesInBuffer ≤ bytesToStoreMessageLength)
    (free : s.buffer.xTaskWaitingToReceive = false) :
    ReceiverStep s { s with
      receiverNotify := s.receiverNotify.clear
      buffer := { s.buffer with xTaskWaitingToReceive := true }
      receiver := .wait n }
  | found {n : ℕ} (pc : s.receiver = .check n ∨ s.receiver = .recheck n)
    (some : bytesToStoreMessageLength < s.buffer.bytesInBuffer) :
    ReceiverStep s { s with receiver := .length n s.buffer.bytesInBuffer }
  | wait {n : ℕ} (pc : s.receiver = .wait n) :
    ReceiverStep s { s with receiverNotify := s.receiverNotify.wait, receiver := .blocked n }
  | wake {n : ℕ} (pc : s.receiver = .blocked n) (notified : s.receiverNotify = .received) :
    ReceiverStep s { s with receiverNotify := .notWaiting, receiver := .unwait n }
  | unwait {n : ℕ} (pc : s.receiver = .unwait n) :
    ReceiverStep s { s with
      buffer := { s.buffer with xTaskWaitingToReceive := false }
      receiver := .recheck n }
  | fail {n : ℕ} (pc : s.receiver = .recheck n)
    (none : s.buffer.bytesInBuffer ≤ bytesToStoreMessageLength) :
    ReceiverStep s { s with receiver := .idle }
  | length {n xBytesAvailable : ℕ} (pc : s.receiver = .length n xBytesAvailable) {xTemp : List UInt8}
    {xNextTail xCount : ℕ}
    (copy : s.buffer.readBytes bytesToStoreMessageLength s.buffer.xTail = (xTemp, xNextTail))
    (count : xCount = min (if leNat xTemp > n then 0 else leNat xTemp)
      (xBytesAvailable - bytesToStoreMessageLength)) :
    ReceiverStep s { s with receiver := if xCount ≠ 0 then .data xCount xNextTail else .idle }
  | data {xCount k : ℕ} (pc : s.receiver = .data xCount k) {pvRxData : List UInt8} {xNextTail : ℕ}
    (copy : s.buffer.readBytes xCount k = (pvRxData, xNextTail)) :
    ReceiverStep s { s with receiver := .publish pvRxData xNextTail }
  | publish {pvRxData : List UInt8} {xNextTail : ℕ} (pc : s.receiver = .publish pvRxData xNextTail) :
    ReceiverStep s { s with
      buffer := { s.buffer with xTail := xNextTail }
      receiver := .completed
      received := s.received ++ [pvRxData] }
  | notify (pc : s.receiver = .completed) (waiting : s.buffer.xTaskWaitingToSend = true) :
    ReceiverStep s { s with
      senderNotify := .received
      buffer := { s.buffer with xTaskWaitingToSend := false }
      receiver := .idle }
  | nobody (pc : s.receiver = .completed) (waiting : s.buffer.xTaskWaitingToSend = false) :
    ReceiverStep s { s with receiver := .idle }

theorem sbReceiver_cases {s s' : SbState} (hs : sbReceiver s = some s') : ReceiverStep s s' := by
  unfold sbReceiver at hs
  cases hpc : s.receiver with
  | idle =>
    simp only [hpc] at hs
    cases hs
  | check n =>
    simp only [hpc] at hs
    by_cases hnone : s.buffer.bytesInBuffer ≤ bytesToStoreMessageLength
    · rw [if_pos hnone] at hs
      by_cases hflag : s.buffer.xTaskWaitingToReceive = true
      · rw [if_pos hflag] at hs
        cases hs
      · rw [if_neg hflag] at hs
        cases hs
        exact .empty hpc hnone (Bool.eq_false_of_not_eq_true hflag)
    · rw [if_neg hnone] at hs
      cases hs
      exact .found (.inl hpc) (Nat.not_le.1 hnone)
  | wait n =>
    simp only [hpc] at hs
    cases hs
    exact .wait hpc
  | blocked n =>
    simp only [hpc] at hs
    by_cases hnotified : s.receiverNotify = .received
    · rw [if_pos hnotified] at hs
      cases hs
      exact .wake hpc hnotified
    · rw [if_neg hnotified] at hs
      cases hs
  | unwait n =>
    simp only [hpc] at hs
    cases hs
    exact .unwait hpc
  | recheck n =>
    simp only [hpc] at hs
    by_cases hsome : s.buffer.bytesInBuffer > bytesToStoreMessageLength
    · rw [if_pos hsome] at hs
      cases hs
      exact .found (.inr hpc) hsome
    · rw [if_neg hsome] at hs
      cases hs
      exact .fail hpc (Nat.not_lt.1 hsome)
  | length n xBytesAvailable =>
    simp only [hpc] at hs
    cases hs
    exact .length hpc rfl rfl
  | data xCount k =>
    simp only [hpc] at hs
    cases hs
    exact .data hpc rfl
  | publish pvRxData xNextTail =>
    simp only [hpc] at hs
    cases hs
    exact .publish hpc
  | completed =>
    simp only [hpc] at hs
    by_cases hflag : s.buffer.xTaskWaitingToSend = true
    · rw [if_pos hflag] at hs
      cases hs
      exact .notify hpc hflag
    · rw [if_neg hflag] at hs
      cases hs
      exact .nobody hpc (Bool.eq_false_of_not_eq_true hflag)

/-! ## The ring -/

namespace StreamBuffer

variable {b : StreamBuffer}

section Counts

variable {n : ℕ} (htail : b.xTail < b.xLength) (hn : n < b.xLength)
  (hhead : b.xHead = (b.xTail + n) % b.xLength)
include htail hn hhead

theorem head_cases :
    b.xHead = b.xTail + n ∧ b.xTail + n < b.xLength ∨
      b.xHead + b.xLength = b.xTail + n ∧ b.xLength ≤ b.xTail + n := by
  by_cases hlt : b.xTail + n < b.xLength
  · exact .inl ⟨by rw [hhead, Nat.mod_eq_of_lt hlt], hlt⟩
  · refine .inr ⟨?_, by omega⟩
    rw [hhead, Nat.mod_eq_sub_mod (by omega), Nat.mod_eq_of_lt (by omega)]
    omega

/-- With `n` bytes in the ring, all but one of the other cells are free. -/
theorem spacesAvailable_eq : b.spacesAvailable = b.xLength - 1 - n := by
  have hcases := head_cases htail hn hhead
  unfold spacesAvailable
  simp only
  split <;> omega

theorem bytesInBuffer_eq : b.bytesInBuffer = n := by
  have hcases := head_cases htail hn hhead
  unfold bytesInBuffer
  simp only
  split <;> omega

end Counts

variable {k : ℕ} (hk : k < b.xLength)
include hk

theorem advance_eq {c : ℕ} (hc : c ≤ b.xLength) : b.advance k c = (k + c) % b.xLength := by
  unfold advance
  split
  · rw [Nat.mod_eq_sub_mod (by omega), Nat.mod_eq_of_lt (by omega)]
  · rw [Nat.mod_eq_of_lt (by omega)]

/-- The two copies are one store in the circular array. -/
theorem writeBytes_eq {pucData : List UInt8} (hlen : pucData.length ≤ b.xLength) :
    b.writeBytes pucData k =
      ({ b with pucBuffer := ringStore b.pucBuffer b.xLength k pucData }, (k + pucData.length) % b.xLength) := by
  unfold writeBytes
  simp only [advance_eq hk hlen, Prod.mk.injEq, and_true]
  congr 1
  by_cases hwrap : b.xLength - k < pucData.length
  · have hmin : min (b.xLength - k) pucData.length = b.xLength - k := by omega
    have htake : (pucData.take (b.xLength - k)).length = b.xLength - k := by
      rw [List.length_take]
      omega
    have hdrop : (pucData.drop (b.xLength - k)).length ≤ b.xLength := by
      rw [List.length_drop]
      omega
    rw [hmin, if_pos hwrap, store_eq_ringStore (N := b.xLength) (by omega),
      store_eq_ringStore (N := b.xLength) (by omega)]
    conv_rhs => rw [← List.take_append_drop (b.xLength - k) pucData]
    rw [ringStore_append, htake, ← ringStore_mod _ _ (k + (b.xLength - k)),
      show k + (b.xLength - k) = b.xLength by omega, Nat.mod_self]
  · have hmin : min (b.xLength - k) pucData.length = pucData.length := by omega
    rw [hmin, if_neg (Nat.lt_irrefl _), List.take_length, store_eq_ringStore (N := b.xLength) (by omega)]

/-- The two copies are one window of the circular array. -/
theorem readBytes_eq {c : ℕ} (hc : c ≤ b.xLength) :
    b.readBytes c k = (window b.pucBuffer b.xLength k c, (k + c) % b.xLength) := by
  unfold readBytes
  simp only [advance_eq hk hc, Prod.mk.injEq, and_true]
  by_cases hwrap : b.xLength - k < c
  · have hmin : min (b.xLength - k) c = b.xLength - k := by omega
    have hcount : c = b.xLength - k + (c - (b.xLength - k)) := by omega
    rw [hmin, if_pos hwrap]
    conv_rhs => rw [hcount, window_add, ← window_mod _ _ (k + (b.xLength - k)),
      show k + (b.xLength - k) = b.xLength by omega, Nat.mod_self, window_range (by omega),
      window_range (by omega)]
    simp only [Nat.zero_add]
  · have hmin : min (b.xLength - k) c = c := by omega
    rw [hmin, if_neg (Nat.lt_irrefl _), window_range (by omega)]

end StreamBuffer

/-! ## The invariant -/

abbrev frame4 (msg : List UInt8) : List UInt8 := frame bytesToStoreMessageLength msg

/-- The messages of the queue as the ring holds them. -/
abbrev wire4 (queue : List (List UInt8)) : List UInt8 := wire bytesToStoreMessageLength queue

/-- What the sender has copied and not published. -/
def SenderPc.written : SenderPc → List UInt8
  | .data msg _ => leBytes bytesToStoreMessageLength msg.length
  | .publish msg _ => frame4 msg
  | _ => []

/-- What each statement of the sender may assume; the ring holds `n` bytes from
the tail on. -/
def SenderPc.Ok (pc : SenderPc) (xTail xLength n : ℕ) : Prop :=
  match pc with
  | .idle | .check _ | .trigger | .completed => True
  | .wait _ xSpace | .blocked _ xSpace | .unwait _ xSpace | .checkTime _ xSpace | .space _ xSpace
  | .length _ xSpace => n + xSpace < xLength
  | .data msg xNextHead =>
    msg ≠ [] ∧ n + requiredSpace msg < xLength ∧
      xNextHead = (xTail + (n + bytesToStoreMessageLength)) % xLength
  | .publish msg xNextHead =>
    msg ≠ [] ∧ n + requiredSpace msg < xLength ∧ xNextHead = (xTail + (n + requiredSpace msg)) % xLength

/-- What each statement of the receiver may assume. -/
def ReceiverPc.Ok (pc : ReceiverPc) (xTail xLength : ℕ) (queue : List (List UInt8)) : Prop :=
  match pc with
  | .idle | .check _ | .wait _ | .blocked _ | .unwait _ | .recheck _ | .completed => True
  | .length _ xBytesAvailable => ∃ msg rest, queue = msg :: rest ∧ requiredSpace msg ≤ xBytesAvailable
  | .data xCount xNextTail => ∃ msg rest, queue = msg :: rest ∧ xCount = msg.length ∧
      xNextTail = (xTail + bytesToStoreMessageLength) % xLength
  | .publish pvRxData xNextTail => ∃ rest, queue = pvRxData :: rest ∧
      xNextTail = (xTail + requiredSpace pvRxData) % xLength

/-- The ring spells the messages of `queue`, which are those sent and not
received, and then what the sender has copied. No sum of two numbers of the
ring wraps. -/
structure SbInv (s : SbState) (queue : List (List UInt8)) : Prop where
  lengthLe : s.buffer.xLength ≤ 2 ^ 31
  tailLt : s.buffer.xTail < s.buffer.xLength
  room : (wire4 queue).length < s.buffer.xLength
  headEq : s.buffer.xHead = (s.buffer.xTail + (wire4 queue).length) % s.buffer.xLength
  bytesEq : window s.buffer.pucBuffer s.buffer.xLength s.buffer.xTail
    ((wire4 queue).length + s.sender.written.length) = wire4 queue ++ s.sender.written
  queued : ∀ msg ∈ queue, msg ≠ []
  sentEq : s.sent = s.received ++ queue
  senderOk : s.sender.Ok s.buffer.xTail s.buffer.xLength (wire4 queue).length
  receiverOk : s.receiver.Ok s.buffer.xTail s.buffer.xLength queue

theorem sbInit_inv {xBufferSizeBytes : ℕ} (hsize : xBufferSizeBytes < 2 ^ 31) (pucBuffer : ℕ → UInt8) :
    SbInv (sbInit xBufferSizeBytes pucBuffer) [] where
  lengthLe := hsize
  tailLt := Nat.succ_pos _
  room := Nat.succ_pos _
  headEq := (Nat.zero_mod _).symm
  bytesEq := rfl
  queued := nofun
  sentEq := rfl
  senderOk := trivial
  receiverOk := trivial

section Step

variable {s s' : SbState} {queue : List (List UInt8)} (h : SbInv s queue)
include h

theorem SbInv.headLt : s.buffer.xHead < s.buffer.xLength := by
  have hpos := h.tailLt
  rw [h.headEq]
  exact Nat.mod_lt _ (by omega)

theorem SbInv.spaces : s.buffer.spacesAvailable = s.buffer.xLength - 1 - (wire4 queue).length :=
  StreamBuffer.spacesAvailable_eq h.tailLt h.room h.headEq

theorem SbInv.bytes : s.buffer.bytesInBuffer = (wire4 queue).length :=
  StreamBuffer.bytesInBuffer_eq h.tailLt h.room h.headEq

theorem SbInv.free : (wire4 queue).length + s.buffer.spacesAvailable < s.buffer.xLength := by
  have hroom := h.room
  rw [h.spaces]
  omega

/-- The handles and the notifications say nothing about the ring. -/
theorem SbInv.signals (toReceive toSend : Bool) (senderNotify receiverNotify : NotifyState) :
    SbInv { s with
      buffer := { s.buffer with xTaskWaitingToReceive := toReceive, xTaskWaitingToSend := toSend }
      senderNotify := senderNotify
      receiverNotify := receiverNotify } queue :=
  ⟨h.lengthLe, h.tailLt, h.room, h.headEq, h.bytesEq, h.queued, h.sentEq, h.senderOk, h.receiverOk⟩

/-- A place of the sender with nothing copied. -/
theorem SbInv.setSender (pc : SenderPc) (hpc : s.sender.written = []) (hw : pc.written = [])
    (hok : pc.Ok s.buffer.xTail s.buffer.xLength (wire4 queue).length) :
    SbInv { s with sender := pc } queue :=
  { h with
    bytesEq := by
      have hbytes := h.bytesEq
      rw [hpc] at hbytes
      show window _ _ _ (_ + pc.written.length) = _ ++ pc.written
      rw [hw]
      exact hbytes
    senderOk := hok }

/-- Bytes copied behind those already there. -/
theorem SbInv.copies (pucData : List UInt8) {k : ℕ}
    (hk : k = (s.buffer.xTail + ((wire4 queue).length + s.sender.written.length)) % s.buffer.xLength)
    (hroom : (wire4 queue).length + s.sender.written.length + pucData.length < s.buffer.xLength) :
    s.buffer.writeBytes pucData k =
        ({ s.buffer with pucBuffer := ringStore s.buffer.pucBuffer s.buffer.xLength k pucData },
          (s.buffer.xTail + ((wire4 queue).length + s.sender.written.length + pucData.length)) %
            s.buffer.xLength) ∧
      window (ringStore s.buffer.pucBuffer s.buffer.xLength k pucData) s.buffer.xLength s.buffer.xTail
          ((wire4 queue).length + s.sender.written.length + pucData.length) =
        wire4 queue ++ s.sender.written ++ pucData := by
  have hlt : k < s.buffer.xLength := by
    rw [hk]
    exact Nat.mod_lt _ (by omega)
  constructor
  · rw [StreamBuffer.writeBytes_eq hlt (by omega), Prod.mk.injEq]
    refine ⟨rfl, ?_⟩
    rw [hk, Nat.mod_add_mod, Nat.add_assoc]
  · rw [hk, ringStore_mod, window_ringStore (by omega), h.bytesEq]

/-! ### The sender -/

theorem sbSend_inv {msg : List UInt8} {waits : Bool} (hs : sbSend s msg waits = some s') :
    SbInv s' queue := by
  unfold sbSend at hs
  split at hs
  · next hpc =>
    cases hs
    refine h.setSender _ (by rw [hpc]; rfl) (by split <;> rfl) ?_
    split
    · trivial
    · exact h.room
  · cases hs

theorem sbSendTimeout_inv (hs : sbSendTimeout s = some s') : SbInv s' queue := by
  have hok := h.senderOk
  unfold sbSendTimeout at hs
  split at hs
  · next msg xSpace hpc =>
    cases hs
    rw [hpc] at hok
    exact (h.signals _ _ .notWaiting _).setSender (.unwait msg xSpace) (by rw [hpc]; rfl) rfl hok
  · next msg xSpace hpc =>
    cases hs
    rw [hpc] at hok
    exact h.setSender _ (by rw [hpc]; rfl) rfl hok
  · cases hs

section Copy

variable {msg : List UInt8} {buffer : StreamBuffer} {k xNextHead : ℕ}

/-- The length is copied behind the queue. -/
theorem SbInv.copyLength {xSpace : ℕ} (hpc : s.sender = .length msg xSpace)
    (hroom : requiredSpace msg ≤ xSpace)
    (hcopy : s.buffer.writeBytes (leBytes bytesToStoreMessageLength msg.length) s.buffer.xHead =
      (buffer, xNextHead)) :
    SbInv { s with buffer := buffer, sender := if msg.length ≠ 0 then .data msg xNextHead else .idle }
      queue := by
  have hspace := h.senderOk
  rw [hpc] at hspace
  have hspace : (wire4 queue).length + xSpace < s.buffer.xLength := hspace
  have hwritten : s.sender.written = [] := by rw [hpc]; rfl
  have hlen : (leBytes bytesToStoreMessageLength msg.length).length = bytesToStoreMessageLength :=
    length_leBytes _ _
  obtain ⟨hwrite, hwindow⟩ := h.copies
    (leBytes bytesToStoreMessageLength msg.length) (k := s.buffer.xHead)
    (by rw [hwritten]; exact h.headEq)
    (by rw [hwritten, hlen]; simp only [requiredSpace] at hroom; simp only [List.length_nil]; omega)
  rw [hwritten, List.append_nil, List.length_nil, Nat.add_zero] at hwindow
  rw [hwritten, List.length_nil, Nat.add_zero, hlen] at hwrite
  obtain ⟨rfl, rfl⟩ := Prod.mk.inj (hwrite.symm.trans hcopy)
  by_cases hempty : msg.length ≠ 0
  · rw [if_pos hempty]
    exact { h with
      bytesEq := hwindow
      senderOk := ⟨List.length_pos_iff.1 (Nat.pos_of_ne_zero hempty),
        by show _ + requiredSpace msg < s.buffer.xLength; omega, rfl⟩ }
  · rw [if_neg hempty]
    exact { h with
      bytesEq := by
        show window _ _ _ (_ + 0) = _ ++ []
        rw [List.append_nil]
        exact window_left hwindow rfl
      senderOk := trivial }

/-- The message is copied behind its length. -/
theorem SbInv.copyData (hpc : s.sender = .data msg k)
    (hcopy : s.buffer.writeBytes msg k = (buffer, xNextHead)) :
    SbInv { s with buffer := buffer, sender := .publish msg xNextHead } queue := by
  have hok := h.senderOk
  rw [hpc] at hok
  obtain ⟨hmsg, hroom, hnext⟩ := hok
  have hwritten : s.sender.written = leBytes bytesToStoreMessageLength msg.length := by rw [hpc]; rfl
  have hlen : (leBytes bytesToStoreMessageLength msg.length).length = bytesToStoreMessageLength :=
    length_leBytes _ _
  have hspace : (wire4 queue).length + bytesToStoreMessageLength + msg.length =
      (wire4 queue).length + requiredSpace msg := by
    unfold requiredSpace
    omega
  obtain ⟨hwrite, hwindow⟩ := h.copies msg (k := k)
    (by rw [hwritten, hlen]; exact hnext) (by rw [hwritten, hlen, hspace]; exact hroom)
  rw [hwritten, hlen] at hwrite hwindow
  obtain ⟨rfl, rfl⟩ := Prod.mk.inj (hwrite.symm.trans hcopy)
  refine { h with bytesEq := ?_, senderOk := ⟨hmsg, hroom, by rw [hspace]⟩ }
  show window (ringStore s.buffer.pucBuffer s.buffer.xLength k msg) s.buffer.xLength
    s.buffer.xTail ((wire4 queue).length + (frame4 msg).length) = wire4 queue ++ frame4 msg
  rw [length_frame, ← Nat.add_assoc, hwindow, List.append_assoc]
  rfl

omit h in
theorem ReceiverPc.Ok.snoc {pc : ReceiverPc} {xTail xLength : ℕ} (h : pc.Ok xTail xLength queue)
    (msg : List UInt8) : pc.Ok xTail xLength (queue ++ [msg]) := by
  cases pc with
  | idle | check | wait | blocked | unwait | recheck | completed => trivial
  | length n xBytesAvailable =>
    obtain ⟨m, rest, rfl, hle⟩ := h
    exact ⟨m, rest ++ [msg], rfl, hle⟩
  | data xCount xNextTail =>
    obtain ⟨m, rest, rfl, hcount⟩ := h
    exact ⟨m, rest ++ [msg], rfl, hcount⟩
  | publish pvRxData xNextTail =>
    obtain ⟨rest, rfl, hnext⟩ := h
    exact ⟨rest ++ [msg], rfl, hnext⟩

/-- The store of `xHead` adds the message to the queue. -/
theorem SbInv.publishHead (hpc : s.sender = .publish msg xNextHead) :
    SbInv { s with
      buffer := { s.buffer with xHead := xNextHead }
      sender := .trigger
      sent := s.sent ++ [msg] } (queue ++ [msg]) := by
  have hok := h.senderOk
  rw [hpc] at hok
  obtain ⟨hmsg, hroom, hnext⟩ := hok
  have hbytes := h.bytesEq
  simp only [hpc, SenderPc.written] at hbytes
  have hwire : wire4 (queue ++ [msg]) = wire4 queue ++ frame4 msg := wire_snoc _ _ _
  have hlen : (wire4 (queue ++ [msg])).length = (wire4 queue).length + (frame4 msg).length := by
    rw [hwire, List.length_append]
  have hframe : (frame4 msg).length = requiredSpace msg := by
    rw [length_frame, requiredSpace, Nat.add_comm]
  exact
    { lengthLe := h.lengthLe
      tailLt := h.tailLt
      room := by rw [hlen, hframe]; exact hroom
      headEq := by rw [hlen, hframe]; exact hnext
      bytesEq := by
        show window s.buffer.pucBuffer s.buffer.xLength s.buffer.xTail
          ((wire4 (queue ++ [msg])).length + 0) = wire4 (queue ++ [msg]) ++ []
        rw [List.append_nil, Nat.add_zero, hlen, hwire, hbytes]
      queued := fun m hm => by
        rcases List.mem_append.1 hm with hm | hm
        · exact h.queued m hm
        · rw [List.mem_singleton.1 hm]
          exact hmsg
      sentEq := by
        show s.sent ++ [msg] = s.received ++ (queue ++ [msg])
        rw [h.sentEq, List.append_assoc]
      senderOk := trivial
      receiverOk := h.receiverOk.snoc msg }

end Copy

/-- The queue after a statement of the sender. -/
def SenderPc.queueAfter (pc : SenderPc) (queue : List (List UInt8)) : List (List UInt8) :=
  match pc with
  | .publish msg _ => queue ++ [msg]
  | _ => queue

theorem sbSender_inv (hs : SenderStep s s') : SbInv s' (s.sender.queueAfter queue) := by
  have hok := h.senderOk
  cases hs with
  | full hpc =>
    rw [hpc]
    exact (h.signals _ true _ _).setSender _ (by rw [hpc]; rfl) rfl h.free
  | enough hpc =>
    rw [hpc]
    exact h.setSender _ (by rw [hpc]; rfl) rfl h.free
  | wait hpc =>
    rw [hpc] at hok ⊢
    exact (h.signals _ _ s.senderNotify.wait _).setSender (.blocked _ _) (by rw [hpc]; rfl) rfl hok
  | wake hpc =>
    rw [hpc] at hok ⊢
    exact (h.signals _ _ .notWaiting _).setSender (.unwait _ _) (by rw [hpc]; rfl) rfl hok
  | unwait hpc =>
    rw [hpc] at hok ⊢
    exact (h.signals _ false _ _).setSender _ (by rw [hpc]; rfl) rfl hok
  | again hpc =>
    rw [hpc]
    exact h.setSender _ (by rw [hpc]; rfl) rfl trivial
  | space hpc =>
    rw [hpc] at hok ⊢
    refine h.setSender _ (by rw [hpc]; rfl) rfl ?_
    show _ + _ < _
    split
    · exact h.free
    · exact hok
  | refuse hpc =>
    rw [hpc]
    exact h.setSender _ (by rw [hpc]; rfl) rfl trivial
  | length hpc hroom hcopy =>
    rw [hpc]
    exact h.copyLength hpc hroom hcopy
  | data hpc hcopy =>
    rw [hpc]
    exact h.copyData hpc hcopy
  | publish hpc =>
    rw [hpc]
    exact h.publishHead hpc
  | trigger hpc =>
    rw [hpc]
    refine h.setSender _ (by rw [hpc]; rfl) (by split <;> rfl) ?_
    split <;> trivial
  | notify hpc =>
    rw [hpc]
    exact (h.signals false _ _ _).setSender _ (by rw [hpc]; rfl) rfl trivial
  | nobody hpc =>
    rw [hpc]
    exact h.setSender _ (by rw [hpc]; rfl) rfl trivial

/-! ### The receiver -/

/-- A place of the receiver. -/
theorem SbInv.setReceiver (pc : ReceiverPc) (hok : pc.Ok s.buffer.xTail s.buffer.xLength queue) :
    SbInv { s with receiver := pc } queue :=
  { h with receiverOk := hok }

theorem sbReceive_inv {n : ℕ} {waits : Bool} (hs : sbReceive s n waits = some s') : SbInv s' queue := by
  unfold sbReceive at hs
  split at hs
  · cases hs
    refine h.setReceiver _ ?_
    split <;> trivial
  · cases hs

theorem sbReceiveTimeout_inv (hs : sbReceiveTimeout s = some s') : SbInv s' queue := by
  unfold sbReceiveTimeout at hs
  split at hs
  · cases hs
    exact (h.signals _ _ _ .notWaiting).setReceiver _ trivial
  · cases hs

section Head

variable {msg : List UInt8} {rest : List (List UInt8)} (hq : queue = msg :: rest)
include hq

omit h in
theorem length_wire_head : (wire4 queue).length = requiredSpace msg + (wire4 rest).length := by
  rw [hq, wire4, wire_cons, List.length_append, length_frame, requiredSpace, Nat.add_comm msg.length]

/-- The first message of the queue, as the receiver finds it at the tail. -/
theorem SbInv.at_tail :
    window s.buffer.pucBuffer s.buffer.xLength s.buffer.xTail bytesToStoreMessageLength =
        leBytes bytesToStoreMessageLength msg.length ∧
      window s.buffer.pucBuffer s.buffer.xLength (s.buffer.xTail + bytesToStoreMessageLength) msg.length =
        msg ∧
      window s.buffer.pucBuffer s.buffer.xLength (s.buffer.xTail + requiredSpace msg)
          ((wire4 rest).length + s.sender.written.length) = wire4 rest ++ s.sender.written := by
  have hbytes := h.bytesEq
  have hframe : (frame4 msg).length = requiredSpace msg := by
    rw [length_frame, requiredSpace, Nat.add_comm]
  have hle : (leBytes bytesToStoreMessageLength msg.length).length = bytesToStoreMessageLength :=
    length_leBytes _ _
  have hcons : wire4 (msg :: rest) = frame4 msg ++ wire4 rest := wire_cons _ _ _
  rw [length_wire_head hq, hq, hcons, List.append_assoc, Nat.add_assoc] at hbytes
  have hfirst := window_left hbytes hframe
  rw [frame4, frame, requiredSpace, Nat.add_comm msg.length] at hfirst
  exact ⟨window_left hfirst hle, window_right hfirst hle, window_right hbytes hframe⟩

theorem SbInv.required_lt : requiredSpace msg < s.buffer.xLength := by
  have hroom := h.room
  rw [length_wire_head hq] at hroom
  omega

/-- The length is read back. -/
theorem SbInv.readLength {xTemp : List UInt8} {xNextTail : ℕ}
    (hcopy : s.buffer.readBytes bytesToStoreMessageLength s.buffer.xTail = (xTemp, xNextTail)) :
    leNat xTemp = msg.length ∧ xNextTail = (s.buffer.xTail + bytesToStoreMessageLength) % s.buffer.xLength := by
  have hreq := h.required_lt hq
  have hle := h.lengthLe
  unfold requiredSpace at hreq
  rw [StreamBuffer.readBytes_eq h.tailLt (by omega), (h.at_tail hq).1] at hcopy
  obtain ⟨rfl, rfl⟩ := Prod.mk.inj hcopy
  exact ⟨leNat_leBytes (by unfold bytesToStoreMessageLength; omega), rfl⟩

/-- The message is read back. -/
theorem SbInv.readData {pvRxData : List UInt8} {k xNextTail : ℕ}
    (hk : k = (s.buffer.xTail + bytesToStoreMessageLength) % s.buffer.xLength)
    (hcopy : s.buffer.readBytes msg.length k = (pvRxData, xNextTail)) :
    pvRxData = msg ∧ xNextTail = (s.buffer.xTail + requiredSpace msg) % s.buffer.xLength := by
  have hreq := h.required_lt hq
  have hlt : k < s.buffer.xLength := by
    rw [hk]
    exact Nat.mod_lt _ (by omega)
  unfold requiredSpace at hreq ⊢
  rw [StreamBuffer.readBytes_eq hlt (by omega), hk, window_mod, (h.at_tail hq).2.1, Nat.mod_add_mod,
    Nat.add_assoc, Nat.add_comm bytesToStoreMessageLength] at hcopy
  obtain ⟨rfl, rfl⟩ := Prod.mk.inj hcopy
  exact ⟨rfl, rfl⟩

end Head

/-- Bytes in the ring are those of a first message. -/
theorem SbInv.found (hsome : bytesToStoreMessageLength < s.buffer.bytesInBuffer) :
    ∃ msg rest, queue = msg :: rest ∧ requiredSpace msg ≤ s.buffer.bytesInBuffer := by
  rw [h.bytes] at hsome ⊢
  cases hq : queue with
  | nil =>
    rw [hq] at hsome
    exact absurd hsome (Nat.not_lt_zero _)
  | cons msg rest =>
    refine ⟨msg, rest, rfl, ?_⟩
    rw [length_wire_head rfl]
    exact Nat.le_add_right _ _

/-- Every message has more bytes than its length takes. -/
theorem SbInv.drained (hnone : s.buffer.bytesInBuffer ≤ bytesToStoreMessageLength) : queue = [] := by
  by_contra hne
  obtain ⟨msg, rest, hq⟩ := List.exists_cons_of_ne_nil hne
  have hpos := List.length_pos_iff.2 (h.queued msg (hq ▸ List.mem_cons_self))
  rw [h.bytes, length_wire_head hq, requiredSpace] at hnone
  omega

omit h in
/-- The sender's numbers do not depend on where the tail is. -/
theorem SenderPc.Ok.free {pc : SenderPc} {xTail xLength m n : ℕ} (h : pc.Ok xTail xLength (m + n)) :
    pc.Ok ((xTail + m) % xLength) xLength n := by
  have hmove : ∀ k, (xTail + (m + n + k)) % xLength = ((xTail + m) % xLength + (n + k)) % xLength :=
    fun k => by
      rw [Nat.mod_add_mod]
      congr 1
      omega
  cases pc with
  | idle | check | trigger | completed => trivial
  | wait msg xSpace | blocked msg xSpace | unwait msg xSpace | checkTime msg xSpace | space msg xSpace
  | length msg xSpace =>
    have hlt : m + n + xSpace < xLength := h
    show n + xSpace < xLength
    omega
  | data msg xNextHead | publish msg xNextHead =>
    obtain ⟨hmsg, hroom, hnext⟩ := h
    exact ⟨hmsg, by omega, hnext.trans (hmove _)⟩

/-- The store of `xTail` takes the message off the queue. -/
theorem SbInv.publishTail {pvRxData : List UInt8} {xNextTail : ℕ}
    (hpc : s.receiver = .publish pvRxData xNextTail) :
    ∃ rest, queue = pvRxData :: rest ∧
      SbInv { s with
        buffer := { s.buffer with xTail := xNextTail }
        receiver := .completed
        received := s.received ++ [pvRxData] } rest := by
  have hok := h.receiverOk
  rw [hpc] at hok
  obtain ⟨rest, hq, hnext⟩ := hok
  have hlen := length_wire_head hq
  refine ⟨rest, hq, ?_⟩
  exact
    { lengthLe := h.lengthLe
      tailLt := by
        have hpos := h.tailLt
        show xNextTail < s.buffer.xLength
        rw [hnext]
        exact Nat.mod_lt _ (by omega)
      room := by
        have hroom := h.room
        show _ < s.buffer.xLength
        omega
      headEq := by
        show s.buffer.xHead = (xNextTail + _) % s.buffer.xLength
        rw [h.headEq, hnext, Nat.mod_add_mod, hlen, Nat.add_assoc]
      bytesEq := by
        show window s.buffer.pucBuffer s.buffer.xLength xNextTail _ = _
        rw [hnext, window_mod]
        exact (h.at_tail hq).2.2
      queued := fun m hm => h.queued m (hq ▸ List.mem_cons_of_mem _ hm)
      sentEq := by
        show s.sent = s.received ++ [pvRxData] ++ rest
        rw [h.sentEq, hq, List.append_assoc]
        rfl
      senderOk := by
        have h.signalser := h.senderOk
        rw [hlen] at h.signalser
        have hfree := h.signalser.free
        rw [← hnext] at hfree
        exact hfree
      receiverOk := trivial }

/-- The queue after a statement of the receiver. -/
def ReceiverPc.queueAfter (pc : ReceiverPc) (queue : List (List UInt8)) : List (List UInt8) :=
  match pc with
  | .publish _ _ => queue.tail
  | _ => queue

theorem sbReceiver_inv (hs : ReceiverStep s s') : SbInv s' (s.receiver.queueAfter queue) := by
  have hok := h.receiverOk
  cases hs with
  | empty hpc =>
    rw [hpc]
    exact (h.signals true _ _ _).setReceiver _ trivial
  | found hpc hsome =>
    rcases hpc with hpc | hpc
    all_goals
      rw [hpc]
      exact h.setReceiver _ (h.found hsome)
  | wait hpc =>
    rw [hpc]
    exact (h.signals _ _ _ s.receiverNotify.wait).setReceiver (.blocked _) trivial
  | wake hpc =>
    rw [hpc]
    exact (h.signals _ _ _ .notWaiting).setReceiver (.unwait _) trivial
  | unwait hpc =>
    rw [hpc]
    exact (h.signals false _ _ _).setReceiver _ trivial
  | fail hpc =>
    rw [hpc]
    exact h.setReceiver _ trivial
  | length hpc hcopy hcount =>
    rw [hpc] at hok ⊢
    obtain ⟨msg, rest, hq, havail⟩ := hok
    obtain ⟨hlen, hnext⟩ := h.readLength hq hcopy
    refine h.setReceiver _ ?_
    split
    · next hne =>
      refine ⟨msg, rest, hq, ?_, hnext⟩
      rw [hlen] at hcount
      unfold requiredSpace at havail
      split at hcount <;> omega
    · trivial
  | data hpc hcopy =>
    rw [hpc] at hok ⊢
    obtain ⟨msg, rest, hq, rfl, hk⟩ := hok
    obtain ⟨rfl, hnext⟩ := h.readData hq hk hcopy
    exact h.setReceiver _ ⟨rest, hq, hnext⟩
  | publish hpc =>
    rw [hpc]
    obtain ⟨rest, rfl, h'⟩ := h.publishTail hpc
    exact h'
  | notify hpc =>
    rw [hpc]
    exact (h.signals _ false _ _).setReceiver _ trivial
  | nobody hpc =>
    rw [hpc]
    exact h.setReceiver _ trivial

end Step

/-! ## Runs -/

/-- The queue after an action. -/
def SbAct.queueAfter (s : SbState) (queue : List (List UInt8)) : SbAct → List (List UInt8)
  | .sender => s.sender.queueAfter queue
  | .receiver => s.receiver.queueAfter queue
  | .send .. | .receive .. | .sendTimeout | .receiveTimeout => queue

theorem sbStep_inv {s s' : SbState} {queue : List (List UInt8)} (h : SbInv s queue) {a : SbAct}
    (hs : sbStep s a = some s') : SbInv s' (a.queueAfter s queue) := by
  cases a with
  | send msg waits => exact sbSend_inv h hs
  | receive n waits => exact sbReceive_inv h hs
  | sender => exact sbSender_inv h (sbSender_cases hs)
  | receiver => exact sbReceiver_inv h (sbReceiver_cases hs)
  | sendTimeout => exact sbSendTimeout_inv h hs
  | receiveTimeout => exact sbReceiveTimeout_inv h hs

/-- Nothing changes the size of the ring. -/
theorem sbStep_xLength {s s' : SbState} {a : SbAct} (hs : sbStep s a = some s') :
    s'.buffer.xLength = s.buffer.xLength := by
  have hcopy : ∀ {pucData k buffer xNextHead}, s.buffer.writeBytes pucData k = (buffer, xNextHead) →
      buffer.xLength = s.buffer.xLength := by
    intro pucData k buffer xNextHead hcopy
    rw [← (Prod.mk.inj hcopy).1]
  cases a with
  | sender =>
    cases sbSender_cases hs with
    | length _ _ hwrite => exact hcopy hwrite
    | data _ hwrite => exact hcopy hwrite
    | full | enough | wait | wake | unwait | again | space | refuse | publish | trigger | notify
    | nobody => rfl
  | receiver => cases sbReceiver_cases hs <;> rfl
  | send msg waits =>
    simp only [sbStep, sbSend] at hs
    split at hs <;> cases hs
    rfl
  | receive n waits =>
    simp only [sbStep, sbReceive] at hs
    split at hs <;> cases hs
    rfl
  | sendTimeout =>
    simp only [sbStep, sbSendTimeout] at hs
    split at hs <;> cases hs <;> rfl
  | receiveTimeout =>
    simp only [sbStep, sbReceiveTimeout] at hs
    split at hs <;> cases hs
    rfl

/-- **Messages stay whole**: however the statements of a sender and a receiver
interleave, and whatever time-outs and buffers too small for the next message
there are, the messages received are the first ones sent, each of them whole;
the others are what the two counts of the ring say, and never more than the
size the buffer was made for. -/
theorem messages_whole (xBufferSizeBytes : ℕ) (hsize : xBufferSizeBytes < 2 ^ 31)
    (pucBuffer : ℕ → UInt8) (acts : List SbAct) (s : SbState)
    (hrun : exec sbStep (sbInit xBufferSizeBytes pucBuffer) acts = some s) :
    ∃ queue, s.sent = s.received ++ queue ∧
      s.buffer.bytesInBuffer = (queue.map fun msg => msg.length + 4).sum ∧
      s.buffer.bytesInBuffer + s.buffer.spacesAvailable = xBufferSizeBytes := by
  obtain ⟨queue, h⟩ := exec_inv_all (I := fun s => ∃ queue, SbInv s queue)
    (fun _ _ _ ⟨_, h⟩ hs => ⟨_, sbStep_inv h hs⟩) ⟨[], sbInit_inv hsize pucBuffer⟩ hrun
  have hlen := exec_inv_all (I := fun s => s.buffer.xLength = xBufferSizeBytes + 1)
    (fun _ _ _ h hs => (sbStep_xLength hs).trans h) rfl hrun
  have hroom := h.room
  refine ⟨queue, h.sentEq, h.bytes.trans (length_wire _ _), ?_⟩
  rw [h.bytes, h.spaces]
  omega

/-- A message of two bytes; the receiver looks at the ring while it is copied. -/
theorem messages_whole_two :
    ∃ s, exec sbStep (sbInit 4096 fun _ => 0)
        [.send [1, 2] true, .sender, .sender, .sender, .receive 255 true, .receiver, .sender, .sender,
          .receiver] = some s ∧
      ∃ queue, s.sent = s.received ++ queue ∧
        s.buffer.bytesInBuffer = (queue.map fun msg => msg.length + 4).sum ∧
        s.buffer.bytesInBuffer + s.buffer.spacesAvailable = 4096 :=
  ⟨_, rfl, messages_whole 4096 (by decide) (fun _ => 0)
    [.send [1, 2] true, .sender, .sender, .sender, .receive 255 true, .receiver, .sender, .sender,
      .receiver] _ rfl⟩

end Stm32Handler.Rtos
