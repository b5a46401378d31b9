import Stm32Handler.Lib.I2cBus

/-!
# The software I2C

The pin-level functions of `drv_soft_i2c.c` on a bus, and what each of them
does there: a START, a byte out and its acknowledge, a byte in and its
acknowledge, a STOP. Between the calls SCL is low; before a START and after a
STOP the bus is idle (`Idle`).
-/

namespace Stm32Handler.I2c

inductive I2cStatus where
  | ok
  | error
  deriving DecidableEq

variable {σ : Type*} (D : I2cDevice σ)

/-- `I2C_SDA_INPUT` -/
def i2cSdaInput (b : I2cBus σ) : Bool := b.line.sda

def i2cSdaConfigIn (b : I2cBus σ) : I2cBus σ := b.setSdaIn D true

def i2cSdaConfigOut (b : I2cBus σ) : I2cBus σ := b.setSdaIn D false

/-- The loops that wait while SDA is at `level`; `wait_time` is `10000 - n`. -/
def waitSda (level : Bool) : ℕ → I2cBus σ → I2cStatus
  | 0, b => if i2cSdaInput b = level then .error else .ok
  | n + 1, b => if i2cSdaInput b = level then waitSda level n b else .ok

def i2cIdleCheck (b : I2cBus σ) : I2cStatus × I2cBus σ :=
  let b := i2cSdaConfigIn D b
  (waitSda false 10000 b, b)

def i2cStart (b : I2cBus σ) : I2cBus σ :=
  let b := i2cSdaConfigOut D b
  let b := b.setSda D true
  let b := b.setScl D true
  let b := b.setSda D false
  b.setScl D false

/-- The loop of `i2c_send_byte` with `n` bits to go. -/
def sendBits : ℕ → Byte → I2cBus σ → I2cBus σ
  | 0, _, b => b
  | n + 1, byte, b =>
    let b := if byte &&& 0x80 ≠ 0 then b.setSda D true else b.setSda D false
    let b := b.setScl D true
    let b := b.setScl D false
    sendBits n (byte <<< 1) b

def i2cSendByte (byte : Byte) (b : I2cBus σ) : I2cBus σ :=
  let b := i2cSdaConfigOut D b
  sendBits D 8 byte b

def i2cSendAck (b : I2cBus σ) : I2cBus σ :=
  let b := i2cSdaConfigOut D b
  let b := b.setSda D false
  let b := b.setScl D true
  b.setScl D false

def i2cSendNack (b : I2cBus σ) : I2cBus σ :=
  let b := i2cSdaConfigOut D b
  let b := b.setSda D true
  let b := b.setScl D true
  b.setScl D false

/-- The loop of `i2c_read_byte`; with `n + 1` bits to go `index` is `7 - n`. -/
def readBits : ℕ → Byte → I2cBus σ → Byte × I2cBus σ
  | 0, value, b => (value, b)
  | n + 1, value, b =>
    let b := b.setScl D true
    let value := value ||| (BitVec.ofBool (i2cSdaInput b)).zeroExtend 8
    let value := if 7 - n < 7 then value <<< 1 else value
    let b := b.setScl D false
    readBits n value b

def i2cReadByte (ackStatus : Bool) (b : I2cBus σ) : Byte × I2cBus σ :=
  let b := i2cSdaConfigIn D b
  let (value, b) := readBits D 8 0 b
  (value, if !ackStatus then i2cSendNack D b else i2cSendAck D b)

def i2cWaitAck (b : I2cBus σ) : I2cStatus × I2cBus σ :=
  let b := i2cSdaConfigIn D b
  match waitSda true 10000 b with
  | .error => (.error, b)
  | .ok =>
    let b := b.setScl D true
    (.ok, b.setScl D false)

def i2cStop (b : I2cBus σ) : I2cBus σ :=
  let b := i2cSdaConfigOut D b
  let b := b.setSda D false
  let b := b.setScl D true
  b.setSda D true

/-- A byte out, with the exit every function has if it is not acknowledged. -/
def sendAcked (byte : Byte) (b : I2cBus σ) : I2cStatus × I2cBus σ :=
  match i2cWaitAck D (i2cSendByte D byte b) with
  | (.error, b) => (.error, i2cStop D b)
  | (.ok, b) => (.ok, b)

/-- `if(..) return`: what follows runs unless the step before has failed. -/
def andThen {α : Type*} (r : I2cStatus × I2cBus σ) (refused : α) (k : I2cBus σ → α × I2cBus σ) :
    α × I2cBus σ :=
  match r with
  | (.error, b) => (refused, b)
  | (.ok, b) => k b

/-- The loops that send, with `n` bytes to go. -/
def sendLoop (byte : ℕ → Byte) : ℕ → ℕ → I2cBus σ → I2cStatus × I2cBus σ
  | _, 0, b => (.ok, b)
  | index, n + 1, b => andThen (sendAcked D (byte index) b) .error (sendLoop byte (index + 1) n)

/-- The loops that read, with `n` bytes to go. -/
def readLoop (size : ℕ) : ℕ → ℕ → Buf → I2cBus σ → Buf × I2cBus σ
  | _, 0, rdata, b => (rdata, b)
  | index, n + 1, rdata, b =>
    let (value, b) := if index ≠ size - 1 then i2cReadByte D true b else i2cReadByte D false b
    readLoop size (index + 1) n (Function.update rdata index value) b

/-- Byte `index` of the memory address, high byte first. -/
def memByte (memAddr : BitVec 32) (memSize : Byte) (index : ℕ) : Byte :=
  ((memAddr >>> ((memSize.toNat - index - 1) * 8)) &&& 0xff).truncate 8

/-! ### The idle bus -/

/-- Both lines are high and the slave waits for a START. -/
structure Idle (b : I2cBus σ) (dev : σ) (events : List BusEvent) : Prop where
  high : b.High ⟨.idle, none, true, dev⟩ ⟨[], events⟩
  sdaOut : b.sdaOut = true

section Lemmas

variable {D} {b : I2cBus σ} {s : I2cSlave σ} {dev : σ} {events : List BusEvent}

theorem Idle.line (h : Idle b dev events) : b.line = ⟨true, true⟩ := by
  rw [h.high.line, h.sdaOut, Bool.or_true]
  rfl

theorem waitSda_eq (level : Bool) (n : ℕ) (b : I2cBus σ) :
    waitSda level n b = if i2cSdaInput b = level then .error else .ok := by
  induction n with
  | zero => rfl
  | succ n ih =>
    rw [waitSda, ih]
    split <;> rfl

/-- The direction of the pin makes no difference while it drives high. -/
theorem Idle.setSdaIn (h : Idle b dev events) (v : Bool) : Idle (b.setSdaIn D v) dev events := by
  refine ⟨h.high.setSdaIn ?_, h.sdaOut⟩
  rw [h.line, h.sdaOut, Bool.or_true]
  rfl

theorem i2cIdleCheck_idle (h : Idle b dev events) :
    (i2cIdleCheck D b).1 = .ok ∧ Idle (i2cIdleCheck D b).2 dev events := by
  have hin : Idle (b.setSdaIn D true) dev events := h.setSdaIn true
  refine ⟨?_, hin⟩
  show waitSda false 10000 (b.setSdaIn D true) = .ok
  rw [waitSda_eq, i2cSdaInput, hin.line]
  rfl

/-! ### START and STOP -/

theorem i2cStart_idle (h : Idle b dev events) :
    (i2cStart D b).Low ⟨.recv true [], none, true, D.start dev⟩ ⟨[], events ++ [.start]⟩ := by
  have hout : Idle (b.setSdaIn D false) dev events := h.setSdaIn false
  have hhigh : ((b.setSdaIn D false).setSda D true).High ⟨.idle, none, true, dev⟩ ⟨[], events⟩ :=
    hout.high.setSda (by rw [hout.line]; rfl)
  have hscl := hhigh.setScl (D := D)
  exact (hscl.start (by rw [hscl.line]; rfl) rfl).fall

/-- A START in the middle of a transfer. -/
theorem i2cStart_low (h : b.Low s ⟨[], events⟩) (hsda : s.sda = true) :
    (i2cStart D b).Low ⟨.recv true [], none, true, D.start s.dev⟩ ⟨[], events ++ [.start]⟩ := by
  have hlow : ((b.setSdaIn D false).setSda D true).Low s ⟨[], events⟩ :=
    (h.setSdaIn false).setSda true
  obtain ⟨hhigh, hline⟩ := hlow.rise (D := D)
  have hone : ((b.setSdaIn D false).setSda D true).line.sda = true := by
    rw [hlow.line, hsda]
    rfl
  rw [hone] at hhigh hline
  exact (hhigh.start (by rw [hline]) rfl).fall

/-- A STOP after whole bytes, the last of them acknowledged or not. -/
theorem i2cStop_low {log : I2cLog} (h : b.Low s log) (hsda : s.sda = true)
    (hwhole : log.bits.length = 0 ∨ log.bits.length = 8) :
    Idle (i2cStop D b) (D.stop s.dev) (log.events ++ [.stop]) := by
  have hlow : ((b.setSdaIn D false).setSda D false).Low s log := (h.setSdaIn false).setSda false
  have hstop := (hlow.rise (D := D)).1.stop (D := D) rfl rfl hsda
  rw [I2cLog.frame, if_pos hwhole] at hstop
  exact ⟨hstop, rfl⟩

/-! ### A byte out -/

theorem sendBits_succ (n : ℕ) (byte : Byte) (b : I2cBus σ) :
    sendBits D (n + 1) byte b =
      sendBits D n (byte <<< 1)
        (((b.setSda D (byte.getLsbD 7)).setScl D true).setScl D false) := by
  rw [sendBits]
  by_cases h : byte.getLsbD 7 = true
  · rw [if_pos ((and_top_ne_zero byte).2 h), h]
  · rw [if_neg (mt (and_top_ne_zero byte).1 h), Bool.eq_false_iff.2 h]

/-- One round: the slave and the listener have one bit more. -/
theorem sendBit_low {log : I2cLog} (h : b.Low s log) (hsda : s.sda = true) (hinp : b.sdaIn = false)
    (bit : Bool) :
    (((b.setSda D bit).setScl D true).setScl D false).Low (s.clock D bit) (log.commit bit) := by
  have hlow : (b.setSda D bit).Low s log := h.setSda bit
  have hbit : (b.setSda D bit).line.sda = bit := by
    rw [hlow.line, hsda, I2cBus.setSda_sdaIn, I2cBus.setSda_sdaOut, hinp]
    cases bit <;> rfl
  have hpulse := hlow.pulse (D := D)
  rwa [hbit] at hpulse

theorem sendBits_low {addr : Bool} {bits : List Bool} (n : ℕ) (byte : Byte)
    (hlen : bits.length + (n + 1) = 8)
    (h : b.Low ⟨.recv addr bits, none, true, dev⟩ ⟨bits, events⟩) (hinp : b.sdaIn = false) :
    (sendBits D (n + 1) byte b).Low
      (I2cSlave.answer D addr (bitsToByte (bits ++ topBits (n + 1) byte)) dev)
      ⟨bits ++ topBits (n + 1) byte, events ++ [.byte (bitsToByte (bits ++ topBits (n + 1) byte))]⟩ := by
  induction n generalizing b bits byte with
  | zero =>
    have hbit := sendBit_low (D := D) h rfl hinp (byte.getLsbD 7)
    rw [sendBits_succ]
    simpa [sendBits, I2cSlave.clock, I2cLog.commit, topBits, show bits.length = 7 by omega] using hbit
  | succ n ih =>
    have hbit := sendBit_low (D := D) h rfl hinp (byte.getLsbD 7)
    have h7 : bits.length ≠ 7 := by omega
    have h8 : bits.length ≠ 8 := by omega
    simp only [I2cSlave.clock, I2cLog.commit, if_neg h7, if_neg h8] at hbit
    have hrest := ih (byte <<< 1) (by rw [List.length_append, List.length_singleton]; omega) hbit hinp
    rw [sendBits_succ, topBits]
    rwa [List.append_assoc, List.singleton_append] at hrest

theorem i2cSendByte_low {addr : Bool} (byte : Byte)
    (h : b.Low ⟨.recv addr [], none, true, dev⟩ ⟨[], events⟩) :
    (i2cSendByte D byte b).Low (I2cSlave.answer D addr byte dev)
      ⟨msbBits byte, events ++ [.byte byte]⟩ := by
  have hbits := sendBits_low (D := D) 7 byte rfl (h.setSdaIn (D := D) false) rfl
  rwa [List.nil_append, topBits_eight, bitsToByte_msbBits] at hbits

/-- The slave after a byte it has acknowledged. -/
def acked (D : I2cDevice σ) (read : Bool) (dev : σ) : I2cSlave σ :=
  if read then I2cSlave.load D dev else ⟨.recv false [], none, true, dev⟩

theorem i2cWaitAck_ack {read : Bool} {bits : List Bool}
    (h : b.Low ⟨.ack read, none, false, dev⟩ ⟨bits, events⟩) (hlen : bits.length = 8) :
    (i2cWaitAck D b).1 = .ok ∧
      (i2cWaitAck D b).2.Low (acked D read dev) ⟨[], events ++ [.ack]⟩ := by
  have hlow : (b.setSdaIn D true).Low _ _ := h.setSdaIn true
  have hzero : (b.setSdaIn D true).line.sda = false := by rw [hlow.line]; rfl
  have hpulse := hlow.pulse (D := D)
  rw [hzero, I2cLog.commit_ack hlen] at hpulse
  have hwait : waitSda true 10000 (b.setSdaIn D true) = .ok := by
    rw [waitSda_eq, i2cSdaInput, hzero]
    rfl
  have hcall : i2cWaitAck D b = (.ok, ((b.setSdaIn D true).setScl D true).setScl D false) := by
    simp only [i2cWaitAck, i2cSdaConfigIn, hwait]
  rw [hcall]
  exact ⟨rfl, hpulse⟩

theorem i2cWaitAck_nack {log : I2cLog} (h : b.Low s log) (hsda : s.sda = true) :
    (i2cWaitAck D b).1 = .error ∧ (i2cWaitAck D b).2.Low s log := by
  have hlow : (b.setSdaIn D true).Low s log := h.setSdaIn true
  have hone : (b.setSdaIn D true).line.sda = true := by rw [hlow.line, hsda]; rfl
  have hwait : waitSda true 10000 (b.setSdaIn D true) = .error := by
    rw [waitSda_eq, i2cSdaInput, hone]
    rfl
  have hcall : i2cWaitAck D b = (.error, b.setSdaIn D true) := by
    simp only [i2cWaitAck, i2cSdaConfigIn, hwait]
  rw [hcall]
  exact ⟨rfl, hlow⟩

/-- **A byte out**, acknowledged. -/
theorem sendAcked_ack {addr : Bool} (byte : Byte)
    (h : b.Low ⟨.recv addr [], none, true, dev⟩ ⟨[], events⟩) (hack : (D.write dev byte).1 = true) :
    (sendAcked D byte b).1 = .ok ∧
      (sendAcked D byte b).2.Low (acked D (addr && byte.getLsbD 0) (D.write dev byte).2)
        ⟨[], events ++ [.byte byte, .ack]⟩ := by
  have hbyte := i2cSendByte_low (D := D) byte h
  rw [I2cSlave.answer, if_pos hack] at hbyte
  obtain ⟨hok, hlow⟩ := i2cWaitAck_ack hbyte rfl
  rw [List.append_assoc] at hlow
  rcases hw : i2cWaitAck D (i2cSendByte D byte b) with ⟨status, b'⟩
  rw [hw] at hok hlow
  obtain rfl : status = .ok := hok
  simp only [sendAcked, hw]
  exact ⟨trivial, hlow⟩

/-- **A byte out**, not acknowledged: the transfer is closed. -/
theorem sendAcked_nack {addr : Bool} (byte : Byte)
    (h : b.Low ⟨.recv addr [], none, true, dev⟩ ⟨[], events⟩) (hack : (D.write dev byte).1 = false) :
    (sendAcked D byte b).1 = .error ∧
      Idle (sendAcked D byte b).2 (D.stop (D.write dev byte).2)
        (events ++ [.byte byte, .stop]) := by
  have hbyte := i2cSendByte_low (D := D) byte h
  rw [I2cSlave.answer, if_neg (by rw [hack]; decide)] at hbyte
  obtain ⟨herror, hlow⟩ := i2cWaitAck_nack hbyte rfl
  have hidle := i2cStop_low (D := D) hlow rfl (.inr rfl)
  rw [List.append_assoc] at hidle
  rcases hw : i2cWaitAck D (i2cSendByte D byte b) with ⟨status, b'⟩
  rw [hw] at herror hidle
  obtain rfl : status = .error := herror
  simp only [sendAcked, hw]
  exact ⟨trivial, hidle⟩

/-! ### A byte in -/

/-- One round: the master has the bit the slave shows. -/
theorem readBit_low {log : I2cLog} (h : b.Low s log) (hinp : b.sdaIn = true) :
    i2cSdaInput (b.setScl D true) = s.sda ∧
      ((b.setScl D true).setScl D false).Low (s.clock D s.sda) (log.commit s.sda) := by
  have hbit : b.line.sda = s.sda := by
    rw [h.line, hinp]
    exact Bool.true_and _
  have hpulse := h.pulse (D := D)
  rw [hbit] at hpulse
  refine ⟨?_, hpulse⟩
  rw [i2cSdaInput, (h.rise (D := D)).2, hbit]

theorem readBits_succ (n : ℕ) (value : Byte) (b : I2cBus σ) :
    readBits D (n + 2) (value <<< 1) b =
      readBits D (n + 1) (shiftIn value (i2cSdaInput (b.setScl D true)) <<< 1)
        ((b.setScl D true).setScl D false) := by
  rw [readBits, if_pos (by omega)]
  rfl

theorem readBits_low {bits rest : List Bool} {bit : Bool} (value : Byte)
    (hlen : bits.length + (rest.length + 1) = 8)
    (h : b.Low ⟨.send rest, none, bit, dev⟩ ⟨bits, events⟩) (hinp : b.sdaIn = true) :
    (readBits D (rest.length + 1) (value <<< 1) b).1 = (bit :: rest).foldl shiftIn value ∧
      (readBits D (rest.length + 1) (value <<< 1) b).2.Low ⟨.masterAck, none, true, dev⟩
        ⟨bits ++ bit :: rest, events ++ [.byte (bitsToByte (bits ++ bit :: rest))]⟩ := by
  induction rest generalizing b bits bit value with
  | nil =>
    obtain ⟨hbit, hlow⟩ := readBit_low (D := D) h hinp
    have h7 : bits.length = 7 := by
      rw [List.length_nil] at hlen
      omega
    simp only [I2cSlave.clock, I2cLog.commit, h7] at hlow
    refine ⟨?_, hlow⟩
    show value <<< 1 ||| (BitVec.ofBool (i2cSdaInput (b.setScl D true))).zeroExtend 8 = _
    rw [hbit]
    rfl
  | cons next rest ih =>
    obtain ⟨hbit, hlow⟩ := readBit_low (D := D) h hinp
    rw [List.length_cons] at hlen
    have h7 : bits.length ≠ 7 := by omega
    have h8 : bits.length ≠ 8 := by omega
    simp only [I2cSlave.clock, I2cLog.commit, if_neg h7, if_neg h8] at hlow
    obtain ⟨hvalue, hrest⟩ := ih (shiftIn value bit)
      (by rw [List.length_append, List.length_singleton]; omega) hlow hinp
    rw [List.length_cons, readBits_succ, hbit]
    rw [List.append_assoc, List.singleton_append] at hrest
    exact ⟨hvalue, hrest⟩

/-- The eight bits of a byte in. -/
theorem readByte_low (h : b.Low (I2cSlave.load D dev) ⟨[], events⟩) :
    (readBits D 8 0 (b.setSdaIn D true)).1 = (D.read dev).1 ∧
      (readBits D 8 0 (b.setSdaIn D true)).2.Low ⟨.masterAck, none, true, (D.read dev).2⟩
        ⟨msbBits (D.read dev).1, events ++ [.byte (D.read dev).1]⟩ := by
  have hload : (b.setSdaIn D true).Low (I2cSlave.load D dev) ⟨[], events⟩ := h.setSdaIn true
  obtain ⟨hvalue, hlow⟩ := readBits_low (D := D) 0 rfl hload rfl
  have hbits : (D.read dev).1.getLsbD 7 :: (msbBits (D.read dev).1).tail = msbBits (D.read dev).1 := rfl
  rw [hbits] at hvalue hlow
  rw [List.nil_append, bitsToByte_msbBits] at hlow
  exact ⟨hvalue.trans (bitsToByte_msbBits _), hlow⟩

/-- **A byte in**, with more to come. -/
theorem i2cReadByte_ack (h : b.Low (I2cSlave.load D dev) ⟨[], events⟩) :
    (i2cReadByte D true b).1 = (D.read dev).1 ∧
      (i2cReadByte D true b).2.Low (I2cSlave.load D (D.read dev).2)
        ⟨[], events ++ [.byte (D.read dev).1, .ack]⟩ := by
  obtain ⟨hvalue, hlow⟩ := readByte_low h
  have hout := sendBit_low (D := D) (hlow.setSdaIn (D := D) false) rfl rfl false
  refine ⟨hvalue, ?_⟩
  rw [I2cLog.commit_ack (msbBits_length _), List.append_assoc] at hout
  exact hout

/-- **The last byte in**: the slave lets go of SDA. -/
theorem i2cReadByte_nack (h : b.Low (I2cSlave.load D dev) ⟨[], events⟩) :
    (i2cReadByte D false b).1 = (D.read dev).1 ∧
      (i2cReadByte D false b).2.Low ⟨.wait, none, true, (D.read dev).2⟩
        ⟨[], events ++ [.byte (D.read dev).1, .nack]⟩ := by
  obtain ⟨hvalue, hlow⟩ := readByte_low h
  have hout := sendBit_low (D := D) (hlow.setSdaIn (D := D) false) rfl rfl true
  refine ⟨hvalue, ?_⟩
  rw [I2cLog.commit_ack (msbBits_length _), List.append_assoc] at hout
  exact hout

end Lemmas

end Stm32Handler.I2c
