import Stm32Handler.I2c.SoftI2c
import Stm32Handler.Lib.Run

/-!
# Transfers over the software I2C

The four transfer functions of `drv_soft_i2c.c` on their channels. Whatever the
slave answers, the wires carry the frames they should: `transfer_heard`.
-/

namespace Stm32Handler.I2c

def softI2cNum : Byte := 3

/-- `SOFT_I2C_INFO` -/
structure SoftI2cInfo where
  sclPin : BitVec 32
  sclPort : BitVec 32
  sdaPin : BitVec 32
  sdaPort : BitVec 32
  deriving DecidableEq

structure SoftI2c (σ : Type*) where
  isI2cInit : Byte → Bool
  i2cList : Byte → SoftI2cInfo
  bus : Byte → I2cBus σ

variable {σ : Type*} (D : I2cDevice σ)

namespace SoftI2c

def setBus (s : SoftI2c σ) (num : Byte) (b : I2cBus σ) : SoftI2c σ :=
  { s with bus := Function.update s.bus num b }

@[simp] theorem setBus_bus (s : SoftI2c σ) (num : Byte) (b : I2cBus σ) :
    (s.setBus num b).bus num = b := Function.update_self ..

theorem setBus_bus_ne {s : SoftI2c σ} {num n : Byte} {b : I2cBus σ} (h : n ≠ num) :
    (s.setBus num b).bus n = s.bus n := Function.update_of_ne h ..

end SoftI2c

/-- An idle device is put on the wires of a channel, and a new recording
begins. -/
def SoftI2c.attach (s : SoftI2c σ) (num : Byte) (dev : σ) : SoftI2c σ :=
  s.setBus num { s.bus num with slave := ⟨.idle, none, true, dev⟩, trace := [] }

def i2cSoftInit (num : Byte) (info : SoftI2cInfo) (s : SoftI2c σ) : I2cStatus × SoftI2c σ :=
  if softI2cNum ≤ num then (.error, s)
  else if s.isI2cInit num then (if info = s.i2cList num then .ok else .error, s)
  else
    let b := (s.bus num).setScl D true
    let b := b.setSda D true
    let b := i2cSdaConfigOut D b
    (.ok,
      { isI2cInit := Function.update s.isI2cInit num true
        i2cList := Function.update s.i2cList num info
        bus := Function.update s.bus num b })

def i2cSoftDeinit (num : Byte) (s : SoftI2c σ) : I2cStatus × SoftI2c σ :=
  if softI2cNum ≤ num then (.error, s)
  else (.ok, { s with isI2cInit := Function.update s.isI2cInit num false })

/-- The checks every transfer begins with. -/
def onChannel {α : Type*} (num : Byte) (refused : α) (s : SoftI2c σ)
    (call : I2cBus σ → α × I2cBus σ) : α × SoftI2c σ :=
  if softI2cNum ≤ num then (refused, s)
  else if !s.isI2cInit num then (refused, s)
  else
    let (r, b) := call (s.bus num)
    (r, s.setBus num b)

def i2cWriteDevice (num addr : Byte) (data : Buf) (size : BitVec 16) (s : SoftI2c σ) :
    I2cStatus × SoftI2c σ :=
  onChannel num .error s fun b =>
    andThen (i2cIdleCheck D b) .error fun b =>
    let b := i2cStart D b
    andThen (sendAcked D (addr &&& 0xfe) b) .error fun b =>
    andThen (sendLoop D data 0 size.toNat b) .error fun b =>
    (.ok, i2cStop D b)

def i2cReadDevice (num addr : Byte) (rdata : Buf) (size : BitVec 16) (s : SoftI2c σ) :
    (I2cStatus × Buf) × SoftI2c σ :=
  onChannel num (.error, rdata) s fun b =>
    andThen (i2cIdleCheck D b) (.error, rdata) fun b =>
    let b := i2cStart D b
    andThen (sendAcked D (addr ||| 0x01) b) (.error, rdata) fun b =>
    let (rdata, b) := readLoop D size.toNat 0 size.toNat rdata b
    ((.ok, rdata), i2cStop D b)

def i2cWriteMemory (num addr : Byte) (memAddr : BitVec 32) (memSize : Byte) (data : Buf)
    (size : BitVec 16) (s : SoftI2c σ) : I2cStatus × SoftI2c σ :=
  onChannel num .error s fun b =>
    andThen (i2cIdleCheck D b) .error fun b =>
    let b := i2cStart D b
    andThen (sendAcked D (addr &&& 0xfe) b) .error fun b =>
    andThen (sendLoop D (memByte memAddr memSize) 0 memSize.toNat b) .error fun b =>
    andThen (sendLoop D data 0 size.toNat b) .error fun b =>
    (.ok, i2cStop D b)

def i2cReadMemory (num addr : Byte) (memAddr : BitVec 32) (memSize : Byte) (rdata : Buf)
    (size : BitVec 16) (s : SoftI2c σ) : (I2cStatus × Buf) × SoftI2c σ :=
  onChannel num (.error, rdata) s fun b =>
    andThen (i2cIdleCheck D b) (.error, rdata) fun b =>
    let b := i2cStart D b
    andThen (sendAcked D (addr &&& 0xfe) b) (.error, rdata) fun b =>
    andThen (sendLoop D (memByte memAddr memSize) 0 memSize.toNat b) (.error, rdata) fun b =>
    let b := i2cStart D b
    andThen (sendAcked D (addr ||| 0x01) b) (.error, rdata) fun b =>
    let (rdata, b) := readLoop D size.toNat 0 size.toNat rdata b
    ((.ok, rdata), i2cStop D b)

/-! ### What is to be heard -/

/-- `n` bytes from the beginning of a buffer. -/
def row (data : ℕ → Byte) (n : ℕ) : List Byte := (List.range n).map data

/-- The `n` low bytes of an address, the most significant first. -/
def addressRow (memAddr : BitVec 32) (n : ℕ) : List Byte := (row (wordByte memAddr) n).reverse

inductive Transfer where
  | writeDevice (addr : Byte) (data : Buf) (size : BitVec 16)
  | readDevice (addr : Byte) (rdata : Buf) (size : BitVec 16)
  | writeMemory (addr : Byte) (memAddr : BitVec 32) (memSize : Byte) (data : Buf)
    (size : BitVec 16)
  | readMemory (addr : Byte) (memAddr : BitVec 32) (memSize : Byte) (rdata : Buf)
    (size : BitVec 16)

namespace Transfer

def call (num : Byte) (s : SoftI2c σ) : Transfer → I2cStatus × SoftI2c σ
  | writeDevice addr data size => i2cWriteDevice D num addr data size s
  | readDevice addr rdata size =>
    let (r, s) := i2cReadDevice D num addr rdata size s
    (r.1, s)
  | writeMemory addr memAddr memSize data size =>
    i2cWriteMemory D num addr memAddr memSize data size s
  | readMemory addr memAddr memSize rdata size =>
    let (r, s) := i2cReadMemory D num addr memAddr memSize rdata size s
    (r.1, s)

/-- At most four address bytes, and something to read. -/
def Proper : Transfer → Prop
  | writeDevice _ _ _ => True
  | readDevice _ _ size => size ≠ 0
  | writeMemory _ _ memSize _ _ => memSize ≤ 4
  | readMemory _ _ memSize _ size => memSize ≤ 4 ∧ size ≠ 0

/-- The answers to the master's bytes in a frame that writes `bytes`, and the
frame. -/
def writing (bytes : List Byte) (dev : σ) : List Bool × List BusEvent :=
  let (answers, _) := D.offer bytes (D.start dev)
  (answers, .start :: transcript bytes answers ++ [.stop])

/-- The same for a frame that reads `n` bytes, none if the address is not
acknowledged. -/
def reading (addr : Byte) (n : ℕ) (dev : σ) : List Bool × List BusEvent :=
  let (answers, dev) := D.offer [addr ||| 0x01] (D.start dev)
  let n := if answers.all id then n else 0
  (answers,
    .start :: transcript [addr ||| 0x01] answers ++ received (D.supply n dev).1 ++ [.stop])

/-- The answers to the master's bytes in a transfer, and what is heard of it. -/
def frames (dev : σ) : Transfer → List Bool × List BusEvent
  | writeDevice addr data size => writing D ((addr &&& 0xFE) :: row data size.toNat) dev
  | readDevice addr _ size => reading D addr size.toNat dev
  | writeMemory addr memAddr memSize data size =>
    writing D ((addr &&& 0xFE) :: addressRow memAddr memSize.toNat ++ row data size.toNat) dev
  | readMemory addr memAddr memSize _ size =>
    let bytes := (addr &&& 0xFE) :: addressRow memAddr memSize.toNat
    let (answers, dev') := D.offer bytes (D.start dev)
    if answers.all id then
      let (answers', events) := reading D addr size.toNat dev'
      (answers ++ answers', .start :: transcript bytes answers ++ events)
    else (answers, .start :: transcript bytes answers ++ [.stop])

end Transfer

/-! ### Rows of bytes -/

section Lemmas

variable {D} {b : I2cBus σ} {dev : σ} {events : List BusEvent}

/-- How `bytes` go out to `dev`: all of them, or the transfer is closed after
the first that is not acknowledged. -/
structure Sends (D : I2cDevice σ) (r : I2cStatus × I2cBus σ) (bytes : List Byte) (dev : σ)
    (s : σ → I2cSlave σ) (events : List BusEvent) : Prop where
  accepted : D.accepts bytes dev = true → r.1 = .ok ∧
    r.2.Low (s (D.offer bytes dev).2) ⟨[], events ++ transcript bytes (D.offer bytes dev).1⟩
  refused : D.accepts bytes dev = false → r.1 = .error ∧
    Idle r.2 (D.stop (D.offer bytes dev).2)
      (events ++ transcript bytes (D.offer bytes dev).1 ++ [.stop])

theorem sendAcked_sends {addr : Bool} (byte : Byte)
    (h : b.Low ⟨.recv addr [], none, true, dev⟩ ⟨[], events⟩) :
    Sends D (sendAcked D byte b) [byte] dev (acked D (addr && byte.getLsbD 0)) events := by
  cases hack : (D.write dev byte).1 with
  | true =>
    refine ⟨fun _ => ?_, fun hno => by
      simp [hack, I2cDevice.accepts, I2cDevice.offer] at hno⟩
    rw [offer_ack hack]
    exact sendAcked_ack byte h hack
  | false =>
    refine ⟨fun hyes => by simp [accepts_cons, hack] at hyes, fun _ => ?_⟩
    rw [offer_nack hack]
    obtain ⟨herror, hidle⟩ := sendAcked_nack byte h hack
    refine ⟨herror, ?_⟩
    rwa [transcript, List.append_assoc]

/-- One row after another. -/
theorem Sends.append {r : I2cStatus × I2cBus σ} {k : I2cBus σ → I2cStatus × I2cBus σ}
    {bytes bytes' : List Byte} {s s' : σ → I2cSlave σ} (h : Sends D r bytes dev s events)
    (hk : ∀ b ev, b.Low (s (D.offer bytes dev).2) ⟨[], ev⟩ →
      Sends D (k b) bytes' (D.offer bytes dev).2 s' ev) :
    Sends D (andThen r .error k) (bytes ++ bytes') dev s' events := by
  obtain ⟨status, b⟩ := r
  cases ha : D.accepts bytes dev with
  | true =>
    obtain ⟨rfl, hlow⟩ := h.accepted ha
    have hrest := hk b _ hlow
    have hall : D.accepts (bytes ++ bytes') dev = D.accepts bytes' (D.offer bytes dev).2 := by
      rw [accepts_append, ha, Bool.true_and]
    refine ⟨fun hyes => ?_, fun hno => ?_⟩
    · rw [hall] at hyes
      obtain ⟨hok, hlow'⟩ := hrest.accepted hyes
      rw [transcript_append, offer_append, if_pos ha, if_pos ha, ← List.append_assoc]
      exact ⟨hok, hlow'⟩
    · rw [hall] at hno
      obtain ⟨herror, hidle⟩ := hrest.refused hno
      rw [transcript_append, offer_append, if_pos ha, if_pos ha, ← List.append_assoc]
      exact ⟨herror, hidle⟩
  | false =>
    obtain ⟨rfl, hidle⟩ := h.refused ha
    have hall : D.accepts (bytes ++ bytes') dev = false := by
      rw [accepts_append, ha, Bool.false_and]
    refine ⟨fun hyes => by simp [hall] at hyes, fun _ => ?_⟩
    rw [transcript_append, offer_append, if_neg (by simp [ha]), if_neg (by simp [ha]),
      List.append_nil]
    exact ⟨rfl, hidle⟩

theorem sendLoop_sends (byte : ℕ → Byte) (n index : ℕ)
    (h : b.Low ⟨.recv false [], none, true, dev⟩ ⟨[], events⟩) :
    Sends D (sendLoop D byte index n b) ((List.range' index n).map byte) dev
      (fun dev => ⟨.recv false [], none, true, dev⟩) events := by
  induction n generalizing index b dev events with
  | zero =>
    refine ⟨fun _ => ⟨rfl, ?_⟩, fun hno => by simp [I2cDevice.accepts, I2cDevice.offer] at hno⟩
    simpa [I2cDevice.offer, transcript, sendLoop] using h
  | succ n ih => exact (sendAcked_sends (byte index) h).append fun b ev hb => ih (index + 1) hb

/-- A row of bytes in, the last of them answered with NACK. -/
theorem readLoop_low {size : ℕ} (n index : ℕ) (rdata : Buf) (hn : index + (n + 1) = size)
    (h : b.Low (I2cSlave.load D dev) ⟨[], events⟩) :
    (readLoop D size index (n + 1) rdata b).1 = rdata.fill index (D.supply (n + 1) dev).1 ∧
      (readLoop D size index (n + 1) rdata b).2.Low
        ⟨.wait, none, true, (D.supply (n + 1) dev).2⟩
        ⟨[], events ++ received (D.supply (n + 1) dev).1⟩ := by
  induction n generalizing index rdata b dev events with
  | zero =>
    obtain ⟨hvalue, hlow⟩ := i2cReadByte_nack h
    rw [readLoop, if_neg (by omega)]
    refine ⟨?_, hlow⟩
    show Function.update rdata index (i2cReadByte D false b).1 = _
    rw [hvalue]
    rfl
  | succ n ih =>
    obtain ⟨hvalue, hlow⟩ := i2cReadByte_ack h
    obtain ⟨hrest, hlow'⟩ := ih (index + 1) (Function.update rdata index (i2cReadByte D true b).1)
      (by omega) hlow
    rw [List.append_assoc] at hlow'
    rw [readLoop, if_pos (by omega)]
    refine ⟨?_, hlow'⟩
    show (readLoop D size (index + 1) (n + 1)
      (Function.update rdata index (i2cReadByte D true b).1) (i2cReadByte D true b).2).1 = _
    rw [hrest, hvalue]
    rfl

/-! ### Frames -/

/-- What the writing functions do after their last byte. -/
def writeFrame (D : I2cDevice σ) (r : I2cStatus × I2cBus σ) : I2cStatus × I2cBus σ :=
  andThen r .error fun b => (.ok, i2cStop D b)

theorem writeFrame_idle {r : I2cStatus × I2cBus σ} {bytes : List Byte}
    (h : Sends D r bytes dev (fun dev => ⟨.recv false [], none, true, dev⟩) events) :
    (writeFrame D r).1 = (if D.accepts bytes dev then .ok else .error) ∧
      Idle (writeFrame D r).2 (D.stop (D.offer bytes dev).2)
        (events ++ transcript bytes (D.offer bytes dev).1 ++ [.stop]) := by
  obtain ⟨status, b⟩ := r
  cases ha : D.accepts bytes dev with
  | true =>
    obtain ⟨rfl, hlow⟩ := h.accepted ha
    exact ⟨rfl, i2cStop_low hlow rfl (.inl rfl)⟩
  | false =>
    obtain ⟨rfl, hidle⟩ := h.refused ha
    exact ⟨rfl, hidle⟩

theorem or_one_read (addr : Byte) : (addr ||| 0x01).getLsbD 0 = true := by
  revert addr
  decide +kernel

theorem and_fe_read (addr : Byte) : (addr &&& 0xfe).getLsbD 0 = false := by
  revert addr
  decide +kernel

/-- What the reading functions do after the START of their last frame. -/
def readFrame (D : I2cDevice σ) (addr : Byte) (rdata : Buf) (size : ℕ) (b : I2cBus σ) :
    (I2cStatus × Buf) × I2cBus σ :=
  andThen (sendAcked D (addr ||| 0x01) b) (.error, rdata) fun b =>
    let (rdata, b) := readLoop D size 0 size rdata b
    ((.ok, rdata), i2cStop D b)

/-- What a frame reads, and the device after it. -/
def got (D : I2cDevice σ) (addr : Byte) (size : ℕ) (dev : σ) : List Byte × σ :=
  D.supply (if D.accepts [addr ||| 0x01] (D.start dev) then size else 0)
    (D.offer [addr ||| 0x01] (D.start dev)).2

theorem readFrame_idle (addr : Byte) (rdata : Buf) {size : ℕ} (hsize : size ≠ 0)
    (h : b.Low ⟨.recv true [], none, true, D.start dev⟩ ⟨[], events ++ [.start]⟩) :
    (readFrame D addr rdata size b).1 =
        (if D.accepts [addr ||| 0x01] (D.start dev) then .ok else .error,
          rdata.fill 0 (got D addr size dev).1) ∧
      Idle (readFrame D addr rdata size b).2 (D.stop (got D addr size dev).2)
        (events ++ (Transfer.reading D addr size dev).2) := by
  have hsend := sendAcked_sends (D := D) (addr ||| 0x01) h
  rw [or_one_read] at hsend
  rcases hr : sendAcked D (addr ||| 0x01) b with ⟨status, b'⟩
  rw [hr] at hsend
  simp only [Transfer.reading, ← I2cDevice.accepts.eq_1]
  cases ha : D.accepts [addr ||| 0x01] (D.start dev) with
  | true =>
    obtain ⟨rfl, hlow⟩ := hsend.accepted ha
    obtain ⟨n, rfl⟩ := Nat.exists_eq_succ_of_ne_zero hsize
    obtain ⟨hbuf, hlow'⟩ := readLoop_low n 0 rdata (Nat.zero_add (n + 1)) hlow
    have hidle := i2cStop_low (D := D) hlow' rfl (.inl rfl)
    simp only [readFrame, andThen, hr, got, ha, if_true]
    simp only [List.append_assoc] at hidle
    exact ⟨congrArg (Prod.mk I2cStatus.ok) hbuf, by simpa using hidle⟩
  | false =>
    obtain ⟨rfl, hidle⟩ := hsend.refused ha
    simp only [readFrame, andThen, hr, got, ha, Bool.false_eq_true, if_false]
    exact ⟨rfl, by simpa [I2cDevice.supply, received] using hidle⟩

theorem andThen_assoc {α : Type*} (r : I2cStatus × I2cBus σ) (x : α)
    (k : I2cBus σ → I2cStatus × I2cBus σ) (k' : I2cBus σ → α × I2cBus σ) :
    andThen r x (fun b => andThen (k b) x k') = andThen (andThen r .error k) x k' := by
  rcases r with ⟨_ | _, b⟩ <;> rfl

/-- The idle check passes. -/
theorem andThen_idleCheck {α : Type*} (h : Idle b dev events) (x : α)
    (k : I2cBus σ → α × I2cBus σ) :
    andThen (i2cIdleCheck D b) x k = k (i2cIdleCheck D b).2 := by
  have hok := (i2cIdleCheck_idle (D := D) h).1
  unfold andThen
  split
  · next hr =>
    rw [hr] at hok
    cases hok
  · next hr => rw [hr]

theorem memByte_eq (memAddr : BitVec 32) (memSize : Byte) (index : ℕ) :
    memByte memAddr memSize index = wordByte memAddr (memSize.toNat - index - 1) := by
  unfold memByte wordByte
  generalize memSize.toNat - index - 1 = k
  ext i hi
  have hff : ∀ i < 8, (0xff : BitVec 32).getLsbD i = true := by decide
  rw [BitVec.truncate_eq_setWidth, BitVec.getElem_setWidth, BitVec.getLsbD_and, hff i hi,
    Bool.and_true, BitVec.getLsbD_ushiftRight, BitVec.getElem_extractLsb', Nat.mul_comm k 8]

/-- The loop over the address bytes sends the most significant first. -/
theorem row_memByte (memAddr : BitVec 32) (memSize : Byte) :
    row (memByte memAddr memSize) memSize.toNat = addressRow memAddr memSize.toNat := by
  unfold row addressRow
  refine List.ext_getElem (by simp [row]) fun i hi _ => ?_
  simp only [row, List.getElem_map, List.getElem_range, List.getElem_reverse, List.length_map,
    List.length_range, memByte_eq]
  congr 1
  omega

theorem sendLoop_row (byte : ℕ → Byte) (n : ℕ)
    (h : b.Low ⟨.recv false [], none, true, dev⟩ ⟨[], events⟩) :
    Sends D (sendLoop D byte 0 n b) (row byte n) dev
      (fun dev => ⟨.recv false [], none, true, dev⟩) events := by
  have hloop := sendLoop_sends (D := D) byte n 0 h
  rwa [← List.range_eq_range'] at hloop

/-- The device address and a row of bytes. -/
theorem head_sends (addr : Byte) (byte : ℕ → Byte) (n : ℕ)
    (h : b.Low ⟨.recv true [], none, true, dev⟩ ⟨[], events⟩) :
    Sends D (andThen (sendAcked D (addr &&& 0xfe) b) .error (sendLoop D byte 0 n))
      ((addr &&& 0xFE) :: row byte n) dev (fun dev => ⟨.recv false [], none, true, dev⟩) events := by
  have haddr := sendAcked_sends (D := D) (addr &&& 0xfe) h
  rw [and_fe_read] at haddr
  exact haddr.append fun b ev hb => sendLoop_row byte n hb

/-! ### The transfers -/

/-- The channel is set up. -/
structure Channel (s : SoftI2c σ) (num : Byte) : Prop where
  num_lt : num < softI2cNum
  isInit : s.isI2cInit num = true

theorem onChannel_bus {α : Type*} {num : Byte} {s : SoftI2c σ} (hc : Channel s num) (x : α)
    (call : I2cBus σ → α × I2cBus σ) :
    onChannel num x s call = ((call (s.bus num)).1, s.setBus num (call (s.bus num)).2) := by
  unfold onChannel
  rw [if_neg (BitVec.not_le.2 hc.num_lt), if_neg (by simp [hc.isInit])]

section Calls

variable {num : Byte} {s : SoftI2c σ}

/-- After the idle check and the START. -/
theorem started (h : Idle b dev events) :
    (i2cStart D (i2cIdleCheck D b).2).Low ⟨.recv true [], none, true, D.start dev⟩
      ⟨[], events ++ [.start]⟩ :=
  i2cStart_idle (i2cIdleCheck_idle h).2

theorem i2cWriteDevice_idle (hc : Channel s num) (h : Idle (s.bus num) dev events) (addr : Byte)
    (data : Buf) (size : BitVec 16) :
    ∃ b, i2cWriteDevice D num addr data size s =
        (if D.accepts ((addr &&& 0xFE) :: row data size.toNat) (D.start dev) then .ok else .error,
          s.setBus num b) ∧
      Idle b (D.stop (D.offer ((addr &&& 0xFE) :: row data size.toNat) (D.start dev)).2)
        (events ++ (Transfer.writing D ((addr &&& 0xFE) :: row data size.toNat) dev).2) := by
  obtain ⟨hstatus, hidle⟩ := writeFrame_idle (head_sends addr data size.toNat (started (D := D) h))
  rw [List.append_assoc, List.append_assoc] at hidle
  refine ⟨_, ?_, hidle⟩
  unfold i2cWriteDevice
  rw [onChannel_bus hc, andThen_idleCheck h]
  dsimp only
  rw [andThen_assoc]
  exact Prod.ext hstatus rfl

theorem i2cWriteMemory_idle (hc : Channel s num) (h : Idle (s.bus num) dev events) (addr : Byte)
    (memAddr : BitVec 32) (memSize : Byte) (data : Buf) (size : BitVec 16) {bytes : List Byte}
    (hbytes : bytes = (addr &&& 0xFE) :: addressRow memAddr memSize.toNat ++ row data size.toNat) :
    ∃ b, i2cWriteMemory D num addr memAddr memSize data size s =
        (if D.accepts bytes (D.start dev) then .ok else .error, s.setBus num b) ∧
      Idle b (D.stop (D.offer bytes (D.start dev)).2)
        (events ++ (Transfer.writing D bytes dev).2) := by
  have hhead := head_sends (D := D) addr (memByte memAddr memSize) memSize.toNat (started (D := D) h)
  have hall := hhead.append fun b ev hb => sendLoop_row data size.toNat hb
  rw [row_memByte, ← hbytes] at hall
  obtain ⟨hstatus, hidle⟩ := writeFrame_idle hall
  rw [List.append_assoc, List.append_assoc] at hidle
  refine ⟨_, ?_, hidle⟩
  unfold i2cWriteMemory
  rw [onChannel_bus hc, andThen_idleCheck h]
  dsimp only
  rw [andThen_assoc, andThen_assoc]
  exact Prod.ext hstatus rfl

theorem i2cReadDevice_idle (hc : Channel s num) (h : Idle (s.bus num) dev events) (addr : Byte)
    (rdata : Buf) {size : BitVec 16} (hsize : size ≠ 0) :
    ∃ b, i2cReadDevice D num addr rdata size s =
        ((if D.accepts [addr ||| 0x01] (D.start dev) then .ok else .error,
          rdata.fill 0 (got D addr size.toNat dev).1), s.setBus num b) ∧
      Idle b (D.stop (got D addr size.toNat dev).2)
        (events ++ (Transfer.reading D addr size.toNat dev).2) := by
  have hsize' : size.toNat ≠ 0 := fun h0 => hsize (BitVec.eq_of_toNat_eq h0)
  obtain ⟨hresult, hidle⟩ := readFrame_idle addr rdata hsize' (started (D := D) h)
  refine ⟨_, ?_, hidle⟩
  unfold i2cReadDevice
  rw [onChannel_bus hc, andThen_idleCheck h]
  exact Prod.ext hresult rfl

/-- The memory address goes out first, and a second frame follows if it is
acknowledged. -/
theorem i2cReadMemory_head (hc : Channel s num) (h : Idle (s.bus num) dev events) (addr : Byte)
    (memAddr : BitVec 32) (memSize : Byte) (rdata : Buf) (size : BitVec 16) :
    ∃ r, Sends D r ((addr &&& 0xFE) :: addressRow memAddr memSize.toNat) (D.start dev)
        (fun dev => ⟨.recv false [], none, true, dev⟩) (events ++ [.start]) ∧
      i2cReadMemory D num addr memAddr memSize rdata size s =
        let (x, b) := andThen r (.error, rdata) fun b =>
          readFrame D addr rdata size.toNat (i2cStart D b)
        (x, s.setBus num b) := by
  have hhead := head_sends (D := D) addr (memByte memAddr memSize) memSize.toNat (started (D := D) h)
  rw [row_memByte] at hhead
  refine ⟨_, hhead, ?_⟩
  unfold i2cReadMemory
  rw [onChannel_bus hc, andThen_idleCheck h]
  dsimp only
  rw [andThen_assoc]
  rfl

/-- The memory address has been acknowledged: a second frame reads. -/
theorem i2cReadMemory_idle (hc : Channel s num) (h : Idle (s.bus num) dev events) (addr : Byte)
    (memAddr : BitVec 32) (memSize : Byte) (rdata : Buf) {size : BitVec 16} (hsize : size ≠ 0)
    {bytes : List Byte} {dev' : σ} {answers : List Bool}
    (hbytes : bytes = (addr &&& 0xFE) :: addressRow memAddr memSize.toNat)
    (hoffer : D.offer bytes (D.start dev) = (answers, dev')) (ha : answers.all id = true) :
    ∃ b, i2cReadMemory D num addr memAddr memSize rdata size s =
        ((if D.accepts [addr ||| 0x01] (D.start dev') then .ok else .error,
          rdata.fill 0 (got D addr size.toNat dev').1), s.setBus num b) ∧
      Idle b (D.stop (got D addr size.toNat dev').2)
        (events ++ (.start :: transcript bytes answers ++
          (Transfer.reading D addr size.toNat dev').2)) := by
  have hsize' : size.toNat ≠ 0 := fun h0 => hsize (BitVec.eq_of_toNat_eq h0)
  obtain ⟨⟨status, b⟩, hhead, hcall⟩ :=
    i2cReadMemory_head (D := D) hc h addr memAddr memSize rdata size
  rw [← hbytes] at hhead
  obtain ⟨rfl, hlow⟩ := hhead.accepted (by rw [I2cDevice.accepts, hoffer, ha])
  rw [hoffer] at hlow
  obtain ⟨hresult, hidle⟩ := readFrame_idle addr rdata hsize' (i2cStart_low (D := D) hlow rfl)
  refine ⟨_, ?_, by simpa using hidle⟩
  rw [hcall]
  exact Prod.ext hresult rfl

/-- It has not: the transfer ends there. -/
theorem i2cReadMemory_refused (hc : Channel s num) (h : Idle (s.bus num) dev events) (addr : Byte)
    (memAddr : BitVec 32) (memSize : Byte) (rdata : Buf) (size : BitVec 16)
    {bytes : List Byte} {dev' : σ} {answers : List Bool}
    (hbytes : bytes = (addr &&& 0xFE) :: addressRow memAddr memSize.toNat)
    (hoffer : D.offer bytes (D.start dev) = (answers, dev')) (ha : answers.all id = false) :
    ∃ b, i2cReadMemory D num addr memAddr memSize rdata size s =
        ((.error, rdata), s.setBus num b) ∧
      Idle b (D.stop dev') (events ++ (.start :: transcript bytes answers ++ [.stop])) := by
  obtain ⟨⟨status, b⟩, hhead, hcall⟩ :=
    i2cReadMemory_head (D := D) hc h addr memAddr memSize rdata size
  rw [← hbytes] at hhead
  obtain ⟨rfl, hidle⟩ := hhead.refused (by rw [I2cDevice.accepts, hoffer, ha])
  rw [hoffer] at hidle
  exact ⟨b, hcall, by simpa using hidle⟩

end Calls

end Lemmas

/-! ### Runs -/

inductive Act (σ : Type*) where
  | init (num : Byte) (info : SoftI2cInfo)
  | deinit (num : Byte)
  | transfer (num : Byte) (t : Transfer)
  | attach (num : Byte) (dev : σ)

def step (s : SoftI2c σ) : Act σ → Option (SoftI2c σ)
  | .init num info => some (i2cSoftInit D num info s).2
  | .deinit num => some (i2cSoftDeinit num s).2
  | .transfer num t => some (t.call D num s).2
  | .attach num dev => some (s.attach num dev)

/-- The master lets both lines go. -/
def Released (b : I2cBus σ) : Prop := b.scl = true ∧ b.sdaOut = true

def Inv (s : SoftI2c σ) : Prop :=
  ∀ num, s.isI2cInit num = true → num < softI2cNum ∧ Released (s.bus num)

section Runs

variable {D}

theorem i2cStop_released (b : I2cBus σ) : Released (i2cStop D b) := ⟨rfl, rfl⟩

theorem i2cIdleCheck_released {b : I2cBus σ} (h : Released b) : Released (i2cIdleCheck D b).2 := h

/-- A step that fails leaves the lines released. -/
def Closes (r : I2cStatus × I2cBus σ) : Prop := r.1 = .error → Released r.2

theorem andThen_released {α : Type*} {r : I2cStatus × I2cBus σ} {x : α}
    {k : I2cBus σ → α × I2cBus σ} (hr : Closes r) (hk : ∀ b, Released (k b).2) :
    Released (andThen r x k).2 := by
  obtain ⟨status, b⟩ := r
  cases status with
  | ok => exact hk b
  | error => exact hr rfl

theorem sendAcked_closes (byte : Byte) (b : I2cBus σ) : Closes (sendAcked D byte b) := by
  intro herror
  unfold sendAcked at herror ⊢
  split at herror
  · exact i2cStop_released _
  · cases herror

theorem sendLoop_closes (byte : ℕ → Byte) (n index : ℕ) (b : I2cBus σ) :
    Closes (sendLoop D byte index n b) := by
  induction n generalizing index b with
  | zero => exact fun herror => by cases herror
  | succ n ih =>
    have hbyte := sendAcked_closes (D := D) (byte index) b
    rw [sendLoop]
    generalize sendAcked D (byte index) b = r at hbyte ⊢
    obtain ⟨status, b'⟩ := r
    cases status with
    | ok => exact ih (index + 1) b'
    | error => exact fun _ => hbyte rfl

theorem readFrame_released (addr : Byte) (rdata : Buf) (size : ℕ) (b : I2cBus σ) :
    Released (readFrame D addr rdata size b).2 :=
  andThen_released (sendAcked_closes _ b) fun _ => i2cStop_released _

/-- A channel that is set up may change its bus as long as it is released. -/
theorem Inv.setBus {s : SoftI2c σ} (hs : Inv s) {num : Byte} {b : I2cBus σ}
    (h : Released (s.bus num) → Released b) : Inv (s.setBus num b) := by
  intro n hn
  obtain ⟨hlt, hreleased⟩ := hs n hn
  refine ⟨hlt, ?_⟩
  by_cases hnum : n = num
  · subst hnum
    rw [SoftI2c.setBus_bus]
    exact h hreleased
  · rwa [SoftI2c.setBus_bus_ne hnum]

theorem onChannel_inv {α : Type*} {num : Byte} {x : α} {s : SoftI2c σ}
    {call : I2cBus σ → α × I2cBus σ} (hs : Inv s)
    (hcall : ∀ b, Released b → Released (call b).2) : Inv (onChannel num x s call).2 := by
  unfold onChannel
  split
  · exact hs
  · split
    · exact hs
    · exact hs.setBus (hcall (s.bus num))

/-- Whatever a transfer finds on the bus, it leaves it released. -/
theorem call_inv (num : Byte) (t : Transfer) {s : SoftI2c σ} (hs : Inv s) :
    Inv (t.call D num s).2 := by
  cases t with
  | writeDevice addr data size =>
    refine onChannel_inv hs fun b hb => ?_
    refine andThen_released (fun _ => i2cIdleCheck_released hb) fun b => ?_
    refine andThen_released (sendAcked_closes _ _) fun b => ?_
    exact andThen_released (sendLoop_closes _ _ _ b) fun b => i2cStop_released b
  | readDevice addr rdata size =>
    show Inv (i2cReadDevice D num addr rdata size s).2
    refine onChannel_inv hs fun b hb => ?_
    refine andThen_released (fun _ => i2cIdleCheck_released hb) fun b => ?_
    exact readFrame_released addr rdata size.toNat (i2cStart D b)
  | writeMemory addr memAddr memSize data size =>
    refine onChannel_inv hs fun b hb => ?_
    refine andThen_released (fun _ => i2cIdleCheck_released hb) fun b => ?_
    refine andThen_released (sendAcked_closes _ _) fun b => ?_
    refine andThen_released (sendLoop_closes _ _ _ b) fun b => ?_
    exact andThen_released (sendLoop_closes _ _ _ b) fun b => i2cStop_released b
  | readMemory addr memAddr memSize rdata size =>
    show Inv (i2cReadMemory D num addr memAddr memSize rdata size s).2
    refine onChannel_inv hs fun b hb => ?_
    refine andThen_released (fun _ => i2cIdleCheck_released hb) fun b => ?_
    refine andThen_released (sendAcked_closes _ _) fun b => ?_
    refine andThen_released (sendLoop_closes _ _ _ b) fun b => ?_
    exact readFrame_released addr rdata size.toNat (i2cStart D b)

theorem step_inv (s : SoftI2c σ) (a : Act σ) (s' : SoftI2c σ) (hs : Inv s)
    (h : step D s a = some s') : Inv s' := by
  cases a with
  | init num info =>
    cases h
    unfold i2cSoftInit
    split
    · exact hs
    · next hnum =>
      split
      · exact hs
      · intro n hn
        by_cases h : n = num
        · subst h
          refine ⟨BitVec.not_le.1 hnum, ?_⟩
          show Released (Function.update s.bus n _ n)
          rw [Function.update_self]
          exact ⟨rfl, rfl⟩
        · simp only [Function.update_of_ne h] at hn ⊢
          exact hs n hn
  | deinit num =>
    cases h
    unfold i2cSoftDeinit
    split
    · exact hs
    · intro n hn
      by_cases h : n = num
      · subst h
        simp at hn
      · exact hs n (by simpa only [Function.update_of_ne h] using hn)
  | transfer num t =>
    cases h
    exact call_inv num t hs
  | attach num dev =>
    cases h
    exact hs.setBus id

/-- A bus the master has released, with an idle slave. -/
theorem Released.idle {b : I2cBus σ} {dev : σ} (h : Released b)
    (hslave : b.slave = ⟨.idle, none, true, dev⟩) (htrace : b.trace = []) : Idle b dev [] := by
  have hline : b.line = ⟨true, true⟩ := by
    rw [I2cBus.line, h.1, h.2, hslave, Bool.or_true]
    rfl
  refine ⟨⟨h.1, hslave, ?_⟩, h.2⟩
  rw [hline, I2cBus.heard, htrace]
  rfl

/-- A transfer on an idle bus: its status, what is heard, and the idle bus
after it. -/
theorem call_idle {num : Byte} {s : SoftI2c σ} {dev : σ} {events : List BusEvent}
    (hc : Channel s num) (h : Idle (s.bus num) dev events) (t : Transfer) (ht : t.Proper) :
    (t.call D num s).1 = (if (t.frames D dev).1.all id then .ok else .error) ∧
      ∃ dev', Idle ((t.call D num s).2.bus num) dev' (events ++ (t.frames D dev).2) := by
  cases t with
  | writeDevice addr data size =>
    obtain ⟨b, hcall, hidle⟩ := i2cWriteDevice_idle (D := D) hc h addr data size
    rw [Transfer.call, hcall, SoftI2c.setBus_bus]
    exact ⟨rfl, _, hidle⟩
  | readDevice addr rdata size =>
    obtain ⟨b, hcall, hidle⟩ := i2cReadDevice_idle (D := D) hc h addr rdata ht
    simp only [Transfer.call, hcall, SoftI2c.setBus_bus]
    exact ⟨rfl, _, hidle⟩
  | writeMemory addr memAddr memSize data size =>
    obtain ⟨b, hcall, hidle⟩ := i2cWriteMemory_idle (D := D) hc h addr memAddr memSize data size rfl
    rw [Transfer.call, hcall, SoftI2c.setBus_bus]
    exact ⟨rfl, _, hidle⟩
  | readMemory addr memAddr memSize rdata size =>
    rcases hoffer : D.offer ((addr &&& 0xFE) :: addressRow memAddr memSize.toNat) (D.start dev) with
      ⟨answers, dev'⟩
    simp only [Transfer.call, Transfer.frames, hoffer]
    cases ha : answers.all id with
    | true =>
      obtain ⟨b, hcall, hidle⟩ :=
        i2cReadMemory_idle (D := D) hc h addr memAddr memSize rdata ht.2 rfl hoffer ha
      simp only [hcall, SoftI2c.setBus_bus, if_true, List.all_append, ha, Bool.true_and]
      exact ⟨rfl, _, hidle⟩
    | false =>
      obtain ⟨b, hcall, hidle⟩ :=
        i2cReadMemory_refused (D := D) hc h addr memAddr memSize rdata size rfl hoffer ha
      simp only [hcall, SoftI2c.setBus_bus, Bool.false_eq_true, if_false, ha]
      exact ⟨trivial, _, hidle⟩

/-- **The frames**: after any run, on a channel that is set up and whose bus is
idle, a transfer is heard exactly as the slave's answers make it, succeeds iff
every byte of the master was acknowledged, and leaves both lines released. -/
theorem transfer_heard {s₀ s : SoftI2c σ} {acts : List (Act σ)}
    (hfresh : ∀ n, s₀.isI2cInit n = false) (hrun : exec (step D) s₀ acts = some s) {num : Byte}
    (hinit : s.isI2cInit num = true) {dev : σ}
    (hslave : (s.bus num).slave = ⟨.idle, none, true, dev⟩) (htrace : (s.bus num).trace = [])
    (t : Transfer) (ht : t.Proper) :
    i2cDecode ((t.call D num s).2.bus num).trace = (t.frames D dev).2 ∧
      ((t.call D num s).1 = .ok ↔ ∀ a ∈ (t.frames D dev).1, a = true) ∧
      ((t.call D num s).2.bus num).line = ⟨true, true⟩ ∧
      ((t.call D num s).2.bus num).scl = true ∧
      ((t.call D num s).2.bus num).sdaOut = true := by
  have hinv : Inv s := exec_inv_all step_inv (fun n hn => by simp [hfresh] at hn) hrun
  have hidle : Idle (s.bus num) dev [] := (hinv num hinit).2.idle hslave htrace
  obtain ⟨hstatus, dev', hafter⟩ := call_idle (D := D) ⟨(hinv num hinit).1, hinit⟩ hidle t ht
  refine ⟨?_, ?_, hafter.line, hafter.high.scl, hafter.sdaOut⟩
  · have hheard := hafter.high.heard
    rw [List.nil_append] at hheard
    show ((t.call D num s).2.bus num).heard.log.events = _
    rw [hheard]
  · rw [hstatus]
    simp

/-- A slave with its answers and bytes given: the read goes through to the last
byte. -/
theorem transfer_heard_read :
    let D : I2cDevice (List Bool × List Byte) :=
      ⟨id, id, fun dev _ => (dev.1.headD false, dev.1.tail, dev.2),
        fun dev => (dev.2.headD 0xFF, dev.1, dev.2.tail)⟩
    let s₀ : SoftI2c (List Bool × List Byte) :=
      ⟨fun _ => false, fun _ => ⟨0, 0, 0, 0⟩,
        fun _ => ⟨false, false, true, ⟨.wait, none, true, ([], [])⟩, []⟩⟩
    let s := (i2cSoftInit D 1 ⟨1, 2, 3, 2⟩ s₀).2.attach 1 (List.replicate 4 true, [0xA5, 0x5A])
    let t : Transfer := .readMemory 0x41 0x1234 2 (fun _ => 0) 2
    i2cDecode ((t.call D 1 s).2.bus 1).trace =
      [.start, .byte 0x40, .ack, .byte 0x12, .ack, .byte 0x34, .ack, .start, .byte 0x41, .ack,
        .byte 0xA5, .ack, .byte 0x5A, .nack, .stop] := by
  intro D s₀ s t
  have hfresh : ∀ n, s₀.isI2cInit n = false := fun _ => rfl
  have hrun : exec (step D) s₀
      [.init 1 ⟨1, 2, 3, 2⟩, .attach 1 (List.replicate 4 true, [0xA5, 0x5A])] = some s := rfl
  have hslave : (s.bus 1).slave = ⟨.idle, none, true, (List.replicate 4 true, [0xA5, 0x5A])⟩ := rfl
  have htrace : (s.bus 1).trace = [] := rfl
  rw [(transfer_heard hfresh hrun rfl hslave htrace t ⟨by decide, by decide⟩).1]
  decide +kernel

end Runs

end Stm32Handler.I2c
