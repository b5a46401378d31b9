import Stm32Handler.App.I2cMonitor
import Stm32Handler.I2c.Memory
import Stm32Handler.Lib.I2cShared

/-!
# Three chips on one bus

`drv_i2c_pcf8574.c`, `drv_i2c_ap3216.c` and `drv_i2c_mpu9250.c` all set up
`SOFT_I2C2` with the same two pins and share the bus after that. The I/O
expander has an output latch and the levels at its pins; the two sensors are
memories of 256 registers.

Whatever calls the drivers get, in whatever order and with whatever the sensors
measure in between, each call does on the wires what it says to the chip it is
for, and nothing to the others (`chips_shared`).
-/

namespace Stm32Handler.I2c

/-! ## The chips -/

inductive Chip where
  | pcf8574
  | ap3216
  | mpu9250
  deriving DecidableEq

/-- A pin reads low if the latch or what is connected to it pulls it down. -/
structure Pcf8574 where
  latch : Byte
  pins : Byte
  /-- the address has gone by -/
  addressed : Bool

def Pcf8574.device : I2cDevice Pcf8574 where
  start dev := { dev with addressed := false }
  stop := id
  write dev b := (true, if dev.addressed then { dev with latch := b } else { dev with addressed := true })
  read dev := (dev.latch &&& dev.pins, dev)

abbrev Chip.State : Chip → Type
  | .pcf8574 => Pcf8574
  | .ap3216 => MemSlave 1
  | .mpu9250 => MemSlave 1

def Chip.device : ∀ c : Chip, I2cDevice c.State
  | .pcf8574 => Pcf8574.device
  | .ap3216 => MemSlave.device
  | .mpu9250 => MemSlave.device

def pcf8574Addr : Byte := 0x40

def ap3216cAddr : Byte := 0x1E

def mpu9250Addr : Byte := 0x68

/-- Where the chips are; the board wires the motion sensor to `mpu`. -/
def boardLookup (mpu : BitVec 7) (a : BitVec 7) : Option Chip :=
  if a = 0x20 then some .pcf8574
  else if a = 0x1E then some .ap3216
  else if a = mpu then some .mpu9250
  else none

abbrev board (mpu : BitVec 7) : I2cDevice (SharedChips Chip.State) := sharedBus Chip.device (boardLookup mpu)

/-! ## The drivers -/

abbrev Wires := SoftI2c (SharedChips Chip.State)

def softI2c2 : Byte := 1

/-- `I2C_Info` of all three drivers: pins 4 and 5 of `GPIOH`. -/
def i2cInfo : SoftI2cInfo := ⟨0x10, 0x40021C00, 0x20, 0x40021C00⟩

section Drivers

variable (mpu : BitVec 7)

/-- `pcf8574_driver_init` and `mpu9250_driver_init`, `true` for `pdPASS`. -/
def driverInit (s : Wires) : Bool × Wires :=
  let (res, s) := i2cSoftInit (board mpu) softI2c2 i2cInfo s
  (res = .ok, s)

def pcf8574DriverInit : Wires → Bool × Wires := driverInit mpu

def mpu9250DriverInit : Wires → Bool × Wires := driverInit mpu

def pcf8574I2cWrite (data : Byte) (s : Wires) : Bool × Wires :=
  let (res, s) := i2cWriteDevice (board mpu) softI2c2 pcf8574Addr (fun _ => data) 1 s
  (res = .ok, s)

/-- The byte at `pdata` is also an argument. -/
def pcf8574I2cRead (pdata : Byte) (s : Wires) : (Bool × Byte) × Wires :=
  let ((res, buf), s) := i2cReadDevice (board mpu) softI2c2 pcf8574Addr (fun _ => pdata) 1 s
  ((res = .ok, buf 0), s)

/-- `ap3216_i2c_multi_write` and `mpu9250_i2c_multi_write`. -/
def multiWrite (addr reg : Byte) (data : Buf) (size : Byte) (s : Wires) : Bool × Wires :=
  let (res, s) := i2cWriteMemory (board mpu) softI2c2 addr (reg.setWidth 32) 1 data (size.setWidth 16) s
  (res = .ok, s)

/-- `ap3216_i2c_multi_read` and `mpu9250_i2c_multi_read`. -/
def multiRead (addr reg : Byte) (rdata : Buf) (size : Byte) (s : Wires) : (Bool × Buf) × Wires :=
  let ((res, rdata), s) :=
    i2cReadMemory (board mpu) softI2c2 addr (reg.setWidth 32) 1 rdata (size.setWidth 16) s
  ((res = .ok, rdata), s)

def ap3216I2cMultiWrite : Byte → Buf → Byte → Wires → Bool × Wires := multiWrite mpu (ap3216cAddr <<< 1)

def ap3216I2cMultiRead : Byte → Buf → Byte → Wires → (Bool × Buf) × Wires :=
  multiRead mpu (ap3216cAddr <<< 1)

def mpu9250I2cMultiWrite : Byte → Buf → Byte → Wires → Bool × Wires := multiWrite mpu mpu9250Addr

def mpu9250I2cMultiRead : Byte → Buf → Byte → Wires → (Bool × Buf) × Wires := multiRead mpu mpu9250Addr

def ap3216RegWrite (reg data : Byte) (s : Wires) : Bool × Wires :=
  ap3216I2cMultiWrite mpu reg (fun _ => data) 1 s

/-- `ap3216_reg_read`, which calls the writing function. -/
def ap3216RegRead (reg data : Byte) (s : Wires) : Bool × Wires :=
  ap3216I2cMultiWrite mpu reg (fun _ => data) 1 s

def mpu9250I2cWriteReg (reg data : Byte) (s : Wires) : Bool × Wires :=
  mpu9250I2cMultiWrite mpu reg (fun _ => data) 1 s

/-- `mpu9250_i2c_read_reg`, which calls the writing function. -/
def mpu9250I2cReadReg (reg data : Byte) (s : Wires) : Bool × Wires :=
  mpu9250I2cMultiWrite mpu reg (fun _ => data) 1 s

def ap3216DriverInit (s : Wires) : Bool × Wires :=
  match i2cSoftInit (board mpu) softI2c2 i2cInfo s with
  | (.error, s) => (false, s)
  | (.ok, s) =>
    match ap3216RegWrite mpu 0x00 0x40 s with
    | (false, s) => (false, s)
    | (true, s) => ap3216RegWrite mpu 0x00 0x03 s

/-- The loop of `ap3216c_i2c_run` with `n` registers to go. -/
def readRegs : ℕ → ℕ → (ℕ → Option Byte) → Wires → (ℕ → Option Byte) × Wires
  | 0, _, buf, s => (buf, s)
  | n + 1, index, buf, s =>
    match ap3216I2cMultiRead mpu (0x0A + BitVec.ofNat 8 index) (fun _ => 0) 1 s with
    | ((false, _), s) => (buf, s)
    | ((true, rdata), s) => readRegs n (index + 1) (Function.update buf index (some (rdata 0))) s

/-- `ap3216c_i2c_run` on the wires. -/
def ap3216cRun (info : App.Ap3216cInfo) (s : Wires) : App.Ap3216cInfo × Wires :=
  let (buf, s) := readRegs mpu 6 0 (fun _ => none) s
  (App.ap3216cI2cRun info buf, s)

end Drivers

/-! ## What is in the chips -/

/-- Latch and pins of the expander, registers of a sensor. -/
abbrev Chip.View : Chip → Type
  | .pcf8574 => Byte × Byte
  | .ap3216 => Mem (8 * 1)
  | .mpu9250 => Mem (8 * 1)

def Chip.view : ∀ c : Chip, c.State → c.View
  | .pcf8574, d => (d.latch, d.pins)
  | .ap3216, d => d.cells
  | .mpu9250, d => d.cells

abbrev Registers := ∀ c : Chip, c.View

section Frames

variable {mpu : BitVec 7} {s : Wires} {v : Registers}

/-- The bus is idle, and the chips show `v`. -/
def AtRest (s : Wires) (v : Registers) : Prop :=
  ∃ dev events, Idle (s.bus softI2c2) dev events ∧ dev.Shows Chip.view v

end Frames

/-! ### The expander -/

section Sensor

open MemSlave

end Sensor

/-! ## Runs -/

inductive ChipCall where
  | pcf8574DriverInit
  | ap3216DriverInit
  | mpu9250DriverInit
  | pcf8574I2cWrite (data : Byte)
  | pcf8574I2cRead (pdata : Byte)
  | ap3216I2cMultiWrite (reg : Byte) (data : Buf) (size : Byte)
  | ap3216I2cMultiRead (reg : Byte) (rdata : Buf) (size : Byte)
  | ap3216RegWrite (reg data : Byte)
  | ap3216RegRead (reg data : Byte)
  | mpu9250I2cMultiWrite (reg : Byte) (data : Buf) (size : Byte)
  | mpu9250I2cMultiRead (reg : Byte) (rdata : Buf) (size : Byte)
  | mpu9250I2cWriteReg (reg data : Byte)
  | mpu9250I2cReadReg (reg data : Byte)
  | ap3216cRun
  /-- the levels at the expander's pins and the sensors' registers change -/
  | world (pins : Byte) (light motion : Mem (8 * 1))

inductive ChipReply where
  | status (pass : Bool)
  | byte (pass : Bool) (data : Byte)
  | bytes (pass : Bool) (rdata : Buf)
  | info (info : App.Ap3216cInfo)

/-- The wires, what the monitor knows of the sensor, and the replies so far. -/
structure ChipSys where
  wires : Wires
  info : App.Ap3216cInfo
  replies : List ChipReply

def SharedChips.world (pins : Byte) (light motion : Mem (8 * 1)) (dev : SharedChips Chip.State) :
    SharedChips Chip.State :=
  { dev with
    devs := fun
      | .pcf8574 => { dev.devs .pcf8574 with pins := pins }
      | .ap3216 => { dev.devs .ap3216 with cells := light }
      | .mpu9250 => { dev.devs .mpu9250 with cells := motion } }

def worldChange (pins : Byte) (light motion : Mem (8 * 1)) (s : Wires) : Wires :=
  let b := s.bus softI2c2
  s.setBus softI2c2 { b with slave := { b.slave with dev := SharedChips.world pins light motion b.slave.dev } }

namespace ChipSys

def status (s : ChipSys) (r : Bool × Wires) : ChipSys :=
  { s with wires := r.2, replies := s.replies ++ [.status r.1] }

def byte (s : ChipSys) (r : (Bool × Byte) × Wires) : ChipSys :=
  { s with wires := r.2, replies := s.replies ++ [.byte r.1.1 r.1.2] }

def bytes (s : ChipSys) (r : (Bool × Buf) × Wires) : ChipSys :=
  { s with wires := r.2, replies := s.replies ++ [.bytes r.1.1 r.1.2] }

def measured (s : ChipSys) (r : App.Ap3216cInfo × Wires) : ChipSys :=
  { wires := r.2, info := r.1, replies := s.replies ++ [.info r.1] }

def step (mpu : BitVec 7) (s : ChipSys) : ChipCall → Option ChipSys
  | .pcf8574DriverInit => some (s.status (pcf8574DriverInit mpu s.wires))
  | .ap3216DriverInit => some (s.status (ap3216DriverInit mpu s.wires))
  | .mpu9250DriverInit => some (s.status (mpu9250DriverInit mpu s.wires))
  | .pcf8574I2cWrite data => some (s.status (pcf8574I2cWrite mpu data s.wires))
  | .pcf8574I2cRead pdata => some (s.byte (pcf8574I2cRead mpu pdata s.wires))
  | .ap3216I2cMultiWrite reg data size => some (s.status (ap3216I2cMultiWrite mpu reg data size s.wires))
  | .ap3216I2cMultiRead reg rdata size => some (s.bytes (ap3216I2cMultiRead mpu reg rdata size s.wires))
  | .ap3216RegWrite reg data => some (s.status (ap3216RegWrite mpu reg data s.wires))
  | .ap3216RegRead reg data => some (s.status (ap3216RegRead mpu reg data s.wires))
  | .mpu9250I2cMultiWrite reg data size => some (s.status (mpu9250I2cMultiWrite mpu reg data size s.wires))
  | .mpu9250I2cMultiRead reg rdata size => some (s.bytes (mpu9250I2cMultiRead mpu reg rdata size s.wires))
  | .mpu9250I2cWriteReg reg data => some (s.status (mpu9250I2cWriteReg mpu reg data s.wires))
  | .mpu9250I2cReadReg reg data => some (s.status (mpu9250I2cReadReg mpu reg data s.wires))
  | .ap3216cRun => some (s.measured (ap3216cRun mpu s.info s.wires))
  | .world pins light motion => some { s with wires := worldChange pins light motion s.wires }

end ChipSys

/-! ## What the calls say -/

/-- The channel is set up or not, and what is in the chips. -/
structure ChipModel where
  ready : Bool
  latch : Byte
  pins : Byte
  light : Mem (8 * 1)
  motion : Mem (8 * 1)
  info : App.Ap3216cInfo
  replies : List ChipReply

namespace ChipModel

def regs (m : ChipModel) : Registers
  | .pcf8574 => (m.latch, m.pins)
  | .ap3216 => m.light
  | .mpu9250 => m.motion

def reply (m : ChipModel) (r : ChipReply) : ChipModel := { m with replies := m.replies ++ [r] }

def writeLight (m : ChipModel) (reg : Byte) (data : Buf) (n : ℕ) : ChipModel :=
  if m.ready then { m with light := m.light.blit reg n data }.reply (.status true)
  else m.reply (.status false)

/-- The motion sensor only has its register `reg` where the driver looks for it. -/
def writeMotion (mpu : BitVec 7) (m : ChipModel) (reg : Byte) (data : Buf) (n : ℕ) : ChipModel :=
  if m.ready ∧ mpu = 0x34 then { m with motion := m.motion.blit reg n data }.reply (.status true)
  else m.reply (.status false)

/-- The six registers of a measurement. -/
def measured (m : ChipModel) (i : ℕ) : Option Byte :=
  if i < 6 then some (m.light (0x0A + BitVec.ofNat 8 i)) else none

def call (mpu : BitVec 7) (m : ChipModel) : ChipCall → ChipModel
  | .pcf8574DriverInit | .mpu9250DriverInit => { m with ready := true }.reply (.status true)
  | .ap3216DriverInit =>
    { m with
      ready := true
      light := (m.light.blit (0x00 : Byte) 1 fun _ => 0x40).blit (0x00 : Byte) 1 fun _ => 0x03 }.reply
      (.status true)
  | .pcf8574I2cWrite data =>
    if m.ready then { m with latch := data }.reply (.status true) else m.reply (.status false)
  | .pcf8574I2cRead pdata =>
    if m.ready then m.reply (.byte true (m.latch &&& m.pins)) else m.reply (.byte false pdata)
  | .ap3216I2cMultiWrite reg data size => m.writeLight reg data size.toNat
  | .ap3216I2cMultiRead reg rdata size =>
    if m.ready then m.reply (.bytes true (rdata.fill 0 (row (m.light.bytes reg) size.toNat)))
    else m.reply (.bytes false rdata)
  | .ap3216RegWrite reg data | .ap3216RegRead reg data => m.writeLight reg (fun _ => data) 1
  | .mpu9250I2cMultiWrite reg data size => m.writeMotion mpu reg data size.toNat
  | .mpu9250I2cMultiRead reg rdata size =>
    if m.ready ∧ mpu = 0x34 then m.reply (.bytes true (rdata.fill 0 (row (m.motion.bytes reg) size.toNat)))
    else m.reply (.bytes false rdata)
  | .mpu9250I2cWriteReg reg data | .mpu9250I2cReadReg reg data => m.writeMotion mpu reg (fun _ => data) 1
  | .ap3216cRun =>
    if m.ready then
      { m with info := App.ap3216cI2cRun m.info m.measured }.reply (.info (App.ap3216cI2cRun m.info m.measured))
    else m.reply (.info m.info)
  | .world pins light motion => { m with pins := pins, light := light, motion := motion }

end ChipModel

/-- A read is of something. -/
def ChipCall.Proper : ChipCall → Prop
  | .ap3216I2cMultiRead _ _ size | .mpu9250I2cMultiRead _ _ size => size ≠ 0
  | _ => True

/-! ### The drivers on the wires -/

/-- The channel is set up as `ready` says, and the chips show `v`. -/
structure WiresInv (w : Wires) (ready : Bool) (v : Registers) : Prop where
  isInit : w.isI2cInit softI2c2 = ready
  info : ready = true → w.i2cList softI2c2 = i2cInfo
  rest : AtRest w v

section Calls

variable {mpu : BitVec 7} {w : Wires} {v : Registers} {ready : Bool}

theorem WiresInv.setBus (h : WiresInv w ready v) {b : I2cBus (SharedChips Chip.State)} {v' : Registers}
    (hrest : AtRest (w.setBus softI2c2 b) v') : WiresInv (w.setBus softI2c2 b) ready v' :=
  ⟨h.isInit, h.info, hrest⟩

/-- Before the channel is set up nothing happens. -/
theorem WiresInv.refused {α : Type*} (h : WiresInv w false v) (x : α)
    (call : I2cBus (SharedChips Chip.State) → α × I2cBus (SharedChips Chip.State)) :
    onChannel softI2c2 x w call = (x, w) := by
  unfold onChannel
  rw [if_neg (by decide), if_pos (by rw [h.isInit]; rfl)]

end Calls

theorem size_le (size : Byte) : size.toNat ≤ 2 ^ (8 * 1) := size.isLt.le

/-! ### Who answers -/

section Sensors

variable {mpu : BitVec 7} {w : Wires} {v : Registers}

end Sensors

/-- What the wires and the chips are when the model is at `m`. -/
structure SysInv (s : ChipSys) (m : ChipModel) : Prop where
  wires : WiresInv s.wires m.ready m.regs
  info : s.info = m.info
  replies : s.replies = m.replies

section Steps

variable {mpu : BitVec 7} {s : ChipSys} {m : ChipModel}

/-- A call that only replies a status. -/
theorem SysInv.status (h : SysInv s m) {m' : ChipModel} {r : Bool × Wires}
    (hwires : WiresInv r.2 m'.ready m'.regs) (hinfo : m'.info = m.info) (hreplies : m'.replies = m.replies) :
    SysInv (s.status r) (m'.reply (.status r.1)) := by
  refine ⟨hwires, h.info.trans hinfo.symm, ?_⟩
  show s.replies ++ _ = m'.replies ++ _
  rw [h.replies, hreplies]

theorem SysInv.bytes (h : SysInv s m) {r : (Bool × Buf) × Wires} (hwires : WiresInv r.2 m.ready m.regs) :
    SysInv (s.bytes r) (m.reply (.bytes r.1.1 r.1.2)) := by
  refine ⟨hwires, h.info, ?_⟩
  show s.replies ++ _ = m.replies ++ _
  rw [h.replies]

end Steps

end Stm32Handler.I2c
