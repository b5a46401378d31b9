import Stm32Handler.Lib.Bytes

/-!
# The W25Q driver

`drv_spi_w25q.c` over the calls it makes of the select line and of the SPI
driver, whatever answers these give: on a bus with a chip (`Spi.W25q`), on a bus
that records them (`Spi.W25qLine`), on the bit-banged pins (`Spi.W25qSoft`).
-/

namespace Stm32Handler.Spi

inductive WqOpStatus where
  | ok
  | deviceErr
  | timeoutErr
  | comErr
  deriving DecidableEq

/-- `WQ25_GetManufacturerID` -/
def getManufacturerId (id : BitVec 32) : BitVec 32 := (id >>> 8) &&& 0xFF

def wq25ManufacturerId : BitVec 32 := 0xEF
def chipIdQ256 : BitVec 32 := 0xEF18

def w25xInstruWren : Byte := 0x06
def w25xInstruRdsr1 : Byte := 0x05
def w25xInstruRead : Byte := 0x03
def w25xPageProgram : Byte := 0x02
def w25xBlockErase : Byte := 0xD8
def w25xSectorErase : Byte := 0x20
def w25xChipErase : Byte := 0xC7

def w25xWaitTimeout : ℕ := 200
def w25xWaitLongTimeout : ℕ := 5000
def w25xSectorSize : BitVec 32 := 4 * 1024
def w25xBlockSize : BitVec 32 := 64 * 1024

/-- The address as every command sends it. -/
def addrBytes (id addr : BitVec 32) : List Byte :=
  (if id = chipIdQ256 then [(addr >>> 24).truncate 8] else []) ++
    [(addr >>> 16).truncate 8, (addr >>> 8).truncate 8, addr.truncate 8]

/-- `WQ25_CS_ON`, `WQ25_CS_OFF` and `spi_rw_byte`, the last with whether the
status is `HAL_OK`. -/
structure WqBus (m : Type → Type) where
  csOn : m Unit
  csOff : m Unit
  spiRwByte : Byte → m (Byte × Bool)

/-- The DMA calls of `drv_spi.c`; a check tells whether it is `HAL_OK`. -/
structure WqDmaBus (m : Type → Type) extends WqBus m where
  spiReadDma : ℕ → m Unit
  spiWriteDma : List Byte → m Unit
  spiReadCheckOk : m Bool
  spiWriteCheckOk : m Bool

namespace WqBus

variable {m : Type → Type} [Monad m] (bus : WqBus m)

/-- One round of the loop in `wq_wait_busy`: the status register. -/
def wqReadStatus : m Byte := do
  bus.csOn
  let _ ← bus.spiRwByte w25xInstruRdsr1
  let (regStatus, _) ← bus.spiRwByte 0xFF
  bus.csOff
  return regStatus

/-- The loop of `wq_wait_busy` with `n` rounds left to the timeout. -/
def wqWaitLoop : ℕ → m WqOpStatus
  | 0 => return .timeoutErr
  | n + 1 => do
    let regStatus ← bus.wqReadStatus
    if regStatus &&& 0x1 = 0 then return .ok
    wqWaitLoop n

/-- The rounds of `wq_wait_busy(mode)`. -/
def waitRounds (mode : Byte) : ℕ := if mode = 0 then w25xWaitTimeout else w25xWaitLongTimeout

def wqWaitBusy (mode : Byte) : m WqOpStatus := bus.wqWaitLoop (waitRounds mode)

def wqWriteEnable : m Unit := do
  bus.csOn
  let _ ← bus.spiRwByte w25xInstruWren
  bus.csOff

/-- `spi_rw_byte(.., NULL)` for one byte after the other. -/
def spiSend : List Byte → m Unit
  | [] => return ()
  | b :: bs => do
    let _ ← bus.spiRwByte b
    spiSend bs

/-- The loop that fills `pbuffer`. -/
def spiReceive : ℕ → m (List Byte)
  | 0 => return []
  | n + 1 => do
    let (b, _) ← bus.spiRwByte 0xFF
    let bs ← spiReceive n
    return b :: bs

/-- `wq_sector_erase` and `wq_block_erase` up to the command, the size the
address is rounded to, and how long they wait. -/
def wqErase (id : BitVec 32) (instruct : Byte) (size : BitVec 32) (mode : Byte) (addr : BitVec 32) :
    m WqOpStatus := do
  if getManufacturerId id ≠ wq25ManufacturerId then return .deviceErr
  bus.wqWriteEnable
  if (← bus.wqWaitBusy 0) ≠ .ok then return .timeoutErr
  bus.csOn
  let (_, status) ← bus.spiRwByte instruct
  if status then
    let addr := addr - addr % size
    bus.spiSend (addrBytes id addr)
  bus.csOff
  if (← bus.wqWaitBusy mode) ≠ .ok then return .timeoutErr
  if !status then return .comErr
  return .ok

def wqSectorErase (id addr : BitVec 32) : m WqOpStatus :=
  bus.wqErase id w25xSectorErase w25xSectorSize 0 addr

def wqBlockErase (id addr : BitVec 32) : m WqOpStatus :=
  bus.wqErase id w25xBlockErase w25xBlockSize 1 addr

def wqChipErase (id : BitVec 32) : m WqOpStatus := do
  if getManufacturerId id ≠ wq25ManufacturerId then return .deviceErr
  bus.wqWriteEnable
  if (← bus.wqWaitBusy 0) ≠ .ok then return .timeoutErr
  bus.csOn
  let (_, status) ← bus.spiRwByte w25xChipErase
  bus.csOff
  if (← bus.wqWaitBusy 1) ≠ .ok then return .timeoutErr
  if !status then return .comErr
  return .ok

/-- The buffer comes back only as far as it was filled. -/
def wqMemoryRead (id addr : BitVec 32) (num : ℕ) : m (WqOpStatus × List Byte) := do
  if getManufacturerId id ≠ wq25ManufacturerId then return (.deviceErr, [])
  bus.csOn
  let (_, status) ← bus.spiRwByte w25xInstruRead
  let pbuffer ←
    if status then do
      bus.spiSend (addrBytes id addr)
      bus.spiReceive num
    else pure []
  bus.csOff
  if !status then return (.comErr, pbuffer)
  return (.ok, pbuffer)

/-- `pbuffer` holds the `num` bytes. A wrong manufacturer id is answered with
`pdFAIL`, which has the value of `WQ_OP_OK`. -/
def wqMemoryWrite (id addr : BitVec 32) (pbuffer : List Byte) : m WqOpStatus := do
  if getManufacturerId id ≠ wq25ManufacturerId then return .ok
  if (← bus.wqWaitBusy 0) ≠ .ok then return .timeoutErr
  bus.wqWriteEnable
  bus.csOn
  let (_, status) ← bus.spiRwByte w25xPageProgram
  if status then
    bus.spiSend (addrBytes id addr)
    bus.spiSend pbuffer
  bus.csOff
  if (← bus.wqWaitBusy 0) ≠ .ok then return .timeoutErr
  if !status then return .comErr
  return .ok

end WqBus

namespace WqDmaBus

variable {m : Type → Type} [Monad m] (bus : WqDmaBus m)

/-- The loop that waits for a transfer, with `n` checks left to the timeout. -/
def wqDmaLoop (check : m Bool) : ℕ → m Bool
  | 0 => return false
  | n + 1 => do
    if ← check then return true
    wqDmaLoop check n

/-- `wq_memory_read_dma`; a timeout returns with the chip selected. -/
def wqMemoryReadDma (id addr : BitVec 32) (num : ℕ) : m WqOpStatus := do
  if getManufacturerId id ≠ wq25ManufacturerId then return .deviceErr
  bus.csOn
  let (_, status) ← bus.spiRwByte w25xInstruRead
  if status then
    bus.spiSend (addrBytes id addr)
    bus.spiReadDma num
    if !(← wqDmaLoop bus.spiReadCheckOk (w25xWaitTimeout + 1)) then return .timeoutErr
  bus.csOff
  if !status then return .comErr
  return .ok

/-- `wq_memory_write_dma`; a timeout of the transfer returns with the chip
selected. -/
def wqMemoryWriteDma (id addr : BitVec 32) (pbuffer : List Byte) : m WqOpStatus := do
  if getManufacturerId id ≠ wq25ManufacturerId then return .ok
  if (← bus.wqWaitBusy 0) ≠ .ok then return .timeoutErr
  bus.wqWriteEnable
  bus.csOn
  let (_, status) ← bus.spiRwByte w25xPageProgram
  if status then
    bus.spiSend (addrBytes id addr)
    bus.spiWriteDma pbuffer
    if !(← wqDmaLoop bus.spiWriteCheckOk (w25xWaitTimeout + 1)) then return .timeoutErr
  bus.csOff
  if (← bus.wqWaitBusy 0) ≠ .ok then return .timeoutErr
  if !status then return .comErr
  return .ok

end WqDmaBus

end Stm32Handler.Spi
