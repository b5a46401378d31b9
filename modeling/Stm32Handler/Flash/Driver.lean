import Mathlib.Logic.Function.Iterate
import Stm32Handler.Lib.Bytes

/-!
# The flash store driver

`drv_flash.c` with the RAM variants of its device functions: two pages of
`page_size` bytes, each a header block and `block_num` blocks, addressed in a
32-bit memory. `flash_write` appends a block to the valid page or, when that is
full, starts the other page; `flash_read` returns the last written block.

The state holds the memory and the static `block_buffer`. Every call of
`flash_empty_device` and `flash_write_device` takes the next `Fate`: with none
left they do what the RAM variants do, `fail` is a device that reports
`pdFAIL`, and `lost j` is a power loss after `j` words, which ends the call
with an error and leaves the memory as it is at that moment.
-/

namespace Stm32Handler.Flash

def pageErased : BitVec 32 := 0x00000000
def flashValid : BitVec 32 := 0xC33CC33C
def pageValid : BitVec 32 := 0x5A5A5A5A
def blockValid : BitVec 32 := 0xA5A5A5A5

def maxBlockSize : ℕ := 1024
def blockHeadSize : ℕ := 8
def blockCrcSize : ℕ := 2

/-- `CALC_BLOCK_SIZE`. -/
def calcBlockSize (bufSize : BitVec 32) : BitVec 32 :=
  bufSize + BitVec.ofNat 32 blockHeadSize + BitVec.ofNat 32 blockCrcSize

/-- `CALC_BUFFER_SIZE`. -/
def calcBufferSize (blockSize : BitVec 32) : BitVec 32 :=
  blockSize - BitVec.ofNat 32 blockHeadSize - BitVec.ofNat 32 blockCrcSize

inductive FlashOperatorStatus where
  | success
  | invalidParameter
  | nullErr
  | blockErr
  | crcErr
  | sizeErr
  | eraseErr
  | readErr
  | writeErr
  | writeDataErr
  deriving DecidableEq

inductive PageOperationAction where
  | write
  | read

/-- `FlashSearchStatus_t`; `ok` comes with `*find_addr`. -/
inductive FlashSearchStatus where
  | ok (findAddr : BitVec 32)
  | pageEmpty
  | pageMultiInvalid
  | blockInvalid
  | blockWriteFull0
  | blockWriteFull1
  deriving DecidableEq

structure FlashInfo where
  flashValid : BitVec 32
  page0Address : BitVec 32
  page1Address : BitVec 32
  pageSize : BitVec 32
  blockSize : BitVec 32
  blockNum : BitVec 32

/-- A call of `flash_empty_device` or `flash_write_device`. -/
inductive DeviceCall where
  | empty (address size : BitVec 32)
  | write (address : BitVec 32) (size : ℕ)

/-- What becomes of a device operation. -/
inductive Fate where
  | pass
  | fail
  /-- the power is lost after `j` words -/
  | lost (j : ℕ)

structure FlashState where
  mem : Mem 32
  blockBuffer : Buf
  /-- fates of the coming device operations; past the end they pass -/
  fates : List Fate
  /-- the device operations so far, as a history -/
  calls : List DeviceCall := []

/-- The error is the loss of power. -/
abbrev FlashM := EStateM Unit FlashState

def nextFate (call : DeviceCall) : FlashM Fate :=
  modifyGet fun st =>
    (st.fates.headD .pass, { st with fates := st.fates.tail, calls := st.calls ++ [call] })

/-- `memset` of `size` bytes to 0. -/
def memClear (m : Mem 32) (address : BitVec 32) (size : ℕ) : Mem 32 := m.blit address size fun _ => 0

/-- The loop of `flash_write_device`, `size` words long. -/
def storeWords (m : Mem 32) (address : BitVec 32) (pbuffer : Buf) (size : ℕ) : Mem 32 :=
  (List.range size).foldl
    (fun m index => m.store32 (address + BitVec.ofNat 32 (index * 4)) (word pbuffer (index * 4))) m

/-- `flash_empty_device`: `pdPASS` or `pdFAIL`. -/
def flashEmptyDevice (address size : BitVec 32) : FlashM Bool := do
  match ← nextFate (.empty address size) with
  | .pass =>
    modify fun st => { st with mem := memClear st.mem address size.toNat }
    return true
  | .fail => return false
  | .lost j =>
    modify fun st => { st with mem := memClear st.mem address (min (j * 4) size.toNat) }
    throw ()

/-- `flash_write_device`, `size` in words. -/
def flashWriteDevice (address : BitVec 32) (pbuffer : Buf) (size : ℕ) : FlashM Bool := do
  match ← nextFate (.write address size) with
  | .pass =>
    modify fun st => { st with mem := storeWords st.mem address pbuffer size }
    return true
  | .fail => return false
  | .lost j =>
    modify fun st => { st with mem := storeWords st.mem address pbuffer (min j size) }
    throw ()

/-- `flash_read_device` into `block_buffer`, `size` in words. -/
def flashReadDevice (address : BitVec 32) (size : ℕ) : FlashM Bool := do
  modify fun st =>
    { st with
      blockBuffer := (List.range size).foldl
        (fun b index => b.store32 (index * 4) (st.mem.load32 (address + BitVec.ofNat 32 (index * 4))))
        st.blockBuffer }
  return true

/-! ## CRC -/

/-- One turn of the inner loop of `flash_calc_crc16`. -/
def crcBit (crc : BitVec 16) : BitVec 16 :=
  if crc &&& 0x80 ≠ 0 then (crc <<< 1) ^^^ 0xA001 else crc <<< 1

def crcByte (crc : BitVec 16) (b : Byte) : BitVec 16 := crcBit^[8] (crc ^^^ b.setWidth 16)

/-- `flash_calc_crc16`. -/
def flashCalcCrc16 (ptr : Buf) (len : ℕ) : BitVec 16 :=
  (List.range len).foldl (fun crc i => crcByte crc (ptr i)) 0xFFFF

/-- `pcrc[0]<<8 | pcrc[1]`. -/
def loadCrc (f : Buf) (i : ℕ) : BitVec 16 := ((f i).setWidth 16 <<< 8) ||| (f (i + 1)).setWidth 16

/-! ## Set-up and search -/

/-- `flash_driver_init`: the handler it leaves, none for `pdFAIL`. -/
def flashDriverInit (Handler : Option FlashInfo) (sectorAddr0 sectorAddr1 pageSize blockSize : BitVec 32) :
    Option FlashInfo :=
  match Handler with
  | none => none
  | some _ =>
    if pageSize = 0 ∨ blockSize = 0 ∨ blockSize > BitVec.ofNat 32 maxBlockSize ∨
        pageSize < blockSize * 2 then none
    else if (sectorAddr0 ||| sectorAddr1 ||| pageSize ||| blockSize) &&& 0x4 ≠ 0 then none
    else some
      { flashValid := flashValid
        page0Address := sectorAddr0
        page1Address := sectorAddr1
        pageSize := pageSize
        blockSize := blockSize
        blockNum := pageSize / blockSize - 1 }

/-- The `switch` of `flash_find_block` on the valid page; its locals `block_num`
and `block_size` are `uint16_t`. -/
def flashSearchPage (h : FlashInfo) (operation : PageOperationAction) (m : Mem 32)
    (pageValidAddr : BitVec 32) : FlashSearchStatus :=
  let blockNum := (h.blockNum.setWidth 16).toNat
  let blockSize := (h.blockSize.setWidth 16).toNat
  match operation with
  | .write =>
    match (List.range blockNum).find? fun blockIndex =>
        m.load32 (pageValidAddr + BitVec.ofNat 32 ((blockIndex + 1) * blockSize)) == pageErased with
    | some blockIndex => .ok (pageValidAddr + BitVec.ofNat 32 ((blockIndex + 1) * blockSize))
    | none =>
      if pageValidAddr = h.page0Address then .blockWriteFull0
      else if pageValidAddr = h.page1Address then .blockWriteFull1
      else .blockInvalid
  | .read =>
    match (List.range blockNum).find? fun blockIndex =>
        m.load32 (pageValidAddr + BitVec.ofNat 32 ((blockNum - blockIndex) * blockSize)) ==
          blockValid with
    | some blockIndex => .ok (pageValidAddr + BitVec.ofNat 32 ((blockNum - blockIndex) * blockSize))
    | none => .blockInvalid

/-- `flash_find_block`. -/
def flashFindBlock (h : FlashInfo) (operation : PageOperationAction) (m : Mem 32) : FlashSearchStatus :=
  let pageValid0 := m.load32 h.page0Address
  let pageValid1 := m.load32 h.page1Address
  if pageValid0 = pageValid ∧ pageValid1 = pageValid then .pageMultiInvalid
  else if pageValid0 = pageValid then flashSearchPage h operation m h.page0Address
  else if pageValid1 = pageValid then flashSearchPage h operation m h.page1Address
  else .pageEmpty

/-! ## Read -/

/-- `flash_read`; `pbuffer` holds the `size` bytes at the pointer. -/
def flashRead (Handler : Option FlashInfo) (pbuffer : Option (List Byte)) :
    FlashM (FlashOperatorStatus × Option (List Byte)) :=
  match Handler, pbuffer with
  | some h, some buf => do
    match flashFindBlock h .read (← get).mem with
    | .ok blockAddress =>
      if ← flashReadDevice blockAddress (h.blockSize.toNat / 4) then
        let st ← get
        if calcBlockSize (word st.blockBuffer 4) ≠ h.blockSize then
          return (.sizeErr, some buf)
        let softCrc := flashCalcCrc16 st.blockBuffer (h.blockSize.toNat - 2)
        let flashCrc := loadCrc (st.mem.bytes blockAddress) (h.blockSize.toNat - 2)
        if softCrc = flashCrc then
          return (.success, some ((List.range buf.length).map fun i => st.blockBuffer (blockHeadSize + i)))
        else return (.crcErr, some buf)
      else return (.readErr, some buf)
    | _ => return (.blockErr, some buf)
  | _, _ => return (.invalidParameter, pbuffer)

/-! ## Write -/

def clearBlockBuffer (b : Buf) : Buf := b.blit 0 maxBlockSize fun _ => 0

/-- The fields of the page header that do not depend on the page. -/
def fillPageHeader (h : FlashInfo) (b : Buf) : Buf :=
  ((((clearBlockBuffer b).store32 0 pageValid).store32 8 h.pageSize).store32 16 h.blockNum).store32 12
    h.blockSize

/-- The page address, and the CRC of the 22 bytes before it was set: `crc` is
at offset 20, `sizeof(PageHeader_t)` is 24. -/
def finishPageHeader (pageAddr : BitVec 32) (b : Buf) : Buf :=
  let b := b.store32 4 pageAddr
  let crc := flashCalcCrc16 b 22
  b.blit 20 2 fun i => crc.extractLsb' (8 * i) 8

/-- The block with `data` in `block_buffer`. -/
def fillBlock (h : FlashInfo) (data : List Byte) (b : Buf) : Buf :=
  let b := ((clearBlockBuffer b).store32 0 blockValid).store32 4 (calcBufferSize h.blockSize)
  let b := b.blit blockHeadSize data.length fun i => data.getD i 0
  let softCrc := flashCalcCrc16 b (h.blockSize.toNat - 2)
  b.blit (h.blockSize.toNat - 2) 2 fun i =>
    if i = 0 then (softCrc >>> 8).setWidth 8 else (softCrc &&& 0xff).setWidth 8

def setBlockBuffer (f : Buf → Buf) : FlashM Unit :=
  modify fun st => { st with blockBuffer := f st.blockBuffer }

/-- Erases a page unless its first word is erased; the result is not looked at. -/
def flashEmptyUsedPage (h : FlashInfo) (address : BitVec 32) : FlashM Unit := do
  if (← get).mem.load32 address ≠ pageErased then
    let _ ← flashEmptyDevice address h.pageSize

/-- The header goes to the page in one write of a whole block. The address of
the first block, or none when the write fails. -/
def flashWriteHeader (h : FlashInfo) (pageAddr : BitVec 32) : FlashM (Option (BitVec 32)) := do
  setBlockBuffer (finishPageHeader pageAddr)
  if ← flashWriteDevice pageAddr (← get).blockBuffer (h.blockSize.toNat / 4) then
    return some (pageAddr + h.blockSize)
  else return none

/-- `flash_write` after a failed search: a page for the block. -/
def flashStartPage (h : FlashInfo) (searchStatus : FlashSearchStatus) : FlashM (Option (BitVec 32)) := do
  setBlockBuffer (fillPageHeader h)
  match searchStatus with
  | .pageEmpty | .pageMultiInvalid =>
    flashEmptyUsedPage h h.page0Address
    flashEmptyUsedPage h h.page1Address
    flashWriteHeader h h.page0Address
  | .blockWriteFull0 =>
    flashEmptyUsedPage h h.page1Address
    flashWriteHeader h h.page1Address
  | .blockWriteFull1 =>
    flashEmptyUsedPage h h.page0Address
    flashWriteHeader h h.page0Address
  | _ => flashWriteHeader h 0

/-- The full page is erased once the block is in the other one. -/
def flashEraseFull (h : FlashInfo) (searchStatus : FlashSearchStatus) : FlashM Unit := do
  if searchStatus = .blockWriteFull0 then
    let _ ← flashEmptyDevice h.page0Address h.pageSize
  if searchStatus = .blockWriteFull1 then
    let _ ← flashEmptyDevice h.page1Address h.pageSize

/-- `flash_write` from the block on. -/
def flashStoreBlock (h : FlashInfo) (searchStatus : FlashSearchStatus) (blockAddress : BitVec 32)
    (data : List Byte) : FlashM FlashOperatorStatus := do
  setBlockBuffer (fillBlock h data)
  if ← flashWriteDevice blockAddress (← get).blockBuffer (h.blockSize.toNat / 4) then
    let st ← get
    if (List.range h.blockSize.toNat).any fun i => st.blockBuffer i != st.mem.bytes blockAddress i then
      return .writeDataErr
    flashEraseFull h searchStatus
    return .success
  else return .writeErr

/-- `flash_write`; `pbuffer` holds the `size` bytes at the pointer. -/
def flashWrite (Handler : Option FlashInfo) (pbuffer : Option (List Byte)) : FlashM FlashOperatorStatus :=
  match Handler, pbuffer with
  | some h, some data => do
    match flashFindBlock h .write (← get).mem with
    | .ok blockAddress => flashStoreBlock h (.ok blockAddress) blockAddress data
    | searchStatus =>
      match ← flashStartPage h searchStatus with
      | some blockAddress => flashStoreBlock h searchStatus blockAddress data
      | none => return .writeErr
  | _, _ => return .invalidParameter

end Stm32Handler.Flash
