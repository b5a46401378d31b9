import Stm32Handler.Flash.Driver

/-!
# Runs in which every device operation passes

With no fate left the RAM variants do what they do, and the state a step of
`flash_write` leaves can be written down: `emptied` and `wrote` are the two
device operations. Nothing is assumed about the handler or the pages.
-/

namespace Stm32Handler.Flash

section Run

variable {α β : Type} {x : FlashM α} {f : α → FlashM β} {st st' : FlashState}

theorem run_bind_ok {a : α} (hx : x.run st = .ok a st') : (x >>= f).run st = (f a).run st' := by
  rw [EStateM.run_bind, hx]

theorem run_bind_error (hx : x.run st = .error () st') : (x >>= f).run st = .error () st' := by
  rw [EStateM.run_bind, hx]

end Run

theorem setBlockBuffer_run (f : Buf → Buf) (st : FlashState) :
    (setBlockBuffer f).run st = .ok () { st with blockBuffer := f st.blockBuffer } := rfl

/-- After `flash_empty_device`. -/
def FlashState.emptied (st : FlashState) (address size : BitVec 32) : FlashState :=
  { st with
    mem := memClear st.mem address size.toNat
    calls := st.calls ++ [.empty address size] }

/-- After `flash_write_device`. -/
def FlashState.wrote (st : FlashState) (address : BitVec 32) (pbuffer : Buf) (size : ℕ) : FlashState :=
  { st with
    mem := storeWords st.mem address pbuffer size
    calls := st.calls ++ [.write address size] }

variable {h : FlashInfo} (st : FlashState) (hf : st.fates = [])
include hf

theorem nextFate_run (call : DeviceCall) :
    (nextFate call).run st = .ok .pass { st with calls := st.calls ++ [call] } := by
  obtain ⟨m, b, fates, calls⟩ := st
  subst hf
  rfl

theorem flashEmptyDevice_run (a size : BitVec 32) :
    (flashEmptyDevice a size).run st = .ok true (st.emptied a size) := by
  unfold flashEmptyDevice
  rw [run_bind_ok (nextFate_run st hf _)]
  rfl

theorem flashWriteDevice_run (a : BitVec 32) (b : Buf) (n : ℕ) :
    (flashWriteDevice a b n).run st = .ok true (st.wrote a b n) := by
  unfold flashWriteDevice
  rw [run_bind_ok (nextFate_run st hf _)]
  rfl

theorem flashEmptyUsedPage_run (a : BitVec 32) :
    (flashEmptyUsedPage h a).run st =
      .ok () (if st.mem.load32 a ≠ pageErased then st.emptied a h.pageSize else st) := by
  unfold flashEmptyUsedPage
  rw [run_bind_ok (EStateM.run_get _)]
  split
  · rw [run_bind_ok (flashEmptyDevice_run st hf _ _)]
    rfl
  · rfl

/-- The state after the header is written. -/
def FlashState.headed (h : FlashInfo) (st : FlashState) (pageAddr : BitVec 32) : FlashState :=
  { st with blockBuffer := finishPageHeader pageAddr st.blockBuffer }.wrote pageAddr
    (finishPageHeader pageAddr st.blockBuffer) (h.blockSize.toNat / 4)

theorem flashWriteHeader_run (a : BitVec 32) :
    (flashWriteHeader h a).run st = .ok (some (a + h.blockSize)) (st.headed h a) := by
  have hrun := flashWriteDevice_run { st with blockBuffer := finishPageHeader a st.blockBuffer } hf
    a (finishPageHeader a st.blockBuffer) (h.blockSize.toNat / 4)
  unfold flashWriteHeader
  rw [run_bind_ok (setBlockBuffer_run _ _), run_bind_ok (EStateM.run_get _), run_bind_ok hrun]
  rfl

/-- The state after the block is written. -/
def FlashState.stored (h : FlashInfo) (st : FlashState) (a : BitVec 32) (data : List Byte) : FlashState :=
  { st with blockBuffer := fillBlock h data st.blockBuffer }.wrote a
    (fillBlock h data st.blockBuffer) (h.blockSize.toNat / 4)

/-- `memcmp` decides what is left to do. -/
theorem flashStoreBlock_run (status : FlashSearchStatus) (a : BitVec 32) (data : List Byte) :
    (flashStoreBlock h status a data).run st =
      if (List.range h.blockSize.toNat).any fun i =>
          (st.stored h a data).blockBuffer i != (st.stored h a data).mem.bytes a i then
        .ok .writeDataErr (st.stored h a data)
      else (do flashEraseFull h status; return .success : FlashM FlashOperatorStatus).run
        (st.stored h a data) := by
  have hrun := flashWriteDevice_run { st with blockBuffer := fillBlock h data st.blockBuffer } hf
    a (fillBlock h data st.blockBuffer) (h.blockSize.toNat / 4)
  unfold flashStoreBlock
  rw [run_bind_ok (setBlockBuffer_run _ _), run_bind_ok (EStateM.run_get _), run_bind_ok hrun, if_pos rfl,
    run_bind_ok (EStateM.run_get _)]
  unfold FlashState.stored
  split
  · rfl
  · rfl

end Stm32Handler.Flash
