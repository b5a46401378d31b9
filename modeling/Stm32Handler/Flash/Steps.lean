import Stm32Handler.Flash.Block
import Stm32Handler.Flash.Passing

/-!
# The driver's steps on the page log

Each step of `flash_write` is followed on the slots: `At h img fates st` says
the memory of `st` shows `img` and `fates` are still to come. A device
operation that passes is the put or erase of the page log, one that fails
changes nothing, and a power loss ends the run in the image it had reached.

`flashRead_current` is the specification of `flash_read`; the steps of
`flash_write` have a lemma for each way they end and are put together in
`Flash.Write`.
-/

namespace Stm32Handler.Flash

/-- The memory shows `img`, and `fates` are to come. -/
structure At (h : FlashInfo) (img : Slots Buf) (fates : List Fate) (st : FlashState) : Prop where
  shows : Shows h st.mem img
  fates_eq : st.fates = fates

theorem At.setBuffer {h : FlashInfo} {img : Slots Buf} {fates : List Fate} {st : FlashState}
    (hst : At h img fates st) (b : Buf) : At h img fates { st with blockBuffer := b } :=
  ⟨hst.shows, hst.fates_eq⟩

variable {h : FlashInfo} {img : Slots Buf} {fates : List Fate} {st : FlashState} {p : Bool}

/-! ## Device operations -/

theorem flashEmptyDevice_pass (hc : Laid h) (hst : At h img fates st)
    (hf : fates.headD .pass = .pass) (p : Bool) :
    ∃ st', (flashEmptyDevice (pageAddress h p) h.pageSize).run st = .ok true st' ∧
      At h (img.erase p (flashLog h).blank) fates.tail st' ∧ st'.blockBuffer = st.blockBuffer := by
  obtain ⟨hshow, rfl⟩ := hst
  unfold flashEmptyDevice nextFate
  simp only [EStateM.run_bind, EStateM.run_modifyGet, hf]
  exact ⟨_, rfl, ⟨hshow.erase hc p, rfl⟩, rfl⟩

theorem flashEmptyDevice_fail (hst : At h img fates st) (hf : fates.headD .pass = .fail)
    (a size : BitVec 32) :
    ∃ st', (flashEmptyDevice a size).run st = .ok false st' ∧ At h img fates.tail st' ∧
      st'.blockBuffer = st.blockBuffer := by
  obtain ⟨hshow, rfl⟩ := hst
  unfold flashEmptyDevice nextFate
  simp only [EStateM.run_bind, EStateM.run_modifyGet, hf]
  exact ⟨_, rfl, ⟨hshow, rfl⟩, rfl⟩

theorem flashEmptyDevice_lost (hst : At h img fates st) (hf : fates.headD .pass = .lost 0)
    (a size : BitVec 32) :
    ∃ st', (flashEmptyDevice a size).run st = .error () st' ∧ At h img fates.tail st' := by
  obtain ⟨hshow, rfl⟩ := hst
  unfold flashEmptyDevice nextFate
  simp only [EStateM.run_bind, EStateM.run_modifyGet, hf]
  refine ⟨_, rfl, ?_, rfl⟩
  show Shows h (memClear st.mem a (min (0 * 4) size.toNat)) img
  rwa [Nat.zero_mul, Nat.zero_min, memClear, Mem.blit_zero]

theorem flashWriteDevice_pass (hc : Laid h) (hst : At h img fates st)
    (hf : fates.headD .pass = .pass) {s : ℕ} {f g : Buf} (hs : s ≤ h.blockNum.toNat)
    (hfg : ∀ i < h.blockSize.toNat, f i = g i) :
    ∃ st', (flashWriteDevice (slotAddress h p s) f (h.blockSize.toNat / 4)).run st = .ok true st' ∧
      At h (img.put p s g) fates.tail st' ∧ st'.blockBuffer = st.blockBuffer := by
  obtain ⟨hshow, rfl⟩ := hst
  unfold flashWriteDevice nextFate
  simp only [EStateM.run_bind, EStateM.run_modifyGet, hf]
  exact ⟨_, rfl, ⟨hshow.put hc p hs hfg, rfl⟩, rfl⟩

theorem flashWriteDevice_fail (hst : At h img fates st) (hf : fates.headD .pass = .fail)
    (a : BitVec 32) (f : Buf) (n : ℕ) :
    ∃ st', (flashWriteDevice a f n).run st = .ok false st' ∧ At h img fates.tail st' := by
  obtain ⟨hshow, rfl⟩ := hst
  unfold flashWriteDevice nextFate
  simp only [EStateM.run_bind, EStateM.run_modifyGet, hf]
  exact ⟨_, rfl, hshow, rfl⟩

/-- The power is lost after `j` words of a block. -/
theorem flashWriteDevice_lost (hc : Laid h) (hst : At h img fates st) {j : ℕ}
    (hf : fates.headD .pass = .lost j) {s : ℕ} (f : Buf) (hs : s ≤ h.blockNum.toNat)
    (hj : j ≤ h.blockSize.toNat / 4) :
    ∃ st', (flashWriteDevice (slotAddress h p s) f (h.blockSize.toNat / 4)).run st = .error () st' ∧
      At h (img.put p s ((img p s).blit 0 (j * 4) f)) fates.tail st' := by
  obtain ⟨hshow, rfl⟩ := hst
  unfold flashWriteDevice nextFate
  simp only [EStateM.run_bind, EStateM.run_modifyGet, hf]
  refine ⟨_, rfl, ?_, rfl⟩
  show Shows h (storeWords st.mem (slotAddress h p s) f (min j (h.blockSize.toNat / 4))) _
  rw [Nat.min_eq_left hj]
  exact hshow.putTorn hc p f hs hj

theorem put_blit_zero (img : Slots Buf) (p : Bool) (s : ℕ) (f : Buf) :
    img.put p s ((img p s).blit 0 (0 * 4) f) = img := by
  have hblit : (img p s).blit 0 (0 * 4) f = img p s := funext fun j => Buf.blit_out (by omega)
  funext q t
  rw [hblit, Slots.put]
  split
  · next hqt => rw [hqt.1, hqt.2]
  · rfl

/-! ## Read -/

/-- After the loop of `flash_read_device` the buffer holds the block. -/
theorem flashReadDevice_run (st : FlashState) (a : BitVec 32) (n : ℕ) :
    (flashReadDevice a n).run st =
      .ok true { st with blockBuffer := st.blockBuffer.blit 0 (n * 4) (st.mem.bytes a) } := by
  unfold flashReadDevice
  simp only [EStateM.run_bind, EStateM.run_modify, EStateM.run_pure, Mem.load32_offset,
    Buf.foldl_store32]

/-- A read is the verdict on the current block; what lies behind the block in
`block_buffer` is copied out with it. -/
theorem flashRead_buffer (hc : Laid h) (hshow : Shows h st.mem img) {s : ℕ}
    (hcur : (flashLog h).current img = some (p, s)) (buf : List Byte) :
    ∃ st', (flashRead (some h) (some buf)).run st =
        .ok (blockStatus h (img p s), some (if blockStatus h (img p s) = .success then
          blockData (st.blockBuffer.blit 0 h.blockSize.toNat (img p s)) buf.length else buf)) st' ∧
      st'.mem = st.mem ∧ st'.fates = st.fates := by
  have hbs := hc.eight_le
  have hle : s ≤ h.blockNum.toNat :=
    Nat.le_trans (PageLog.lastBlock_eq_some.1 (PageLog.current_eq_some.1 hcur).2).1.2 (blocks_le h)
  -- the buffer and the slot agree on the block
  have hmem : ∀ i < h.blockSize.toNat, st.mem.bytes (slotAddress h p s) i = img p s i := fun i hi =>
    hshow.bytes_slot hle hi
  have hblk : st.blockBuffer.blit 0 (h.blockSize.toNat / 4 * 4) (st.mem.bytes (slotAddress h p s)) =
      st.blockBuffer.blit 0 h.blockSize.toNat (img p s) := by
    funext i
    rw [hc.words_eq]
    unfold Buf.blit
    split
    · exact hmem _ (by omega)
    · rfl
  have hin : ∀ i < h.blockSize.toNat,
      st.blockBuffer.blit 0 h.blockSize.toNat (img p s) i = img p s i := fun i hi => by
    rw [Buf.blit_in ⟨Nat.zero_le i, by omega⟩, Nat.sub_zero]
  have hword := word_congr fun k (hk : k < 4) => hin (4 + k) (by omega)
  have hcrc := crc_congr fun i (hi : i < h.blockSize.toNat - 2) => hin i (by omega)
  have hload : loadCrc (st.mem.bytes (slotAddress h p s)) (h.blockSize.toNat - 2) =
      loadCrc (img p s) (h.blockSize.toNat - 2) := by
    unfold loadCrc
    rw [hmem _ (by omega), hmem _ (by omega)]
  unfold flashRead blockStatus
  simp only [EStateM.run_bind, EStateM.run_get, flashFindBlock_read hc hshow hcur, flashReadDevice_run,
    ↓reduceIte, hblk, hword, hcrc, hload]
  by_cases hsize : calcBlockSize (word (img p s) 4) = h.blockSize
  · simp only [hsize, ne_eq, not_true_eq_false, ↓reduceIte]
    by_cases hok : flashCalcCrc16 (img p s) (h.blockSize.toNat - 2) =
        loadCrc (img p s) (h.blockSize.toNat - 2)
    · simp only [hok, ↓reduceIte]
      exact ⟨_, rfl, rfl, rfl⟩
    · simp only [hok, ↓reduceIte]
      exact ⟨_, rfl, rfl, rfl⟩
  · simp only [hsize, ne_eq, not_false_eq_true, ↓reduceIte]
    exact ⟨_, rfl, rfl, rfl⟩

/-- **A read is the verdict on the current block.** -/
theorem flashRead_current (hc : Laid h) (hshow : Shows h st.mem img) {s : ℕ}
    (hcur : (flashLog h).current img = some (p, s)) {buf : List Byte}
    (hbuf : blockHeadSize + buf.length ≤ h.blockSize.toNat) :
    ∃ st', (flashRead (some h) (some buf)).run st =
        .ok (blockStatus h (img p s), some (if blockStatus h (img p s) = .success then
          blockData (img p s) buf.length else buf)) st' ∧
      st'.mem = st.mem ∧ st'.fates = st.fates := by
  obtain ⟨st', hrun, hmem, hfates⟩ := flashRead_buffer hc hshow hcur buf
  have hdata : blockData (st.blockBuffer.blit 0 h.blockSize.toNat (img p s)) buf.length =
      blockData (img p s) buf.length :=
    blockData_congr fun i (hi : i < buf.length) => by
      rw [Buf.blit_in ⟨Nat.zero_le _, by omega⟩, Nat.sub_zero]
  rw [hdata] at hrun
  exact ⟨st', hrun, hmem, hfates⟩

/-- Without a current block a read finds no block. -/
theorem flashRead_none (hc : Laid h) (hshow : Shows h st.mem img)
    (hcur : (flashLog h).current img = none) (buf : List Byte) :
    (flashRead (some h) (some buf)).run st = .ok (.blockErr, some buf) st := by
  have hfind := flashFindBlock_read_none hc hshow hcur
  unfold flashRead
  simp only [EStateM.run_bind, EStateM.run_get]
  rfl

/-! ## Write -/

theorem pageAddress_slot (h : FlashInfo) (p : Bool) : slotAddress h p 0 = pageAddress h p := by
  unfold slotAddress
  rw [Nat.zero_mul, BitVec.add_zero]

theorem pageAddress_first (h : FlashInfo) (p : Bool) :
    pageAddress h p + h.blockSize = slotAddress h p 1 := by
  unfold slotAddress
  rw [Nat.one_mul, BitVec.ofNat_toNat, BitVec.setWidth_eq]

/-- The erase of a page in use, when everything passes. -/
theorem flashEmptyUsedPage_pass (hc : Laid h) (hst : At h img [] st) (img0 : Slots Buf)
    (himg : img p 0 = img0 p 0) :
    ∃ st', (flashEmptyUsedPage h (pageAddress h p)).run st = .ok () st' ∧
      At h ((flashLog h).applyOps img ((flashLog h).eraseUnlessFree img0 p)) [] st' ∧
      st'.blockBuffer = st.blockBuffer := by
  have hval := hst.shows.load32_page hc p
  have hfree : (flashLog h).free (img0 p 0) = true ↔ st.mem.load32 (pageAddress h p) = pageErased := by
    rw [hval, himg]
    exact beq_iff_eq
  unfold flashEmptyUsedPage PageLog.eraseUnlessFree
  by_cases hf : (flashLog h).free (img0 p 0) = true
  · simp only [EStateM.run_bind, EStateM.run_get, hfree.1 hf, hf, ne_eq, not_true_eq_false, ↓reduceIte]
    exact ⟨st, rfl, hst, rfl⟩
  · obtain ⟨st', hrun, hat, hbuf⟩ := flashEmptyDevice_pass hc hst rfl p
    rw [if_neg hf, run_bind_ok (EStateM.run_get _), if_pos fun e => hf (hfree.2 e), run_bind_ok hrun]
    exact ⟨st', rfl, hat, hbuf⟩

theorem flashEmptyUsedPage_free (hc : Laid h) (hst : At h img fates st)
    (hf : (flashLog h).free (img p 0) = true) :
    (flashEmptyUsedPage h (pageAddress h p)).run st = .ok () st := by
  have hval : st.mem.load32 (pageAddress h p) = pageErased := by
    rw [hst.shows.load32_page hc]
    exact beq_iff_eq.1 hf
  unfold flashEmptyUsedPage
  simp only [EStateM.run_bind, EStateM.run_get, hval, ne_eq, not_true_eq_false, ↓reduceIte]
  rfl

section Header

variable {b : Buf} (hc : Laid h) (hst : At h img fates st)
  (hbuf : st.blockBuffer = fillPageHeader h b)
include hc hst hbuf

theorem flashWriteHeader_pass (hf : fates.headD .pass = .pass) :
    ∃ st', (flashWriteHeader h (pageAddress h p)).run st = .ok (some (slotAddress h p 1)) st' ∧
      At h (img.put p 0 (flashHeader h p)) fates.tail st' := by
  have hle := hc.blockSize_le
  have hhdr : ∀ i < h.blockSize.toNat,
      finishPageHeader (pageAddress h p) st.blockBuffer i = flashHeader h p i := fun i hi => by
    rw [hbuf]
    exact fillPageHeader_eq h p b (Nat.lt_of_lt_of_le hi hle)
  unfold flashWriteHeader
  rw [run_bind_ok (setBlockBuffer_run _ _), run_bind_ok (EStateM.run_get _)]
  obtain ⟨st', hrun, hat, -⟩ := flashWriteDevice_pass (p := p) (s := 0) hc
    (hst.setBuffer (finishPageHeader (pageAddress h p) st.blockBuffer)) hf (Nat.zero_le _) hhdr
  rw [pageAddress_slot] at hrun
  rw [run_bind_ok hrun, if_pos rfl, pageAddress_first]
  exact ⟨st', rfl, hat⟩

omit hbuf in
omit hc in
theorem flashWriteHeader_fail (hf : fates.headD .pass = .fail) (a : BitVec 32) :
    ∃ st', (flashWriteHeader h a).run st = .ok none st' ∧ At h img fates.tail st' := by
  unfold flashWriteHeader
  rw [run_bind_ok (setBlockBuffer_run _ _), run_bind_ok (EStateM.run_get _)]
  obtain ⟨st', hrun, hat⟩ := flashWriteDevice_fail
    (hst.setBuffer (finishPageHeader a st.blockBuffer)) hf a _ _
  rw [run_bind_ok hrun]
  exact ⟨st', rfl, hat⟩

omit hbuf in
theorem flashWriteHeader_lost (hf : fates.headD .pass = .lost 0) :
    ∃ st', (flashWriteHeader h (pageAddress h p)).run st = .error () st' ∧ At h img fates.tail st' := by
  unfold flashWriteHeader
  rw [run_bind_ok (setBlockBuffer_run _ _), run_bind_ok (EStateM.run_get _)]
  obtain ⟨st', hrun, hat⟩ := flashWriteDevice_lost (p := p) (s := 0) hc
    (hst.setBuffer (finishPageHeader (pageAddress h p) st.blockBuffer)) hf
    (finishPageHeader (pageAddress h p) st.blockBuffer) (Nat.zero_le _) (Nat.zero_le _)
  rw [pageAddress_slot] at hrun
  rw [put_blit_zero] at hat
  rw [run_bind_error hrun]
  exact ⟨st', rfl, hat⟩

end Header

section Block

variable {s : ℕ} (status : FlashSearchStatus) (data : List Byte) (hc : Laid h)
  (hst : At h img fates st)
include hc hst

/-- Once the block is programmed and compared, only the full page is left to erase. -/
theorem flashStoreBlock_pass (hs : s ≤ h.blockNum.toNat) (hf : fates.headD .pass = .pass) :
    ∃ st', (flashStoreBlock h status (slotAddress h p s) data).run st =
        (do flashEraseFull h status; return .success : FlashM FlashOperatorStatus).run st' ∧
      At h (img.put p s (flashBlock h data)) fates.tail st' := by
  have hle := hc.blockSize_le
  have hblk : ∀ i < h.blockSize.toNat, fillBlock h data st.blockBuffer i = flashBlock h data i :=
    fun i hi => fillBlock_eq hc.toAccepted data _ (Nat.lt_of_lt_of_le hi hle)
  obtain ⟨st', hrun, hat, hbuf⟩ := flashWriteDevice_pass (p := p) (s := s) hc
    (hst.setBuffer (fillBlock h data st.blockBuffer)) hf hs hblk
  have hcmp : ((List.range h.blockSize.toNat).any fun i =>
      st'.blockBuffer i != st'.mem.bytes (slotAddress h p s) i) = false := by
    refine List.any_eq_false.2 fun i hi => ?_
    rw [List.mem_range] at hi
    rw [hat.shows.bytes_slot hs hi, Slots.put_same, hbuf, ← hblk i hi]
    simp
  refine ⟨st', ?_, hat⟩
  unfold flashStoreBlock
  rw [run_bind_ok (setBlockBuffer_run _ _), run_bind_ok (EStateM.run_get _), run_bind_ok hrun,
    if_pos rfl, run_bind_ok (EStateM.run_get _), hcmp]
  rfl

omit hc in
theorem flashStoreBlock_fail (hf : fates.headD .pass = .fail) (a : BitVec 32) :
    ∃ st', (flashStoreBlock h status a data).run st = .ok .writeErr st' ∧ At h img fates.tail st' := by
  unfold flashStoreBlock
  rw [run_bind_ok (setBlockBuffer_run _ _), run_bind_ok (EStateM.run_get _)]
  obtain ⟨st', hrun, hat⟩ := flashWriteDevice_fail
    (hst.setBuffer (fillBlock h data st.blockBuffer)) hf a _ _
  rw [run_bind_ok hrun]
  exact ⟨st', rfl, hat⟩

theorem flashStoreBlock_lost (hs : s ≤ h.blockNum.toNat) {j : ℕ} (hf : fates.headD .pass = .lost j)
    (hj : j ≤ h.blockSize.toNat / 4) :
    ∃ st', (flashStoreBlock h status (slotAddress h p s) data).run st = .error () st' ∧
      At h (img.put p s ((img p s).blit 0 (j * 4) (flashBlock h data))) fates.tail st' := by
  have hle := hc.blockSize_le
  have hmul := hc.words_eq
  unfold flashStoreBlock
  rw [run_bind_ok (setBlockBuffer_run _ _), run_bind_ok (EStateM.run_get _)]
  obtain ⟨st', hrun, hat⟩ := flashWriteDevice_lost (p := p) (s := s) hc
    (hst.setBuffer (fillBlock h data st.blockBuffer)) hf (fillBlock h data st.blockBuffer) hs hj
  rw [run_bind_error hrun]
  refine ⟨st', rfl, hat.shows.congr fun q t i hi => ?_, hat.fates_eq⟩
  unfold Slots.put
  split
  · unfold Buf.blit
    split
    · exact fillBlock_eq hc.toAccepted data _ (by omega)
    · rfl
  · rfl

end Block

/-! ## The whole call -/

theorem flashEraseFull_none {status : FlashSearchStatus} (h0 : status ≠ .blockWriteFull0)
    (h1 : status ≠ .blockWriteFull1) (st : FlashState) :
    (flashEraseFull h status).run st = .ok () st := by
  unfold flashEraseFull
  simp only [h0, h1, ↓reduceIte]
  rfl

/-- After a switch the erase of the full page is one device operation. -/
theorem flashEraseFull_full (h : FlashInfo) (p : Bool) (st : FlashState) :
    (flashEraseFull h (fullStatus p)).run st =
      (do let _ ← flashEmptyDevice (pageAddress h p) h.pageSize : FlashM Unit).run st := by
  cases p
  · rfl
  · rfl

/-- A started page for the full page `p` is the header of the other one. -/
theorem flashStartPage_full (h : FlashInfo) (p : Bool) :
    flashStartPage h (fullStatus p) = (do
      setBlockBuffer (fillPageHeader h)
      flashEmptyUsedPage h (pageAddress h (!p))
      flashWriteHeader h (pageAddress h (!p))) := by
  cases p <;> rfl

theorem flashStartPage_none {status : FlashSearchStatus}
    (hs : status = .pageEmpty ∨ status = .pageMultiInvalid) :
    flashStartPage h status = (do
      setBlockBuffer (fillPageHeader h)
      flashEmptyUsedPage h (pageAddress h false)
      flashEmptyUsedPage h (pageAddress h true)
      flashWriteHeader h (pageAddress h false)) := by
  rcases hs with rfl | rfl <;> rfl

end Stm32Handler.Flash
