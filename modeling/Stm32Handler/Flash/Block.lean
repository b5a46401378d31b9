import Stm32Handler.Flash.Image

/-!
# Headers and blocks

`flashHeader h p` and `flashBlock h data` are what `flash_write` programs, as
far as a slot reaches: the rest of `block_buffer` does not matter
(`fillPageHeader_eq`, `fillBlock_eq`). A block carries its mark, its size, the
payload and a CRC that checks (`intact_flashBlock`).

`blockStatus` is the verdict of `flash_read` on a block, and `flashRead_current`
says a read is that verdict on the current slot of the log.
-/

namespace Stm32Handler.Flash

/-- `CALC_BLOCK_SIZE(size) <= block_size`. -/
def Fits (h : FlashInfo) (data : List Byte) : Prop :=
  data.length + (blockHeadSize + blockCrcSize) ≤ h.blockSize.toNat

instance (h : FlashInfo) (data : List Byte) : Decidable (Fits h data) :=
  inferInstanceAs (Decidable (_ ≤ _))

/-- The header block of a page. -/
def flashHeader (h : FlashInfo) (p : Bool) : Buf :=
  finishPageHeader (pageAddress h p) (fillPageHeader h fun _ => 0)

/-- The block with `data`. -/
def flashBlock (h : FlashInfo) (data : List Byte) : Buf := fillBlock h data fun _ => 0

/-- What `flash_read` makes of a block. -/
def blockStatus (h : FlashInfo) (f : Buf) : FlashOperatorStatus :=
  if calcBlockSize (word f 4) ≠ h.blockSize then .sizeErr
  else if flashCalcCrc16 f (h.blockSize.toNat - 2) = loadCrc f (h.blockSize.toNat - 2) then .success
  else .crcErr

/-- The first `n` payload bytes of a block. -/
def blockData (f : Buf) (n : ℕ) : List Byte := (List.range n).map fun i => f (blockHeadSize + i)

/-- A block that reads as `data`. -/
structure Intact (h : FlashInfo) (data : List Byte) (f : Buf) : Prop where
  mark : word f 0 = blockValid
  status : blockStatus h f = .success
  data_eq : blockData f data.length = data

variable {h : FlashInfo}

/-- A block that takes a payload has room for its header and CRC. -/
theorem Fits.le {data : List Byte} (hfit : Fits h data) (hc : Laid h) :
    12 ≤ h.blockSize.toNat := by
  have := hc.blockSize_aligned
  unfold Fits blockHeadSize blockCrcSize at hfit
  omega

/-! ## CRC -/

theorem crc_congr {f g : Buf} {n : ℕ} (hfg : ∀ i < n, f i = g i) :
    flashCalcCrc16 f n = flashCalcCrc16 g n := by
  unfold flashCalcCrc16
  refine List.foldl_ext _ _ _ fun crc i hi => ?_
  rw [hfg i (List.mem_range.1 hi)]

/-- The two CRC bytes of a block, put together again. -/
theorem crc_bytes (crc : BitVec 16) :
    ((crc >>> 8).setWidth 8).setWidth 16 <<< 8 ||| ((crc &&& 0xff).setWidth 8).setWidth 16 = crc := by
  have hlt := crc.isLt
  have hlow : (crc &&& 0xff).toNat = crc.toNat % 256 := by
    rw [BitVec.toNat_and]
    exact Nat.and_two_pow_sub_one_eq_mod crc.toNat 8
  have hhigh : (crc.toNat / 2 ^ 8 % 2 ^ 8 % 2 ^ 16) <<< 8 % 2 ^ 16 = (crc.toNat / 2 ^ 8) <<< 8 := by
    simp only [Nat.shiftLeft_eq]
    omega
  apply BitVec.eq_of_toNat_eq
  simp only [BitVec.toNat_or, BitVec.toNat_shiftLeft, BitVec.toNat_setWidth, BitVec.toNat_ushiftRight,
    hlow, Nat.shiftRight_eq_div_pow]
  rw [hhigh, show crc.toNat % 256 % 2 ^ 8 % 2 ^ 16 = crc.toNat % 256 by omega,
    ← Nat.shiftLeft_add_eq_or_of_lt (by omega), Nat.shiftLeft_eq]
  omega

theorem blockStatus_congr {f g : Buf} (hc : Laid h)
    (hfg : ∀ i < h.blockSize.toNat, f i = g i) : blockStatus h f = blockStatus h g := by
  have hbs := hc.eight_le
  have hword : word f 4 = word g 4 := word_congr fun k hk => hfg _ (by omega)
  have hcrc := crc_congr fun i (hi : i < h.blockSize.toNat - 2) => hfg i (by omega)
  have hload : loadCrc f (h.blockSize.toNat - 2) = loadCrc g (h.blockSize.toNat - 2) := by
    unfold loadCrc
    rw [hfg _ (by omega), hfg _ (by omega)]
  unfold blockStatus
  rw [hword, hcrc, hload]

theorem blockData_congr {f g : Buf} {n : ℕ} (hfg : ∀ i < n, f (blockHeadSize + i) = g (blockHeadSize + i)) :
    blockData f n = blockData g n :=
  List.map_congr_left fun i hi => hfg i (List.mem_range.1 hi)

theorem blockStatus_eq_success {f : Buf} :
    blockStatus h f = .success ↔ calcBlockSize (word f 4) = h.blockSize ∧
      flashCalcCrc16 f (h.blockSize.toNat - 2) = loadCrc f (h.blockSize.toNat - 2) := by
  unfold blockStatus
  split
  · next hsize => exact iff_of_false nofun fun hand => hsize hand.1
  next hsize =>
  rw [and_iff_right (not_not.1 hsize)]
  split
  · next hcrc => exact iff_of_true rfl hcrc
  · next hcrc => exact iff_of_false nofun hcrc

/-! ## The page header -/

theorem clearBlockBuffer_eq (b b' : Buf) {i : ℕ} (hi : i < maxBlockSize) :
    clearBlockBuffer b i = clearBlockBuffer b' i := by
  unfold clearBlockBuffer
  rw [Buf.blit_in ⟨Nat.zero_le i, by omega⟩, Buf.blit_in ⟨Nat.zero_le i, by omega⟩]

theorem fillPageHeader_eq (h : FlashInfo) (p : Bool) (b : Buf) {i : ℕ} (hi : i < maxBlockSize) :
    finishPageHeader (pageAddress h p) (fillPageHeader h b) i = flashHeader h p i := by
  have hfill : ∀ j < maxBlockSize, fillPageHeader h b j = fillPageHeader h (fun _ => 0) j :=
    fun j hj => Buf.blit_congr (Buf.blit_congr (Buf.blit_congr (Buf.blit_congr
      (clearBlockBuffer_eq _ _ hj))))
  have hpage : ∀ j < maxBlockSize, (fillPageHeader h b).store32 4 (pageAddress h p) j =
      (fillPageHeader h fun _ => 0).store32 4 (pageAddress h p) j := fun j hj =>
    Buf.blit_congr (hfill j hj)
  unfold flashHeader finishPageHeader
  rw [crc_congr fun j (hj : j < 22) => hpage j (Nat.lt_trans hj (by decide))]
  exact Buf.blit_congr (hpage i hi)

theorem page_flashHeader (h : FlashInfo) (p : Bool) : (flashLog h).page (flashHeader h p) = true := by
  apply beq_iff_eq.2
  unfold flashHeader finishPageHeader fillPageHeader
  simp only
  rw [Buf.word_blit_out (.inl (by decide)), Buf.store32, Buf.word_blit_out (.inl (by decide)),
    Buf.store32, Buf.word_blit_out (.inl (by decide)), Buf.store32,
    Buf.word_blit_out (.inl (by decide)), Buf.store32, Buf.word_blit_out (.inl (by decide)),
    Buf.word_store32]

/-! ## The block -/

theorem fillBlock_eq (hc : Accepted h) (data : List Byte) (b : Buf) {i : ℕ} (hi : i < maxBlockSize) :
    fillBlock h data b i = flashBlock h data i := by
  have hle := hc.blockSize_le
  have hdata : ∀ j < maxBlockSize,
      (((clearBlockBuffer b).store32 0 blockValid).store32 4 (calcBufferSize h.blockSize)).blit
          blockHeadSize data.length (fun i => data.getD i 0) j =
        (((clearBlockBuffer fun _ => 0).store32 0 blockValid).store32 4
          (calcBufferSize h.blockSize)).blit blockHeadSize data.length (fun i => data.getD i 0) j :=
    fun j hj => Buf.blit_congr (Buf.blit_congr (Buf.blit_congr (clearBlockBuffer_eq _ _ hj)))
  unfold flashBlock fillBlock
  rw [crc_congr fun j (hj : j < h.blockSize.toNat - 2) => hdata j (by omega)]
  exact Buf.blit_congr (hdata i hi)

theorem calcBlockSize_calcBufferSize (n : BitVec 32) : calcBlockSize (calcBufferSize n) = n := by
  unfold calcBlockSize calcBufferSize
  abel

theorem word0_flashBlock (hbs : 8 ≤ h.blockSize.toNat) (data : List Byte) :
    word (flashBlock h data) 0 = blockValid := by
  unfold flashBlock fillBlock
  simp only
  rw [Buf.word_blit_out (.inl (by omega)), Buf.word_blit_out (.inl (by decide)), Buf.store32,
    Buf.word_blit_out (.inl (by decide)), Buf.word_store32]

theorem block_flashBlock (hc : Laid h) (data : List Byte) :
    (flashLog h).block (flashBlock h data) = true :=
  beq_iff_eq.2 (word0_flashBlock hc.eight_le data)

section

variable {data : List Byte} (hbs : 12 ≤ h.blockSize.toNat) (hfit : Fits h data)
include hbs

theorem word4_flashBlock (data : List Byte) :
    word (flashBlock h data) 4 = calcBufferSize h.blockSize := by
  unfold flashBlock fillBlock
  simp only
  rw [Buf.word_blit_out (.inl (by omega)), Buf.word_blit_out (.inl (by decide)), Buf.word_store32]

omit hbs in
theorem crc_flashBlock (data : List Byte) :
    flashCalcCrc16 (flashBlock h data) (h.blockSize.toNat - 2) =
      loadCrc (flashBlock h data) (h.blockSize.toNat - 2) := by
  unfold flashBlock fillBlock
  simp only
  rw [crc_congr fun i (hi : i < h.blockSize.toNat - 2) => Buf.blit_out (by omega)]
  unfold loadCrc
  rw [Buf.blit_in ⟨by omega, by omega⟩, Buf.blit_in ⟨by omega, by omega⟩, Nat.sub_self,
    Nat.add_sub_cancel_left, if_pos rfl, if_neg Nat.one_ne_zero, crc_bytes]

theorem blockStatus_flashBlock (data : List Byte) : blockStatus h (flashBlock h data) = .success := by
  unfold blockStatus
  rw [word4_flashBlock hbs, calcBlockSize_calcBufferSize, if_neg (not_not.2 rfl),
    if_pos (crc_flashBlock data)]

include hfit

theorem blockData_flashBlock : blockData (flashBlock h data) data.length = data := by
  unfold Fits blockHeadSize blockCrcSize at hfit
  refine List.ext_getElem (by simp [blockData]) fun i h1 h2 => ?_
  simp only [blockData, List.getElem_map, List.getElem_range]
  unfold flashBlock fillBlock blockHeadSize
  rw [Buf.blit_out (by omega), Buf.blit_in ⟨by omega, by omega⟩, Nat.add_sub_cancel_left]
  exact (List.getElem_eq_getD 0).symm

theorem intact_flashBlock : Intact h data (flashBlock h data) where
  mark := word0_flashBlock (Nat.le_trans (by decide) hbs) data
  status := blockStatus_flashBlock hbs data
  data_eq := blockData_flashBlock hbs hfit

end

end Stm32Handler.Flash
