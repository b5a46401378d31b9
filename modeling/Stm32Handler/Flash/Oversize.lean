import Stm32Handler.Flash.Frame
import Stm32Handler.Flash.Wear

/-!
# Payloads that do not fit

`flash_write` copies `size` bytes behind the block header without looking at the
size. What does not fit is overwritten by the CRC and left behind in
`block_buffer`, where the next `flash_read` finds it again: a payload up to the
end of `block_buffer` is lost only in its two bytes at the place of the CRC, and
a longer one runs over the end of the buffer.
-/

namespace Stm32Handler.Flash

/-- The states `flash_write` reaches from erased pages, whatever the sizes. -/
inductive Written (h : FlashInfo) : FlashState → Prop where
  | erased {st : FlashState} : ErasedPages h st.mem → st.fates = [] → Written h st
  | write {st st' : FlashState} {data : List Byte} {e : FlashOperatorStatus} :
      Written h st → (flashWrite (some h) (some data)).run st = .ok e st' → Written h st'

/-- A payload is stored as a whole or refused: the call stays inside
`block_buffer`, and after success a read returns the payload, after an error the
pages are as before. -/
structure StoredOrRefused (h : FlashInfo) (st : FlashState) (data : List Byte) : Prop where
  inside : ∀ b i, blockBufferSize ≤ i →
    (endState ((flashWrite (some h) (some data)).run { st with blockBuffer := b })).blockBuffer i = b i
  outcome : ∀ e st', (flashWrite (some h) (some data)).run st = .ok e st' →
    (e = .success → Reads h st' data) ∧
      (e ≠ .success → ∀ p i, i < h.pageSize.toNat →
        st'.mem.bytes (pageAddress h p) i = st.mem.bytes (pageAddress h p) i)

/-- The CRC of the block with `data`. -/
def payloadCrc (h : FlashInfo) (data : List Byte) : BitVec 16 :=
  flashCalcCrc16 ((((clearBlockBuffer fun _ => 0).store32 0 blockValid).store32 4
    (calcBufferSize h.blockSize)).blit blockHeadSize data.length fun i => data.getD i 0)
    (h.blockSize.toNat - 2)

/-- The payload bytes at the place of the CRC, if there are any, are the CRC. -/
def CrcMatches (h : FlashInfo) (data : List Byte) : Prop :=
  (∀ b, data[h.blockSize.toNat - 10]? = some b → b = (payloadCrc h data >>> 8).setWidth 8) ∧
    ∀ b, data[h.blockSize.toNat - 9]? = some b → b = (payloadCrc h data &&& 0xff).setWidth 8

variable {h : FlashInfo} {st : FlashState} {data : List Byte}

theorem Written.clean (hc : Laid h) (hst : Written h st) : Clean h st := by
  induction hst with
  | erased hm hf => exact ⟨hf, .inl hm⟩
  | write _ hrun ih =>
    obtain ⟨st1, hrun1, -, hclean⟩ := ih.write hc _
    rw [hrun] at hrun1
    cases hrun1
    exact hclean

/-! ## `block_buffer` after a write -/

section Buffer

variable (hc : Laid h) (b : Buf) {i : ℕ}

theorem pageHeader_out (a : BitVec 32) (hi : maxBlockSize ≤ i) :
    finishPageHeader a (fillPageHeader h b) i = b i := by
  simp only [maxBlockSize] at hi
  unfold finishPageHeader fillPageHeader clearBlockBuffer Buf.store32
  rw [Buf.blit_out (by omega), Buf.blit_out (by omega), Buf.blit_out (by omega), Buf.blit_out (by omega),
    Buf.blit_out (by omega), Buf.blit_out (by omega), Buf.blit_out (by simp only [maxBlockSize]; omega)]

/-- The CRC goes to the last two bytes of the block. -/
theorem fillBlock_crc (data : List Byte) (hc : Accepted h) (h2 : 2 ≤ h.blockSize.toNat) (hi : i < 2) :
    fillBlock h data b (h.blockSize.toNat - 2 + i) =
      if i = 0 then (payloadCrc h data >>> 8).setWidth 8 else (payloadCrc h data &&& 0xff).setWidth 8 := by
  have hle := hc.blockSize_le
  rw [fillBlock_eq hc data b (by omega)]
  unfold flashBlock fillBlock
  rw [Buf.blit_in ⟨by omega, by omega⟩, Nat.add_sub_cancel_left]
  rfl

include hc

theorem fillBlock_data (hi : i < data.length)
    (hout : ¬ (h.blockSize.toNat - 2 ≤ blockHeadSize + i ∧ blockHeadSize + i < h.blockSize.toNat)) :
    fillBlock h data b (blockHeadSize + i) = data.getD i 0 := by
  have := hc.eight_le
  unfold fillBlock
  rw [Buf.blit_out (by omega), Buf.blit_in ⟨by omega, by omega⟩, Nat.add_sub_cancel_left]

theorem fillBlock_out (hi : maxBlockSize ≤ i) (hdata : blockHeadSize + data.length ≤ i) :
    fillBlock h data b i = b i := by
  have hle := hc.blockSize_le
  have := hc.eight_le
  simp only [maxBlockSize] at hi hle
  unfold fillBlock clearBlockBuffer Buf.store32
  rw [Buf.blit_out (by omega), Buf.blit_out (by omega), Buf.blit_out (by omega), Buf.blit_out (by omega),
    Buf.blit_out (by simp only [maxBlockSize]; omega)]

/-- What lies in `block_buffer` is the payload, but for the CRC. -/
theorem blockData_fillBlock_iff (hbs : 12 ≤ h.blockSize.toNat) :
    blockData (fillBlock h data b) data.length = data ↔ CrcMatches h data := by
  have hget : ∀ i < data.length, (blockData (fillBlock h data b) data.length)[i]? =
      some (fillBlock h data b (blockHeadSize + i)) := fun i hi => by
    simp [blockData, hi]
  constructor
  · intro heq
    refine ⟨fun x hx => ?_, fun x hx => ?_⟩
    · have hi := (List.getElem?_eq_some_iff.1 hx).1
      have hcrc := fillBlock_crc b data hc.toAccepted (by omega) Nat.zero_lt_two
      have hx' := hget _ hi
      rw [heq, hx, show blockHeadSize + (h.blockSize.toNat - 10) = h.blockSize.toNat - 2 + 0 by
        simp only [blockHeadSize]; omega, hcrc] at hx'
      exact Option.some.inj hx'
    · have hi := (List.getElem?_eq_some_iff.1 hx).1
      have hcrc := fillBlock_crc b data hc.toAccepted (by omega) Nat.one_lt_two
      have hx' := hget _ hi
      rw [heq, hx, show blockHeadSize + (h.blockSize.toNat - 9) = h.blockSize.toNat - 2 + 1 by
        simp only [blockHeadSize]; omega, hcrc] at hx'
      exact Option.some.inj hx'
  · rintro ⟨hhigh, hlow⟩
    refine List.ext_getElem? fun i => ?_
    by_cases hi : i < data.length
    · rw [hget i hi, List.getElem?_eq_getElem hi]
      by_cases hin : h.blockSize.toNat - 2 ≤ blockHeadSize + i ∧ blockHeadSize + i < h.blockSize.toNat
      · simp only [blockHeadSize] at hin
        have hplace : i = h.blockSize.toNat - 10 ∨ i = h.blockSize.toNat - 9 := by omega
        rcases hplace with he | he
        · rw [hhigh data[i] (by rw [← he, List.getElem?_eq_getElem hi]),
            show blockHeadSize + i = h.blockSize.toNat - 2 + 0 by simp only [blockHeadSize]; omega,
            fillBlock_crc b data hc.toAccepted (by omega) Nat.zero_lt_two, if_pos rfl]
        · rw [hlow data[i] (by rw [← he, List.getElem?_eq_getElem hi]),
            show blockHeadSize + i = h.blockSize.toNat - 2 + 1 by simp only [blockHeadSize]; omega,
            fillBlock_crc b data hc.toAccepted (by omega) Nat.one_lt_two, if_neg Nat.one_ne_zero]
      · rw [fillBlock_data hc b hi hin, List.getD_eq_getElem _ _ hi]
    · rw [List.getElem?_eq_none (Nat.not_lt.1 hi), List.getElem?_eq_none]
      simpa [blockData] using hi

end Buffer

/-- **A write leaves its block in `block_buffer`**, with the whole payload. -/
theorem flashWrite_buffer (hc : Laid h) (hst : Clean h st) (data : List Byte) :
    ∃ st' b, (flashWrite (some h) (some data)).run st = .ok .success st' ∧ Stores h st'.mem data ∧
      st'.blockBuffer = fillBlock h data b ∧ ∀ i, maxBlockSize ≤ i → b i = st.blockBuffer i := by
  obtain ⟨st', hrun, hstores, -⟩ := hst.write hc data
  rcases hst with ⟨hf, hm | ⟨old, img, p, n, hshow, hh, -⟩⟩
  · have hstate := flashWrite_first_state st hf hc (hm.shows hc) (fun _ _ => rfl) hrun
    exact ⟨st', _, hrun, hstores, by rw [hstate]; rfl, fun i hi => pageHeader_out st.blockBuffer _ hi⟩
  by_cases hn : n < (flashLog h).blocks
  · have hstate := flashWrite_slot_state st hf hc hshow hh.active_eq (hh.freeSlot_eq hn) hrun
    exact ⟨st', st.blockBuffer, hrun, hstores, by rw [hstate]; rfl, fun _ _ => rfl⟩
  · have hstate := flashWrite_switch_state st hf hc hshow hh (Nat.not_lt.1 hn) hrun
    exact ⟨st', _, hrun, hstores, by rw [hstate]; rfl, fun i hi => pageHeader_out st.blockBuffer _ hi⟩

/-- The read after a write takes the payload from `block_buffer`. -/
theorem reads_after_write_iff (hc : Laid h) (hbs : 12 ≤ h.blockSize.toNat)
    (hnum : 0 < (flashLog h).blocks) (hstores : Stores h st.mem data) {b : Buf}
    (hbuf : st.blockBuffer = fillBlock h data b) : Reads h st data ↔ CrcMatches h data := by
  obtain ⟨img, p, n, hshow, hh, hblock⟩ := hstores
  have hblit : st.blockBuffer.blit 0 h.blockSize.toNat (flashBlock h data) = fillBlock h data b := by
    have hsize := hc.blockSize_le
    funext i
    rw [hbuf]
    by_cases hi : i < h.blockSize.toNat
    · rw [Buf.blit_in ⟨Nat.zero_le i, by omega⟩, Nat.sub_zero, fillBlock_eq hc.toAccepted data b (by omega)]
    · rw [Buf.blit_out (by omega)]
  have hrun := fun buf => flashRead_buffer hc hshow (hh.current_eq (hh.le_blocks hnum)) buf
  simp only [hblock, hblit, blockStatus_flashBlock hbs data, ↓reduceIte] at hrun
  rw [← blockData_fillBlock_iff hc b hbs]
  constructor
  · intro hreads
    obtain ⟨st1, hrun1⟩ := hreads data rfl
    obtain ⟨st2, hrun2, -⟩ := hrun data
    rw [hrun1] at hrun2
    simp only [EStateM.Result.ok.injEq, Prod.mk.injEq, Option.some.injEq, true_and] at hrun2
    exact hrun2.1.symm
  · intro hdata buf hlen
    obtain ⟨st', hrun', -⟩ := hrun buf
    rw [hlen, hdata] at hrun'
    exact ⟨st', hrun'⟩

/-- The call stays inside `block_buffer` iff the payload does. -/
theorem inside_iff (hc : Laid h) (hst : Clean h st) (data : List Byte) :
    (∀ b i, blockBufferSize ≤ i →
      (endState ((flashWrite (some h) (some data)).run { st with blockBuffer := b })).blockBuffer i = b i) ↔
      blockHeadSize + data.length ≤ blockBufferSize := by
  have hclean : ∀ b, Clean h { st with blockBuffer := b } := fun _ => hst
  have hrun := fun b => flashWrite_buffer hc (hclean b) data
  constructor
  · intro hin
    by_contra hlong
    have hi : blockBufferSize - blockHeadSize < data.length := by
      simp only [blockHeadSize, blockBufferSize, maxBlockSize] at hlong ⊢
      omega
    -- a byte that differs from the payload's
    have hne : ∃ x, x ≠ data.getD (blockBufferSize - blockHeadSize) 0 := by
      by_cases h0 : data.getD (blockBufferSize - blockHeadSize) 0 = 0
      · exact ⟨1, by rw [h0]; decide⟩
      · exact ⟨0, fun e => h0 e.symm⟩
    obtain ⟨x, hx⟩ := hne
    obtain ⟨st', b, hrun, -, hbuf, -⟩ := hrun fun _ => x
    have hle := hc.blockSize_le
    have hdata := fillBlock_data hc b hi (by
      simp only [blockHeadSize, blockBufferSize, maxBlockSize] at hle ⊢
      omega)
    have hsame := hin (fun _ => x) blockBufferSize (Nat.le_refl _)
    rw [hrun] at hsame
    exact hx (hsame.symm.trans ((congrFun hbuf _).trans hdata))
  · intro hshort b i hi
    obtain ⟨st', b', hrun, -, hbuf, hb'⟩ := hrun b
    have hmax : maxBlockSize ≤ i := Nat.le_trans (by decide) hi
    rw [hrun]
    show st'.blockBuffer i = b i
    rw [hbuf, fillBlock_out hc b' hmax (Nat.le_trans hshort hi)]
    exact hb' i hmax

/-- **A payload is stored or refused exactly when** blocks are searched at all,
it ends in `block_buffer` and the CRC overwrites none of it with another value. -/
theorem stored_or_refused_iff (h : FlashInfo) (hc : Configured h) (hbs : 12 ≤ h.blockSize.toNat)
    (st : FlashState) (hst : Written h st) (data : List Byte) :
    StoredOrRefused h st data ↔ h.blockNum.toNat % 65536 ≠ 0 ∧
      blockHeadSize + data.length ≤ blockBufferSize ∧ CrcMatches h data := by
  have hc := hc.laid
  have hclean := hst.clean hc
  have hblocks : (flashLog h).blocks = h.blockNum.toNat % 65536 := BitVec.toNat_setWidth _ _
  obtain ⟨st', b, hrun, hstores, hbuf, -⟩ := flashWrite_buffer hc hclean data
  -- the call succeeds, so all depends on the read
  have hiff : StoredOrRefused h st data ↔
      blockHeadSize + data.length ≤ blockBufferSize ∧ Reads h st' data := by
    rw [← inside_iff hc hclean data]
    constructor
    · rintro ⟨hin, hout⟩
      exact ⟨hin, (hout _ _ hrun).1 rfl⟩
    · rintro ⟨hin, hreads⟩
      refine ⟨hin, fun e st1 hrun1 => ?_⟩
      rw [hrun] at hrun1
      cases hrun1
      exact ⟨fun _ => hreads, fun hne => absurd rfl hne⟩
  rw [hiff]
  by_cases hnum : h.blockNum.toNat % 65536 = 0
  · obtain ⟨img, p, n, hshow, -, -⟩ := hstores
    have hcur := PageLog.current_eq_none (hblocks.trans hnum) img
    exact iff_of_false (fun hand => not_reads_of_none hc hshow hcur data hand.2) fun hand => hand.1 hnum
  · rw [reads_after_write_iff hc hbs (by omega) hstores hbuf]
    exact (and_iff_right hnum).symm

theorem zeroFlash_written : Written smallFlash zeroFlash := .erased (fun _ _ _ => rfl) rfl

/-- Six bytes fill a block of 16. -/
theorem stored_six : StoredOrRefused smallFlash zeroFlash [1, 2, 3, 4, 5, 6] :=
  (stored_or_refused_iff smallFlash smallFlash_configured (by decide) zeroFlash zeroFlash_written
    [1, 2, 3, 4, 5, 6]).2 ⟨by decide, by decide, nofun, nofun⟩

/-- Seven bytes: the last one is overwritten by the CRC. -/
theorem not_stored_seven : ¬ ∀ h, Configured h → 12 ≤ h.blockSize.toNat → ∀ st, Written h st →
    ∀ data : List Byte, data.length ≤ 65535 → StoredOrRefused h st data := by
  intro hall
  have hclean := zeroFlash_written.clean smallFlash_configured.laid
  obtain ⟨-, hout⟩ := hall smallFlash smallFlash_configured (by decide) zeroFlash zeroFlash_written
    [1, 2, 3, 4, 5, 6, 7] (by decide)
  obtain ⟨st', b, hrun, hstores, hbuf, -⟩ :=
    flashWrite_buffer smallFlash_configured.laid hclean [1, 2, 3, 4, 5, 6, 7]
  have hreads := (hout _ _ hrun).1 rfl
  rw [reads_after_write_iff smallFlash_configured.laid (by decide) (by decide) hstores hbuf] at hreads
  exact absurd (hreads.1 7 rfl) (by decide +kernel)

end Stm32Handler.Flash
