import Stm32Handler.Flash.RoundTrip

/-!
# A reported success

`flash_write` fills the first erased slot of a page, `flash_read` takes the last
marked one, and a page whose first word is erased is not erased again before
its header is written. So block marks left above the new block hide it, although
`memcmp` has compared it and `flash_write` has returned `FLASH_OP_SUCCESS`. The
states `flash_write` itself reaches from erased pages have no such marks
(`Clean.unhidden`).

`flash_write_reads_iff` says, for every content of the pages, when the next
read returns what was written.
-/

namespace Stm32Handler.Flash

/-- The slots of a memory. -/
def pageSlots (h : FlashInfo) (m : Mem 32) : Slots Buf :=
  fun p s i => m.bytes (pageAddress h p) (s * h.blockSize.toNat + i)

/-- Blocks are searched, and the block left above the target slot, if there is
one, is intact with the same payload. -/
def Unhidden (h : FlashInfo) (m : Mem 32) (data : List Byte) : Prop :=
  (h.blockNum.setWidth 16).toNat ≠ 0 ∧
    ∀ t, (flashLog h).shadow (pageSlots h m) = some t →
      Intact h data ((flashLog h).stale (pageSlots h m) t)

variable {h : FlashInfo} {img : Slots Buf} {st : FlashState} {data : List Byte}

/-- A read of the log a write leaves. -/
theorem reads_written_iff (hc : Laid h) {m : Mem 32} (hfit : Fits h data)
    (hshow : Shows h st.mem (written h (pageSlots h m) data)) :
    Reads h st data ↔ Unhidden h m data := by
  have hbs := hfit.le hc
  by_cases hnum : (h.blockNum.setWidth 16).toNat = 0
  · -- no block is searched
    have hcur := PageLog.current_eq_none (show (flashLog h).blocks = 0 from hnum)
      (written h (pageSlots h m) data)
    exact iff_of_false (not_reads_of_none hc hshow hcur data) fun hand => hand.1 hnum
  have hpos : 0 < (flashLog h).blocks := Nat.pos_of_ne_zero hnum
  have hhdr := page_flashHeader h
  cases hs : (flashLog h).shadow (pageSlots h m) with
  | none =>
    obtain ⟨hcur, hblock⟩ := PageLog.current_after hhdr (block_flashBlock hc data) hpos hs
    have hreads : Reads h st data := by
      rw [reads_iff_intact hc hshow hcur hfit, written, hblock]
      exact intact_flashBlock hbs hfit
    refine iff_of_true hreads ⟨hnum, fun t ht => ?_⟩
    rw [hs] at ht
    cases ht
  | some t =>
    -- the block above is read
    obtain ⟨hcur, hstale⟩ := PageLog.current_after_shadow hhdr hs (b := flashBlock h data)
    rw [reads_iff_intact hc hshow hcur hfit, written, hstale]
    unfold Unhidden
    rw [hs]
    constructor
    · intro hok
      refine ⟨hnum, fun u hu => ?_⟩
      cases hu
      exact hok
    · exact fun hand => hand.2 t rfl

/-- Reachable states hide nothing. -/
theorem Clean.unhidden (hc : Laid h) (hst : Clean h st) (hnum : 0 < (flashLog h).blocks)
    (hfit : Fits h data) : Unhidden h st.mem data := by
  obtain ⟨st1, hrun1, hstores, -⟩ := hst.write hc data
  obtain ⟨st2, hrun2, hat2⟩ := flashWrite_pass hc
    (show At h (pageSlots h st.mem) [] st from ⟨Shows.self h st.mem, hst.1⟩) data
  rw [hrun1] at hrun2
  cases hrun2
  exact (reads_written_iff hc hfit hat2.shows).1 (hstores.reads hc hnum hfit)

/-- **When a reported success is what the next read returns**: `flash_write`
always reports it, and the read returns the payload iff no other block hides
the new one. -/
theorem flash_write_reads_iff (h : FlashInfo) (hc : Configured h) (hbs : 12 ≤ h.blockSize.toNat)
    (st : FlashState) (hf : st.fates = []) (data : List Byte)
    (hle : data.length ≤ (calcBufferSize h.blockSize).toNat) :
    (∀ st', (flashWrite (some h) (some data)).run st = .ok .success st' → Reads h st' data) ↔
      Unhidden h st.mem data := by
  have hc := hc.laid
  have hfit := fits_of_le hbs hle
  obtain ⟨st1, hrun1, hat1⟩ := flashWrite_pass hc
    (show At h (pageSlots h st.mem) [] st from ⟨Shows.self h st.mem, hf⟩) data
  rw [← reads_written_iff hc hfit hat1.shows]
  constructor
  · exact fun hall => hall st1 hrun1
  · intro hreads st' hrun
    rw [hrun1] at hrun
    cases hrun
    exact hreads

/-! ## A mark in an erased page -/

/-- Zero but for a block mark in the second block of page 0. -/
def strayFlash : FlashState :=
  { mem := zeroFlash.mem.store32 0x1020 blockValid, blockBuffer := fun _ => 0, fates := [] }

theorem strayFlash_shadow :
    (flashLog smallFlash).shadow (pageSlots smallFlash strayFlash.mem) = some 2 := by
  decide +kernel

theorem strayFlash_hidden (data : List Byte) : ¬ Unhidden smallFlash strayFlash.mem data := by
  intro hand
  have hstatus := (hand.2 2 strayFlash_shadow).status
  have herr : blockStatus smallFlash
      ((flashLog smallFlash).stale (pageSlots smallFlash strayFlash.mem) 2) = .sizeErr := by
    decide +kernel
  rw [herr] at hstatus
  cases hstatus

/-- The read of a success that is hidden. -/
theorem flash_write_hidden :
    ¬ ∀ (h : FlashInfo), Configured h → 12 ≤ h.blockSize.toNat → ∀ st : FlashState, st.fates = [] →
      ∀ data : List Byte, data.length ≤ (calcBufferSize h.blockSize).toNat → ∀ st',
        (flashWrite (some h) (some data)).run st = .ok .success st' → Reads h st' data := by
  intro hall
  have hc := smallFlash_configured.laid
  have hst : At smallFlash (pageSlots smallFlash strayFlash.mem) [] strayFlash :=
    ⟨Shows.self smallFlash strayFlash.mem, rfl⟩
  obtain ⟨st', hrun, hat⟩ := flashWrite_pass hc hst [7]
  have hreads := hall smallFlash smallFlash_configured (by decide) strayFlash rfl [7] (by decide) st' hrun
  exact strayFlash_hidden [7] ((reads_written_iff hc (by decide) hat.shows).1 hreads)

theorem flash_write_reads_iff_stray :
    (∀ st', (flashWrite (some smallFlash) (some [7])).run strayFlash = .ok .success st' →
        Reads smallFlash st' [7]) ↔ Unhidden smallFlash strayFlash.mem [7] :=
  flash_write_reads_iff smallFlash smallFlash_configured (by decide) strayFlash rfl [7] (by decide)

end Stm32Handler.Flash
