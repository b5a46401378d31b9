import Stm32Handler.Flash.RoundTrip

/-!
# A torn block

`flash_write_device` programs a block word by word, the mark first, and
`flash_find_block` looks at the mark only. So from the first word on it is the
unfinished block that `flash_read` finds: the size it still lacks is
`FLASH_OP_SIZE_ERR`, the CRC it still lacks `FLASH_OP_CRC_ERR`. The older block
stays intact behind it.

`torn_block_read` says for every number of programmed words what a read returns.
-/

namespace Stm32Handler.Flash

/-- The first `j` words of the block with `data` on an erased slot. -/
def tornBlock (h : FlashInfo) (data : List Byte) (j : ℕ) : Buf :=
  (flashLog h).blank.blit 0 (j * 4) (flashBlock h data)

/-- The state in which the power is lost `j` words into the next device operation. -/
def tornWrite (h : FlashInfo) (data : List Byte) (j : ℕ) (st : FlashState) : FlashState :=
  endState ((flashWrite (some h) (some data)).run { st with fates := [.lost j] })

/-- `flash_read` returns `status` and leaves the caller's buffer alone. -/
def ReadFails (h : FlashInfo) (st : FlashState) (status : FlashOperatorStatus) : Prop :=
  ∀ buf : List Byte, blockHeadSize + buf.length ≤ h.blockSize.toNat →
    ∃ st', (flashRead (some h) (some buf)).run st = .ok (status, some buf) st'

/-- What a read returns once `j` words of the block with `new` are programmed
after the one with `old`. -/
structure TornReads (h : FlashInfo) (st : FlashState) (old new : List Byte) (j : ℕ) : Prop where
  none : j = 0 → Reads h st old
  whole : j = h.blockSize.toNat / 4 → Reads h st new
  mark : j = 1 → ReadFails h st .sizeErr
  part : 2 ≤ j → j < h.blockSize.toNat / 4 →
    flashCalcCrc16 (tornBlock h new j) (h.blockSize.toNat - 2) ≠ 0 → ReadFails h st .crcErr
  /-- the CRC of what is there is 0, as the bytes of the CRC still are -/
  part_zero : 2 ≤ j → j < h.blockSize.toNat / 4 →
    flashCalcCrc16 (tornBlock h new j) (h.blockSize.toNat - 2) = 0 →
      Reads h st (blockData (tornBlock h new j) new.length)
  kept : HasCopy h st.mem old

variable {h : FlashInfo} {img : Slots Buf} {st : FlashState} {p : Bool} {data : List Byte} {j : ℕ}

theorem ReadFails.not_reads {status : FlashOperatorStatus} (hfail : ReadFails h st status)
    (hne : status ≠ .success) (hfit : Fits h data) : ¬ Reads h st data := by
  intro hreads
  obtain ⟨st1, hrun1⟩ := hfail data hfit.data_le
  obtain ⟨st2, hrun2⟩ := hreads data rfl
  rw [hrun1] at hrun2
  cases hrun2
  exact hne rfl

theorem readFails_of_current (hc : Laid h)
    (hshow : Shows h st.mem img) {s : ℕ} (hcur : (flashLog h).current img = some (p, s))
    {status : FlashOperatorStatus} (hne : status ≠ .success)
    (hstatus : blockStatus h (img p s) = status) : ReadFails h st status := by
  intro buf hbuf
  obtain ⟨st', hrun, -⟩ := flashRead_current hc hshow hcur hbuf
  rw [hstatus, if_neg hne] at hrun
  exact ⟨st', hrun⟩

/-! ## The unfinished block -/

theorem tornBlock_in {i : ℕ} (hi : i < j * 4) : tornBlock h data j i = flashBlock h data i := by
  unfold tornBlock
  rw [Buf.blit_in ⟨Nat.zero_le i, by omega⟩, Nat.sub_zero]

theorem tornBlock_out {i : ℕ} (hi : j * 4 ≤ i) : tornBlock h data j i = 0 :=
  Buf.blit_out (by omega)

theorem tornBlock_mark (hbs : 12 ≤ h.blockSize.toNat) (hj : 1 ≤ j) :
    (flashLog h).block (tornBlock h data j) = true := by
  apply beq_iff_eq.2
  rw [← word0_flashBlock (Nat.le_trans (by decide) hbs) data]
  exact word_congr fun k hk => tornBlock_in (by omega)

theorem loadCrc_tornBlock (hc : Laid h) (hbs : 12 ≤ h.blockSize.toNat)
    (hj : j < h.blockSize.toNat / 4) :
    loadCrc (tornBlock h data j) (h.blockSize.toNat - 2) = 0 := by
  have := hc.words_eq
  unfold loadCrc
  rw [tornBlock_out (by omega), tornBlock_out (by omega)]
  decide

/-- With the mark alone the size field is still erased. -/
theorem blockStatus_tornBlock_mark (hbs : 12 ≤ h.blockSize.toNat) :
    blockStatus h (tornBlock h data 1) = .sizeErr := by
  have hword : word (tornBlock h data 1) 4 = 0 := by
    have hzero : word (tornBlock h data 1) 4 = word (fun _ => 0) 4 :=
      word_congr fun k hk => tornBlock_out (by omega)
    rw [hzero]
    decide
  have hne : calcBlockSize 0 ≠ h.blockSize := fun e => by
    have := congrArg BitVec.toNat e
    simp only [calcBlockSize, blockHeadSize, blockCrcSize] at this
    simp at this
    omega
  unfold blockStatus
  rw [hword, if_pos hne]

theorem blockStatus_tornBlock (hc : Laid h) (hbs : 12 ≤ h.blockSize.toNat) (h2 : 2 ≤ j)
    (hj : j < h.blockSize.toNat / 4) :
    blockStatus h (tornBlock h data j) =
      if flashCalcCrc16 (tornBlock h data j) (h.blockSize.toNat - 2) = 0 then .success else .crcErr := by
  have hword : word (tornBlock h data j) 4 = calcBufferSize h.blockSize := by
    rw [← word4_flashBlock hbs data]
    exact word_congr fun k hk => tornBlock_in (by omega)
  unfold blockStatus
  rw [hword, calcBlockSize_calcBufferSize, if_neg (not_not.2 rfl), loadCrc_tornBlock hc hbs hj]

/-! ## The interrupted write -/

/-- A search that finds a free block has found the one behind the last. -/
theorem lt_blocks_of_ok (hc : Laid h) (hshow : Shows h st.mem img) {n : ℕ}
    (hh : (flashLog h).Holds img p n) {a : BitVec 32}
    (hfree : flashFindBlock h .write st.mem = .ok a) : n < (flashLog h).blocks := by
  refine Decidable.by_contra fun hn => ?_
  rw [flashFindBlock_holds hc hshow hh, if_neg hn] at hfree
  cases p <;> cases hfree

section Torn

variable {n : ℕ} (hc : Laid h) (hshow : Shows h st.mem img)
  (hh : (flashLog h).Holds img p n) (hn : n < (flashLog h).blocks)
include hc hshow hh hn

/-- The memory after `j` words of an append. -/
theorem tornWrite_shows (hj : j ≤ h.blockSize.toNat / 4) (data : List Byte) :
    Shows h (tornWrite h data j st).mem (img.put p (n + 1) (tornBlock h data j)) := by
  have hst : At h img [.lost j] { st with fates := [.lost j] } := ⟨hshow, rfl⟩
  have hle : n + 1 ≤ h.blockNum.toNat := Nat.le_trans hn (blocks_le h)
  obtain ⟨st', hrun, hat⟩ := flashStoreBlock_lost (p := p) (.ok (slotAddress h p (n + 1))) data hc hst
    hle rfl hj
  rw [hh.unused (n + 1) (Nat.lt_succ_self n)] at hat
  unfold tornWrite
  rw [flashWrite_slot hc hst.shows data hh.active_eq (hh.freeSlot_eq hn), hrun]
  exact hat.shows

omit hc hshow in
/-- From the first word on the unfinished block is the current one. -/
theorem tornWrite_current (hbs : 12 ≤ h.blockSize.toNat) (h1 : 1 ≤ j) (data : List Byte) :
    (flashLog h).current (img.put p (n + 1) (tornBlock h data j)) = some (p, n + 1) :=
  (hh.after_slot hn (flashHeader h) (tornBlock_mark hbs h1)).2.current_eq hn

/-- A read fails as the unfinished block does. -/
theorem tornWrite_fails (hbs : 12 ≤ h.blockSize.toNat) (h1 : 1 ≤ j) (hj : j ≤ h.blockSize.toNat / 4)
    {status : FlashOperatorStatus} (hne : status ≠ .success)
    (hstatus : blockStatus h (tornBlock h data j) = status) :
    ReadFails h (tornWrite h data j st) status := by
  refine readFails_of_current hc (tornWrite_shows hc hshow hh hn hj data)
    (tornWrite_current hh hn hbs h1 data) hne ?_
  rw [Slots.put_same]
  exact hstatus

/-- A read returns what the block holds that is there. -/
theorem tornWrite_reads (h1 : 1 ≤ j) (hj : j ≤ h.blockSize.toNat / 4) {found : List Byte}
    (hfit : Fits h found) (hok : Intact h found (tornBlock h data j)) :
    Reads h (tornWrite h data j st) found := by
  refine (reads_iff_intact hc (tornWrite_shows hc hshow hh hn hj data)
    (tornWrite_current hh hn (hfit.le hc) h1 data) hfit).2 ?_
  rw [Slots.put_same]
  exact hok

/-- The mark alone is a block without a size. -/
theorem tornWrite_mark (hbs : 12 ≤ h.blockSize.toNat) (data : List Byte) :
    ReadFails h (tornWrite h data 1 st) .sizeErr :=
  tornWrite_fails hc hshow hh hn hbs (Nat.le_refl 1) (by omega) nofun (blockStatus_tornBlock_mark hbs)

variable {old new : List Byte} (hold : Fits h old) (hblock : img p n = flashBlock h old)
include hold hblock

/-- With no word programmed the log is what it was. -/
theorem tornWrite_none (new : List Byte) : Reads h (tornWrite h new 0 st) old := by
  have hshow' := tornWrite_shows hc hshow hh hn (Nat.zero_le _) new
  have himg : img.put p (n + 1) (tornBlock h new 0) = img := by
    unfold tornBlock
    rw [← hh.unused (n + 1) (Nat.lt_succ_self n), put_blit_zero]
  rw [himg] at hshow'
  exact Stores.reads hc (Nat.zero_lt_of_lt hn) hold ⟨img, p, n, hshow', hh, hblock⟩

/-- The slot before is not touched. -/
theorem tornWrite_kept (hj : j ≤ h.blockSize.toNat / 4) (new : List Byte) :
    HasCopy h (tornWrite h new j st).mem old := by
  have hpos := hh.pos
  refine hasCopy_of_slot (p := p) (s := n) hc (tornWrite_shows hc hshow hh hn hj new)
    ⟨hpos, by omega⟩ hold ?_
  rw [Slots.put_slot_ne _ _ (Nat.succ_ne_self n).symm, hblock]

theorem tornReads (hfit : Fits h new) (hj : j ≤ h.blockSize.toNat / 4) :
    TornReads h (tornWrite h new j st) old new j := by
  have hbs := hfit.le hc
  refine ⟨fun h0 => ?_, fun hwhole => ?_, fun h1 => ?_, fun h2 hlt hcrc => ?_, fun h2 hlt hcrc => ?_,
    tornWrite_kept hc hshow hh hn hold hblock hj new⟩
  · subst h0
    exact tornWrite_none hc hshow hh hn hold hblock new
  · apply tornWrite_reads hc hshow hh hn (by omega) hj hfit
    refine (intact_flashBlock hbs hfit).congr hc hfit fun i hi => tornBlock_in ?_
    rw [hwhole, hc.words_eq]
    exact hi
  · subst h1
    exact tornWrite_mark hc hshow hh hn hbs new
  · refine tornWrite_fails hc hshow hh hn hbs (by omega) hj nofun ?_
    rw [blockStatus_tornBlock hc hbs h2 hlt, if_neg hcrc]
  · have hlen : (blockData (tornBlock h new j) new.length).length = new.length := by simp [blockData]
    refine tornWrite_reads hc hshow hh hn (by omega) hj (show _ ≤ _ by rw [hlen]; exact hfit) ?_
    refine ⟨beq_iff_eq.1 (tornBlock_mark hbs (by omega)), ?_, by rw [hlen]⟩
    rw [blockStatus_tornBlock hc hbs h2 hlt, if_pos hcrc]

end Torn

/-! ## Reachable states -/

/-- Without a write the pages are as they were. -/
theorem Reached.erasedPages {datas : List (List Byte)} (hr : Reached h datas st) (hnil : datas = []) :
    ErasedPages h st.mem := by
  cases hr with
  | erased hm hf => exact hm
  | write hr hfit hrun => simp at hnil

/-- A state with a valid page has been written to. -/
theorem Reached.ne_nil {datas : List (List Byte)} (hc : Laid h) (hr : Reached h datas st)
    {a : BitVec 32} (hfree : flashFindBlock h .write st.mem = .ok a) : datas ≠ [] := by
  intro hnil
  have hnone : (flashLog h).active (fun _ _ => (flashLog h).blank) = none := by
    unfold PageLog.active
    rw [(flashLog h).not_page_of_free (flashLog h).free_blank]
  rcases flashFindBlock_inactive hc ((hr.erasedPages hnil).shows hc) .write hnone with e | e
  · rw [hfree] at e
    cases e
  · rw [hfree] at e
    cases e

/-- **What a read returns after a torn append**: in every reachable state with a
free block there is an older payload, and it is read only while no word of the
new block is programmed. -/
theorem torn_block_read (h : FlashInfo) (hc : Configured h) (datas : List (List Byte))
    (st : FlashState) (hr : Reached h datas st) (a : BitVec 32)
    (hfree : flashFindBlock h .write st.mem = .ok a) (new : List Byte) (hfit : Fits h new) (j : ℕ)
    (hj : j ≤ h.blockSize.toNat / 4) :
    ∃ old, datas.getLast? = some old ∧ TornReads h (tornWrite h new j st) old new j := by
  have hc := hc.laid
  rcases List.eq_nil_or_concat datas with hnil | ⟨init, old, hlast⟩
  · exact absurd hnil (hr.ne_nil hc hfree)
  · rw [List.concat_eq_append] at hlast
    subst hlast
    obtain ⟨hold, img, p, n, hshow, hh, hblock⟩ := hr.stores hc
    refine ⟨old, by simp, ?_⟩
    exact tornReads hc hshow hh (lt_blocks_of_ok hc hshow hh hfree) hold hblock hfit hj

/-! ## One block written, one free -/

/-- The first block of page 0 is written. -/
def smallOne : FlashState := endState ((flashWrites smallFlash [[1]]).run zeroFlash)

theorem smallOne_reached : Reached smallFlash ([] ++ [[1]]) smallOne :=
  zeroFlash_reached.writes smallFlash_configured.laid (show ∀ d ∈ [[1]], Fits smallFlash d by decide)

theorem smallOne_free :
    flashFindBlock smallFlash .write smallOne.mem = .ok (slotAddress smallFlash false 2) := by
  decide +kernel

/-- The power is lost after three of four words. -/
theorem torn_block_read_three :
    ∃ old, [[1]].getLast? = some old ∧
      TornReads smallFlash (tornWrite smallFlash [2] 3 smallOne) old [2] 3 :=
  torn_block_read smallFlash smallFlash_configured [[1]] smallOne smallOne_reached _ smallOne_free [2]
    (by decide) 3 (by decide)

/-- After one word neither payload is read. -/
theorem torn_block_hides :
    ¬ ∀ (h : FlashInfo), Configured h → ∀ (datas : List (List Byte)) (st : FlashState),
      Reached h datas st → (∃ a, flashFindBlock h .write st.mem = .ok a) →
        ∀ old, datas.getLast? = some old → ∀ new, Fits h new → ∀ j ≤ h.blockSize.toNat / 4,
          Reads h (tornWrite h new j st) old ∨ Reads h (tornWrite h new j st) new := by
  intro hall
  have hc := smallFlash_configured.laid
  obtain ⟨-, img, p, n, hshow, hh, -⟩ := smallOne_reached.stores hc
  have hn := lt_blocks_of_ok hc hshow hh smallOne_free
  have hfail : ReadFails smallFlash (tornWrite smallFlash [2] 1 smallOne) .sizeErr :=
    tornWrite_mark hc hshow hh hn (by decide) [2]
  rcases hall smallFlash smallFlash_configured [[1]] smallOne smallOne_reached ⟨_, smallOne_free⟩ [1] rfl [2] (by decide) 1
    (by decide) with hold | hnew
  · exact hfail.not_reads nofun (by decide) hold
  · exact hfail.not_reads nofun (by decide) hnew

end Stm32Handler.Flash
