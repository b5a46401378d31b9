import Stm32Handler.Flash.CrcXor
import Stm32Handler.Flash.Oversize

/-!
# What `flash_driver_init` accepts

Its alignment test looks at bit 2 of the four values where it means the bits
below: 12 and 20 are refused, 9 and 10 accepted. `init_exact_iff` compares, for
every configuration, what is accepted with what works: blocks of 16 bytes and
more that are multiples of 4, and a number of blocks that its 16 bits do not
lose.
-/

namespace Stm32Handler.Flash

/-- The limits of the first test of `flash_driver_init`. -/
def WithinLimits (pageSize blockSize : BitVec 32) : Prop :=
  0 < blockSize.toNat ∧ blockSize.toNat ≤ maxBlockSize ∧ 2 * blockSize.toNat ≤ pageSize.toNat

/-- The second test: no value has bit 2 set. -/
def BitTwoClear (sectorAddr0 sectorAddr1 pageSize blockSize : BitVec 32) : Prop :=
  ∀ x ∈ [sectorAddr0, sectorAddr1, pageSize, blockSize], x.toNat / 4 % 2 = 0

/-- Two writes to erased pages succeed, and a read after each returns its payload. -/
def Works (h : FlashInfo) : Prop :=
  ∀ st, ErasedPages h st.mem → st.fates = [] → ∀ d1 d2 : List Byte,
    d1.length ≤ h.blockSize.toNat - 10 → d2.length ≤ h.blockSize.toNat - 10 →
      ∃ st1, (flashWrite (some h) (some d1)).run st = .ok .success st1 ∧ Reads h st1 d1 ∧
        ∀ buf r st2, buf.length = d1.length → (flashRead (some h) (some buf)).run st1 = .ok r st2 →
          ∃ st3, (flashWrite (some h) (some d2)).run st2 = .ok .success st3 ∧ Reads h st3 d2

variable {h : FlashInfo} {st : FlashState} {data : List Byte}

/-! ## The test -/

theorem bitTwoClear_iff {a0 a1 ps bs : BitVec 32} :
    BitTwoClear a0 a1 ps bs ↔ (a0 ||| a1 ||| ps ||| bs) &&& 0x4 = 0 := by
  rw [or_and_four_eq_zero, or_and_four_eq_zero, or_and_four_eq_zero, and_four_eq_zero_iff,
    and_four_eq_zero_iff, and_four_eq_zero_iff, and_four_eq_zero_iff]
  unfold BitTwoClear
  simp only [List.forall_mem_cons, List.not_mem_nil, false_implies, implies_true, and_true, and_assoc]

/-- The handler an accepted configuration leaves. -/
def acceptedInfo (sectorAddr0 sectorAddr1 pageSize blockSize : BitVec 32) : FlashInfo where
  flashValid := flashValid
  page0Address := sectorAddr0
  page1Address := sectorAddr1
  pageSize := pageSize
  blockSize := blockSize
  blockNum := pageSize / blockSize - 1

theorem withinLimits_iff {ps bs : BitVec 32} :
    WithinLimits ps bs ↔ ¬ (ps = 0 ∨ bs = 0 ∨ bs > BitVec.ofNat 32 maxBlockSize ∨ ps < bs * 2) := by
  have hzero : ∀ x : BitVec 32, x = 0 ↔ x.toNat = 0 := fun x => by
    rw [← BitVec.toNat_inj]
    rfl
  have hmax : bs > BitVec.ofNat 32 maxBlockSize ↔ maxBlockSize < bs.toNat := by
    rw [gt_iff_lt, BitVec.lt_def]
    rfl
  have hdouble : bs.toNat ≤ maxBlockSize → (ps < bs * 2 ↔ ps.toNat < 2 * bs.toNat) := fun hle => by
    simp only [maxBlockSize] at hle
    rw [BitVec.lt_def, BitVec.toNat_mul, show (2 : BitVec 32).toNat = 2 from rfl,
      Nat.mod_eq_of_lt (by omega), Nat.mul_comm]
  unfold WithinLimits
  rw [hzero, hzero, hmax]
  constructor
  · rintro ⟨hpos, hle, hps⟩
    rw [hdouble hle]
    omega
  · intro hnot
    have hle : bs.toNat ≤ maxBlockSize := by omega
    rw [hdouble hle] at hnot
    omega

theorem flashDriverInit_eq_some_iff {g : FlashInfo} {a0 a1 ps bs : BitVec 32} :
    flashDriverInit (some g) a0 a1 ps bs = some h ↔
      WithinLimits ps bs ∧ BitTwoClear a0 a1 ps bs ∧ h = acceptedInfo a0 a1 ps bs := by
  rw [withinLimits_iff, bitTwoClear_iff]
  simp only [flashDriverInit]
  split
  · next hlim => exact iff_of_false (Option.some_ne_none h).symm fun hand => hand.1 hlim
  next hlim =>
  split
  · next hbit => exact iff_of_false (Option.some_ne_none h).symm fun hand => hbit hand.2.1
  next hbit =>
  rw [and_iff_right hlim, and_iff_right (not_not.1 hbit), Option.some_inj]
  exact eq_comm

theorem accepted_acceptedInfo {a0 a1 ps bs : BitVec 32} (hlim : WithinLimits ps bs)
    (hbit : BitTwoClear a0 a1 ps bs) : Accepted (acceptedInfo a0 a1 ps bs) :=
  ⟨⟨acceptedInfo a0 a1 ps bs, flashDriverInit_eq_some_iff.2 ⟨hlim, hbit, rfl⟩⟩⟩

/-! ## Where the store works -/

theorem works_of_laid (hc : Laid h) (hbs : 12 ≤ h.blockSize.toNat) (hnum : 0 < (flashLog h).blocks) :
    Works h := by
  intro st hm hf d1 d2 h1 h2
  have hfit : ∀ d : List Byte, d.length ≤ h.blockSize.toNat - 10 → Fits h d := fun d hd => by
    unfold Fits blockHeadSize blockCrcSize
    omega
  obtain ⟨st1, hrun1, hstores1, hclean1⟩ := Clean.write hc ⟨hf, .inl hm⟩ d1
  refine ⟨st1, hrun1, hstores1.reads hc hnum (hfit d1 h1), fun buf r st2 _ hread => ?_⟩
  obtain ⟨img, p, n, hshow, hh, -⟩ := hstores1
  obtain ⟨st2', hrun2, hmem, hfates⟩ :=
    flashRead_buffer hc hshow (hh.current_eq (hh.le_blocks hnum)) buf
  rw [hread] at hrun2
  cases hrun2
  have hclean2 : Clean h st2 := by
    unfold Clean
    rw [hmem, hfates]
    exact hclean1
  obtain ⟨st3, hrun3, hstores3, -⟩ := hclean2.write hc d2
  exact ⟨st3, hrun3, hstores3.reads hc hnum (hfit d2 h2)⟩

/-! ## What a successful read needs -/

/-- The search found a slot, and the size in it fits. -/
theorem Reads.found (hreads : Reads h st data) :
    ∃ a, flashFindBlock h .read st.mem = .ok a ∧ calcBlockSize (word (st.blockBuffer.blit 0
      (h.blockSize.toNat / 4 * 4) (st.mem.bytes a)) 4) = h.blockSize := by
  obtain ⟨st', hrun⟩ := hreads data rfl
  unfold flashRead at hrun
  simp only at hrun
  rw [run_bind_ok (EStateM.run_get _)] at hrun
  split at hrun
  · next a hfind =>
    rw [run_bind_ok (flashReadDevice_run st a _), if_pos rfl, run_bind_ok (EStateM.run_get _)] at hrun
    refine ⟨a, hfind, ?_⟩
    by_contra hne
    rw [if_pos hne] at hrun
    cases hrun
  · cases hrun

theorem flashFindBlock_read_ok {m : Mem 32} {a : BitVec 32} (hfind : flashFindBlock h .read m = .ok a) :
    ∃ p s, 1 ≤ s ∧ s ≤ h.blockNum.toNat % 65536 ∧
      a = pageAddress h p + BitVec.ofNat 32 (s * (h.blockSize.setWidth 16).toNat) ∧
      m.load32 (pageAddress h p) = pageValid ∧ m.load32 a = blockValid := by
  have hpage : ∀ p, m.load32 (pageAddress h p) = pageValid →
      flashSearchPage h .read m (pageAddress h p) = .ok a →
        ∃ s, 1 ≤ s ∧ s ≤ h.blockNum.toNat % 65536 ∧
          a = pageAddress h p + BitVec.ofNat 32 (s * (h.blockSize.setWidth 16).toNat) ∧
          m.load32 a = blockValid := by
    intro p _ hok
    simp only [flashSearchPage] at hok
    split at hok
    · next i hi =>
      have hlt := List.mem_range.1 (List.mem_of_find?_eq_some hi)
      have hmark := List.find?_some hi
      cases hok
      rw [BitVec.toNat_setWidth] at hlt ⊢
      exact ⟨_, by omega, by omega, rfl, beq_iff_eq.1 hmark⟩
    · cases hok
  simp only [flashFindBlock] at hfind
  split at hfind
  · cases hfind
  split at hfind
  · next hvalid =>
    obtain ⟨s, h1, hs, ha, hmark⟩ := hpage false hvalid hfind
    exact ⟨false, s, h1, hs, ha, hvalid, hmark⟩
  split at hfind
  · next hvalid =>
    obtain ⟨s, h1, hs, ha, hmark⟩ := hpage true hvalid hfind
    exact ⟨true, s, h1, hs, ha, hvalid, hmark⟩
  · cases hfind

/-! ## The first write to memory that is all zero -/

theorem zeroFlash_erased (h : FlashInfo) : ErasedPages h zeroFlash.mem := fun _ _ _ => rfl

/-- The state after a first write that succeeds. -/
def zeroStored (h : FlashInfo) (data : List Byte) : FlashState :=
  (zeroFlash.opened h h.page0Address).stored h (slotAddress h false 1) data

theorem flashWrite_zero_run (h : FlashInfo) (data : List Byte) :
    (flashWrite (some h) (some data)).run zeroFlash =
      (flashStoreBlock h .pageEmpty (slotAddress h false 1) data).run
        (zeroFlash.opened h h.page0Address) := by
  have hne : ∀ a, zeroFlash.mem.load32 a ≠ pageValid := fun _ =>
    show word (fun _ => 0) 0 ≠ pageValid by decide
  have hfind : flashFindBlock h .write zeroFlash.mem = .pageEmpty := by
    simp only [flashFindBlock, hne, and_self, ↓reduceIte]
  have hused : ∀ a b, (flashEmptyUsedPage h a).run { zeroFlash with blockBuffer := b } =
      .ok () { zeroFlash with blockBuffer := b } := fun a b => by
    have herased : ({ zeroFlash with blockBuffer := b } : FlashState).mem.load32 a = pageErased :=
      show word (fun _ => 0) 0 = pageErased by decide
    rw [flashEmptyUsedPage_run { zeroFlash with blockBuffer := b } rfl, if_neg (not_not.2 herased)]
  have hhead := flashWriteHeader_run (h := h)
    { zeroFlash with blockBuffer := fillPageHeader h zeroFlash.blockBuffer } rfl h.page0Address
  have hstart : (flashStartPage h .pageEmpty).run zeroFlash =
      .ok (some (slotAddress h false 1)) (zeroFlash.opened h h.page0Address) := by
    rw [flashStartPage_none (.inl rfl), run_bind_ok (setBlockBuffer_run _ _), run_bind_ok (hused _ _),
      run_bind_ok (hused _ _)]
    refine hhead.trans ?_
    rw [← pageAddress_first]
    rfl
  unfold flashWrite
  simp only
  rw [run_bind_ok (EStateM.run_get _), hfind]
  simp only
  rw [run_bind_ok hstart]

/-- A store that works has read back the empty payload. -/
theorem Works.zero (hw : Works h) : Reads h (zeroStored h []) [] := by
  obtain ⟨st1, hrun, hreads, -⟩ := hw zeroFlash (zeroFlash_erased h) rfl [] [] (Nat.zero_le _) (Nat.zero_le _)
  rw [flashWrite_zero_run] at hrun
  have hstate := flashStoreBlock_state_none (zeroFlash.opened h h.page0Address) rfl
    (nofun : FlashSearchStatus.pageEmpty ≠ .blockWriteFull0) nofun hrun
  rw [hstate] at hreads
  exact hreads

theorem zeroStored_mem (hc : Accepted h) (data : List Byte) : (zeroStored h data).mem =
    ((zeroFlash.mem.blit (pageAddress h false + BitVec.ofNat 32 0) (h.blockSize.toNat / 4 * 4)
      (zeroFlash.opened h h.page0Address).blockBuffer).blit
      (pageAddress h false + BitVec.ofNat 32 h.blockSize.toNat) (h.blockSize.toNat / 4 * 4)
      (fillBlock h data (zeroFlash.opened h h.page0Address).blockBuffer)) := by
  have hle := hc.blockSize_le
  simp only [maxBlockSize] at hle
  have hslot : slotAddress h false 1 = pageAddress h false + BitVec.ofNat 32 h.blockSize.toNat := by
    unfold slotAddress
    rw [Nat.one_mul]
  unfold zeroStored
  rw [hslot, ← Mem.foldl_store32 _ _ _ (by omega), ← Mem.foldl_store32 _ _ _ (by omega), BitVec.add_zero]
  rfl

/-- What the first page holds then. -/
theorem zeroStored_bytes (hc : Accepted h) (data : List Byte) {i : ℕ} (hi : i < h.pageSize.toNat) :
    ∃ hdr, (zeroStored h data).mem.bytes (pageAddress h false) i =
      (Buf.blit (Buf.blit (fun _ => 0) 0 (h.blockSize.toNat / 4 * 4) hdr) h.blockSize.toNat
        (h.blockSize.toNat / 4 * 4) (flashBlock h data)) i := by
  have hle := hc.blockSize_le
  have hps := h.pageSize.isLt
  simp only [maxBlockSize] at hle
  refine ⟨(zeroFlash.opened h h.page0Address).blockBuffer, ?_⟩
  rw [zeroStored_mem hc, Mem.bytes_blit _ _ _ (by omega) (by omega)]
  unfold Buf.blit
  split
  · exact fillBlock_eq hc data _ (by simp only [maxBlockSize]; omega)
  · rw [Mem.bytes_blit _ _ _ (by omega) (by omega)]
    rfl

/-- The second page is still erased. -/
theorem zeroStored_other (hc : Accepted h)
    (hd : Mem.Disjoint h.page0Address h.page1Address h.pageSize.toNat) (data : List Byte) {i : ℕ}
    (hi : i < h.pageSize.toNat) : (zeroStored h data).mem.bytes (pageAddress h true) i = 0 := by
  have hps := hc.init_eq.2.2.1
  have hne : ∀ j < h.pageSize.toNat,
      pageAddress h true + BitVec.ofNat 32 i ≠ pageAddress h false + BitVec.ofNat 32 j :=
    fun j hj => (hd j i hj hi).symm
  rw [zeroStored_mem hc, Mem.bytes_blit_disjoint, Mem.bytes_blit_disjoint]
  · rfl
  · intro j hj
    rw [BitVec.add_zero]
    exact hne j (by omega)
  · intro j hj
    rw [BitVec.add_assoc, ← BitVec.ofNat_add]
    exact hne _ (by omega)

/-! ## Where it does not -/

/-- The 16 bits of `block_num` are all zero. -/
theorem not_works_of_no_blocks (hnum : h.blockNum.toNat % 65536 = 0) : ¬ Works h := by
  intro hw
  obtain ⟨a, hfind, -⟩ := hw.zero.found
  obtain ⟨p, s, h1, hs, -⟩ := flashFindBlock_read_ok hfind
  omega

/-- Less than a word is programmed as nothing. -/
theorem not_works_of_lt_four (hbs : h.blockSize.toNat < 4) : ¬ Works h := by
  intro hw
  obtain ⟨a, hfind, -⟩ := hw.zero.found
  obtain ⟨p, s, -, -, -, hvalid, -⟩ := flashFindBlock_read_ok hfind
  have hmem : (zeroStored h []).mem = zeroFlash.mem := by
    simp only [zeroStored, FlashState.stored, FlashState.opened, FlashState.headed, FlashState.wrote,
      Nat.div_eq_of_lt hbs]
    rfl
  rw [hmem] at hvalid
  exact absurd hvalid (show word (fun _ => 0) 0 ≠ pageValid by decide)

theorem flashBlock_congr (h' : FlashInfo) (hbs : h.blockSize = h'.blockSize) (data : List Byte) :
    flashBlock h data = flashBlock h' data := by
  unfold flashBlock fillBlock
  rw [hbs]

/-- In 8 or 9 bytes the CRC lies in the size. -/
theorem size_ne_of_short (hbs : h.blockSize = 8 ∨ h.blockSize = 9) :
    calcBlockSize (word (flashBlock h []) 4) ≠ h.blockSize := by
  rcases hbs with hbs | hbs
  · rw [flashBlock_congr { smallFlash with blockSize := 8 } hbs, hbs]
    decide +kernel
  · rw [flashBlock_congr { smallFlash with blockSize := 9 } hbs, hbs]
    decide +kernel

/-- Two words are programmed, the size among them. -/
theorem not_works_of_short (hc : Accepted h) (hd : Mem.Disjoint h.page0Address h.page1Address h.pageSize.toNat)
    (hbs : h.blockSize = 8 ∨ h.blockSize = 9) : ¬ Works h := by
  intro hw
  have hwords : h.blockSize.toNat / 4 * 4 = 8 := by rcases hbs with e | e <;> rw [e] <;> rfl
  have hle : 8 ≤ h.blockSize.toNat ∧ h.blockSize.toNat ≤ 9 := by
    rcases hbs with e | e <;> rw [e] <;> decide
  have hps := hc.init_eq.2.2.1
  obtain ⟨a, hfind, hsize⟩ := hw.zero.found
  obtain ⟨p, s, h1, hs, rfl, hvalid, hmark⟩ := flashFindBlock_read_ok hfind
  have hs : s ≤ h.blockNum.toNat := Nat.le_trans hs (Nat.mod_le _ _)
  rw [hc.blockSize16] at hsize hmark
  have hp : p = false := by
    cases p with
    | false => rfl
    | true =>
      -- nothing is programmed in the second page
      rw [Mem.load32, word_congr (g := fun _ => 0) (j := 0) fun k hk =>
        zeroStored_other hc hd [] (by omega)] at hvalid
      exact absurd hvalid (by decide)
  subst hp
  have hbytes : ∀ i < h.blockSize.toNat, (zeroStored h []).mem.bytes
      (pageAddress h false + BitVec.ofNat 32 (s * h.blockSize.toNat)) i =
        if s = 1 ∧ i < 8 then flashBlock h [] i else 0 := by
    intro i hi
    have hlt := hc.slot_lt hs hi
    obtain ⟨hdr, hb⟩ := zeroStored_bytes hc [] hlt
    rw [Mem.bytes_offset, hb, hwords]
    by_cases hone : s = 1
    · subst hone
      rw [Nat.one_mul]
      by_cases hi8 : i < 8
      · rw [Buf.blit_in ⟨by omega, by omega⟩, Nat.add_sub_cancel_left, if_pos ⟨rfl, hi8⟩]
      · rw [Buf.blit_out (by omega), Buf.blit_out (by omega), if_neg fun hand => hi8 hand.2]
    · have hmul := Nat.mul_le_mul_right h.blockSize.toNat (show 2 ≤ s by omega)
      rw [Buf.blit_out (by omega), Buf.blit_out (by omega), if_neg fun hand => hone hand.1]
  have hs1 : s = 1 := by
    by_contra hne
    rw [Mem.load32, word_congr (g := fun _ => 0) (j := 0) fun k hk => by
      rw [hbytes _ (by omega), if_neg fun hand => hne hand.1]] at hmark
    exact absurd hmark (by decide)
  refine size_ne_of_short hbs (Eq.trans (congrArg calcBlockSize (word_congr fun k hk => ?_)) hsize)
  rw [hwords, Buf.blit_in ⟨by omega, by omega⟩, hbytes _ (by omega), if_pos ⟨hs1, by omega⟩]
  rfl

/-- Without the last bytes `memcmp` sees the CRC missing, unless its low byte is zero. -/
theorem flashWrite_unaligned (hc : Accepted h) (hmod : h.blockSize.toNat % 4 ≠ 0)
    (h2 : 2 ≤ h.blockSize.toNat) (hcrc : (payloadCrc h data &&& 0xff).setWidth 8 ≠ 0) :
    (flashWrite (some h) (some data)).run zeroFlash = .ok .writeDataErr (zeroStored h data) := by
  have hps := hc.init_eq.2.2.1
  have hrun := flashStoreBlock_run (h := h) (zeroFlash.opened h h.page0Address) rfl .pageEmpty
    (slotAddress h false 1) data
  rw [flashWrite_zero_run, hrun, if_pos]
  · rfl
  rw [List.any_eq_true]
  refine ⟨h.blockSize.toNat - 1, List.mem_range.2 (by omega), bne_iff_ne.2 ?_⟩
  have hmem : (zeroStored h data).mem.bytes (slotAddress h false 1) (h.blockSize.toNat - 1) = 0 := by
    obtain ⟨hdr, hb⟩ := zeroStored_bytes hc data
      (show 1 * h.blockSize.toNat + (h.blockSize.toNat - 1) < h.pageSize.toNat by omega)
    unfold slotAddress
    rw [Mem.bytes_offset, hb, Buf.blit_out (by omega), Buf.blit_out (by omega)]
  have hbuf := fillBlock_crc (zeroFlash.opened h h.page0Address).blockBuffer data hc h2
    Nat.one_lt_two
  rw [if_neg Nat.one_ne_zero, show h.blockSize.toNat - 2 + 1 = h.blockSize.toNat - 1 by omega] at hbuf
  intro heq
  exact hcrc (hbuf.symm.trans (heq.trans hmem))

/-- The low byte of the CRC, an XOR. -/
theorem payloadCrc_low (h : FlashInfo) (data : List Byte) : (payloadCrc h data &&& 0xff).setWidth 8 =
    xorBytes ((((clearBlockBuffer fun _ => 0).store32 0 blockValid).store32 4
      (calcBufferSize h.blockSize)).blit blockHeadSize data.length fun i => data.getD i 0)
      (h.blockSize.toNat - 2) := by
  rw [← flashCalcCrc16_low, BitVec.setWidth_and]
  exact BitVec.and_allOnes

/-- A payload byte moves it. -/
theorem payloadCrc_low_one (hbs : 11 ≤ h.blockSize.toNat) :
    (payloadCrc h [1] &&& 0xff).setWidth 8 = (payloadCrc h [] &&& 0xff).setWidth 8 ^^^ 1 := by
  rw [payloadCrc_low, payloadCrc_low,
    ← xorBytes_update _ (show blockHeadSize < _ by simp only [blockHeadSize]; omega)]
  have hzero : ((((clearBlockBuffer fun _ => 0).store32 0 blockValid).store32 4
      (calcBufferSize h.blockSize)).blit blockHeadSize ([] : List Byte).length
        fun i => ([] : List Byte).getD i 0) blockHeadSize = 0 := by
    rw [Buf.blit_out (by simp), Buf.store32, Buf.blit_out (by decide), Buf.store32,
      Buf.blit_out (by decide), clearBlockBuffer, Buf.blit_in (by decide)]
  congr 1
  funext i
  by_cases hi : i = blockHeadSize
  · subst hi
    rw [Function.update_self, hzero, Buf.blit_in ⟨Nat.le_refl _, by simp⟩]
    rfl
  · rw [Function.update_of_ne hi, Buf.blit_out (by simp; omega), Buf.blit_out (by simp)]

theorem not_works_of_unaligned (hc : Accepted h) (hmod : h.blockSize.toNat % 4 ≠ 0)
    (hbs : 10 ≤ h.blockSize.toNat) : ¬ Works h := by
  intro hw
  have hfails : ∀ data : List Byte, data.length ≤ h.blockSize.toNat - 10 →
      (payloadCrc h data &&& 0xff).setWidth 8 = 0 := by
    intro data hlen
    by_contra hcrc
    obtain ⟨st1, hrun, -⟩ := hw zeroFlash (zeroFlash_erased h) rfl data [] hlen (Nat.zero_le _)
    rw [flashWrite_unaligned hc hmod (by omega) hcrc] at hrun
    cases hrun
  have hempty := hfails [] (Nat.zero_le _)
  rcases Nat.lt_or_ge 10 h.blockSize.toNat with hlt | hge
  · have hone := hfails [1] (show 1 ≤ _ by omega)
    rw [payloadCrc_low_one hlt, hempty] at hone
    exact absurd hone (by decide)
  · -- nothing but the mark and a zero size
    have hten : h.blockSize = 10 := BitVec.eq_of_toNat_eq (Nat.le_antisymm hge hbs)
    unfold payloadCrc at hempty
    rw [hten] at hempty
    exact absurd hempty (by decide +kernel)

/-! ## What is accepted is what works -/

/-- `flash_driver_init` is right about a configuration: accepted with pages that
neither meet nor wrap it works, and of word-aligned values within the limits it
is accepted. -/
structure InitExact (sectorAddr0 sectorAddr1 pageSize blockSize : BitVec 32) : Prop where
  works : ∀ g h, flashDriverInit (some g) sectorAddr0 sectorAddr1 pageSize blockSize = some h →
    Mem.Disjoint sectorAddr0 sectorAddr1 pageSize.toNat →
      sectorAddr0.toNat + pageSize.toNat ≤ 2 ^ 32 → sectorAddr1.toNat + pageSize.toNat ≤ 2 ^ 32 → Works h
  accepts : WithinLimits pageSize blockSize →
    (∀ x ∈ [sectorAddr0, sectorAddr1, pageSize, blockSize], x.toNat % 4 = 0) →
      ∀ g, ∃ h, flashDriverInit (some g) sectorAddr0 sectorAddr1 pageSize blockSize = some h

/-- The store works with what is accepted iff blocks are words, take header and
CRC, and are counted in 16 bits. -/
theorem works_iff (hc : Accepted h) (hd : Mem.Disjoint h.page0Address h.page1Address h.pageSize.toNat) :
    Works h ↔ h.blockSize.toNat % 4 = 0 ∧ 16 ≤ h.blockSize.toNat ∧ h.blockNum.toNat % 65536 ≠ 0 := by
  have hblocks : (flashLog h).blocks = h.blockNum.toNat % 65536 := BitVec.toNat_setWidth _ _
  have hbit := (or_and_four_eq_zero.1 hc.bit_two).2
  rw [and_four_eq_zero_iff] at hbit
  constructor
  · intro hw
    have hnum : h.blockNum.toNat % 65536 ≠ 0 := fun hnum => not_works_of_no_blocks hnum hw
    have hfour : 4 ≤ h.blockSize.toNat := Nat.not_lt.1 fun hlt => not_works_of_lt_four hlt hw
    have hshort : ¬ (h.blockSize = 8 ∨ h.blockSize = 9) := fun hbs => not_works_of_short hc hd hbs hw
    have hten : 10 ≤ h.blockSize.toNat := by
      by_contra hlt
      have hcases : h.blockSize.toNat = 8 ∨ h.blockSize.toNat = 9 := by omega
      rcases hcases with he | he
      · exact hshort (.inl (BitVec.eq_of_toNat_eq he))
      · exact hshort (.inr (BitVec.eq_of_toNat_eq he))
    have hmod : h.blockSize.toNat % 4 = 0 := by
      by_contra hmod
      exact not_works_of_unaligned hc hmod hten hw
    exact ⟨hmod, by omega, hnum⟩
  · rintro ⟨hmod, hbs, hnum⟩
    exact works_of_laid ⟨hc, hmod, hd⟩ (by omega) (by omega)

/-- **`flash_driver_init` is right about a configuration exactly when** what it
accepts has blocks of words, of 16 bytes and more, whose number its 16 bits do
not lose, and what is word-aligned has bit 2 clear everywhere. -/
theorem init_exact_iff (a0 a1 ps bs : BitVec 32) :
    InitExact a0 a1 ps bs ↔
      (WithinLimits ps bs → BitTwoClear a0 a1 ps bs → Mem.Disjoint a0 a1 ps.toNat →
        a0.toNat + ps.toNat ≤ 2 ^ 32 → a1.toNat + ps.toNat ≤ 2 ^ 32 →
          bs.toNat % 4 = 0 ∧ 16 ≤ bs.toNat ∧ (ps.toNat / bs.toNat - 1) % 65536 ≠ 0) ∧
      (WithinLimits ps bs → (∀ x ∈ [a0, a1, ps, bs], x.toNat % 4 = 0) → BitTwoClear a0 a1 ps bs) := by
  have hworks : ∀ (hlim : WithinLimits ps bs) (hbit : BitTwoClear a0 a1 ps bs),
      Mem.Disjoint a0 a1 ps.toNat → (Works (acceptedInfo a0 a1 ps bs) ↔
        bs.toNat % 4 = 0 ∧ 16 ≤ bs.toNat ∧ (ps.toNat / bs.toNat - 1) % 65536 ≠ 0) := by
    intro hlim hbit hd
    have hc := accepted_acceptedInfo hlim hbit
    have hnum := hc.init_eq.2.2.2
    have hiff := works_iff hc hd
    rw [hnum] at hiff
    exact hiff
  constructor
  · rintro ⟨hworks', haccepts⟩
    refine ⟨fun hlim hbit hd hw0 hw1 => ?_, fun hlim hwords => ?_⟩
    · exact (hworks hlim hbit hd).1 (hworks' (acceptedInfo a0 a1 ps bs) _
        (flashDriverInit_eq_some_iff.2 ⟨hlim, hbit, rfl⟩) hd hw0 hw1)
    · obtain ⟨h, hinit⟩ := haccepts hlim hwords (acceptedInfo a0 a1 ps bs)
      exact (flashDriverInit_eq_some_iff.1 hinit).2.1
  · rintro ⟨hacc, hwords⟩
    refine ⟨fun g h hinit hd hw0 hw1 => ?_, fun hlim hall g => ?_⟩
    · obtain ⟨hlim, hbit, rfl⟩ := flashDriverInit_eq_some_iff.1 hinit
      exact (hworks hlim hbit hd).2 (hacc hlim hbit hd hw0 hw1)
    · exact ⟨_, flashDriverInit_eq_some_iff.2 ⟨hlim, hwords hlim hall, rfl⟩⟩

/-- Blocks of 12 bytes in pages of 48 are word-aligned and refused. -/
theorem init_refuses_twelve : ¬ ∀ a0 a1 ps bs, InitExact a0 a1 ps bs := by
  intro hall
  obtain ⟨h, hinit⟩ := (hall 0x1000 0x2000 48 12).accepts ⟨by decide, by decide, by decide⟩ (by simp)
    (acceptedInfo 0x1000 0x2000 48 12)
  exact absurd ((flashDriverInit_eq_some_iff.1 hinit).2.1 12 (by simp)) (by decide)

end Stm32Handler.Flash
