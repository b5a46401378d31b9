import Stm32Handler.Flash.CrcXor
import Stm32Handler.Flash.Oversize

/-!
# Flipped bits in a stored block

Bits flipped among the payload bytes of the newest block change the XOR of its
bytes by their masks, so the CRC misses exactly the flips whose masks cancel:
of one or two flips, two in the same bit of different bytes.
-/

namespace Stm32Handler.Flash

/-- A bit of a block. -/
structure BitPos where
  byte : ℕ
  bit : Fin 8
  deriving DecidableEq

def BitPos.mask (x : BitPos) : Byte := BitVec.twoPow 8 x.bit

/-- The bits flipped in the block at `a`. -/
def flipBits (m : Mem 32) (a : BitVec 32) : List BitPos → Mem 32
  | [] => m
  | x :: rest =>
    let m := flipBits m a rest
    Function.update m (a + BitVec.ofNat 32 x.byte) (m (a + BitVec.ofNat 32 x.byte) ^^^ x.mask)

/-- The last block of the valid page: all slots behind it are unmarked. -/
structure NewestBlock (h : FlashInfo) (m : Mem 32) (p : Bool) (s : ℕ) : Prop where
  page : m.load32 (pageAddress h p) = pageValid
  range : 1 ≤ s ∧ s ≤ h.blockNum.toNat
  block : m.load32 (slotAddress h p s) = blockValid
  last : ∀ t, s < t → t ≤ h.blockNum.toNat → m.load32 (slotAddress h p t) ≠ blockValid

/-- A payload `flash_read` returns in `st'` it also returns in `st`. -/
def ReadsAsBefore (h : FlashInfo) (st st' : FlashState) : Prop :=
  ∀ buf d st1, buf.length + (blockHeadSize + blockCrcSize) ≤ h.blockSize.toNat →
    (flashRead (some h) (some buf)).run st' = .ok (.success, some d) st1 →
      ∃ st2, (flashRead (some h) (some buf)).run st = .ok (.success, some d) st2

/-- Two flips in the same bit of two bytes. -/
def SameBit (flips : List BitPos) : Prop :=
  ∃ i j k, flips = [⟨i, k⟩, ⟨j, k⟩]

variable {h : FlashInfo} {flips : List BitPos} {f : Buf}

/-! ## The flipped block -/

def flipBlock (f : Buf) : List BitPos → Buf
  | [] => f
  | x :: rest => Function.update (flipBlock f rest) x.byte (flipBlock f rest x.byte ^^^ x.mask)

def flipMask : List BitPos → Byte
  | [] => 0
  | x :: rest => flipMask rest ^^^ x.mask

theorem flipBits_eq (m : Mem 32) (a : BitVec 32) {n : ℕ} (hn : n ≤ 2 ^ 32)
    (hlt : ∀ x ∈ flips, x.byte < n) :
    flipBits m a flips = m.blit a n (flipBlock (m.bytes a) flips) := by
  induction flips with
  | nil => exact (Mem.blit_bytes m a n).symm
  | cons x rest ih =>
    have hx := hlt x List.mem_cons_self
    have hbyte : m.blit a n (flipBlock (m.bytes a) rest) (a + BitVec.ofNat 32 x.byte) =
        flipBlock (m.bytes a) rest x.byte := by
      have := @Mem.bytes_blit 32 m a 0 n x.byte (flipBlock (m.bytes a) rest) (by omega) (by omega)
      rw [BitVec.add_zero, Buf.blit_in ⟨by omega, by omega⟩] at this
      exact this
    simp only [flipBits, flipBlock]
    rw [ih fun y hy => hlt y (List.mem_cons_of_mem x hy), hbyte, Mem.update_blit m a _ _ hx hn]

theorem flipBlock_out {i : ℕ} (hi : ∀ x ∈ flips, x.byte ≠ i) : flipBlock f flips i = f i := by
  induction flips with
  | nil => rfl
  | cons x rest ih =>
    rw [flipBlock, Function.update_of_ne (hi x List.mem_cons_self).symm,
      ih fun y hy => hi y (List.mem_cons_of_mem x hy)]

theorem xorBytes_flipBlock {n : ℕ} (hlt : ∀ x ∈ flips, x.byte < n) :
    xorBytes (flipBlock f flips) n = xorBytes f n ^^^ flipMask flips := by
  induction flips with
  | nil => exact BitVec.xor_zero.symm
  | cons x rest ih =>
    rw [flipBlock, xorBytes_update _ (hlt x List.mem_cons_self),
      ih fun y hy => hlt y (List.mem_cons_of_mem x hy), BitVec.xor_assoc]
    rfl

/-- **The masks of one or two flips cancel only in the same bit.** -/
theorem flipMask_eq_zero_iff (hlen : flips.length = 1 ∨ flips.length = 2) :
    flipMask flips = 0 ↔ SameBit flips := by
  have hone : ∀ k : Fin 8, (0 : Byte) ^^^ BitVec.twoPow 8 k ≠ 0 := by decide
  have htwo : ∀ k l : Fin 8, (0 : Byte) ^^^ BitVec.twoPow 8 l ^^^ BitVec.twoPow 8 k = 0 ↔ k = l := by
    decide
  rcases hlen with hlen | hlen
  · obtain ⟨x, rfl⟩ := List.length_eq_one_iff.1 hlen
    refine iff_of_false (hone x.bit) ?_
    rintro ⟨i, j, k, he⟩
    cases he
  · obtain ⟨⟨i, k⟩, ⟨j, l⟩, rfl⟩ := List.length_eq_two.1 hlen
    refine (htwo k l).trans ⟨?_, ?_⟩
    · rintro rfl
      exact ⟨i, j, k, rfl⟩
    · rintro ⟨i', j', k', he⟩
      cases he
      rfl

/-- The verdict on a block with flips among its payload bytes. -/
theorem blockStatus_flipBlock_iff (hok : blockStatus h f = .success)
    (hpos : ∀ x ∈ flips, blockHeadSize ≤ x.byte ∧ x.byte < h.blockSize.toNat - 2) :
    blockStatus h (flipBlock f flips) = .success ↔ flipMask flips = 0 := by
  obtain ⟨hsize, hcrc⟩ := blockStatus_eq_success.1 hok
  have hhead : ∀ i < 8, flipBlock f flips i = f i := fun i hi => flipBlock_out fun x hx => by
    have := (hpos x hx).1
    simp only [blockHeadSize] at this
    omega
  have htail : ∀ i, h.blockSize.toNat - 2 ≤ i → flipBlock f flips i = f i := fun i hi =>
    flipBlock_out fun x hx => by
      have := (hpos x hx).2
      omega
  have hword : word (flipBlock f flips) 4 = word f 4 := word_congr fun k hk => hhead _ (by omega)
  have hload : loadCrc (flipBlock f flips) (h.blockSize.toNat - 2) = loadCrc f (h.blockSize.toNat - 2) := by
    unfold loadCrc
    rw [htail _ (by omega), htail _ (by omega)]
  rw [blockStatus_eq_success, hword, and_iff_right hsize, hload, ← hcrc, flashCalcCrc16_inj,
    xorBytes_flipBlock fun x hx => (hpos x hx).2]
  constructor
  · intro he
    have := congrArg (xorBytes f (h.blockSize.toNat - 2) ^^^ ·) he
    simpa [← BitVec.xor_assoc] using this
  · intro he
    rw [he]
    exact BitVec.xor_zero

/-- A payload with a flipped byte is another one. -/
theorem blockData_flipBlock_ne {i j n : ℕ} {k : Fin 8} (hij : i ≠ j) (hi : blockHeadSize ≤ i)
    (hn : i < blockHeadSize + n) : blockData f n ≠ blockData (flipBlock f [⟨i, k⟩, ⟨j, k⟩]) n := by
  intro he
  have hin : i - blockHeadSize < n := by omega
  have hbyte := congrArg (fun l => l.getD (i - blockHeadSize) 0) he
  simp only [blockData, List.getD_eq_getElem?_getD, List.getElem?_map, List.getElem?_range hin,
    Option.map_some, Option.getD_some] at hbyte
  have hout : flipBlock f [⟨j, k⟩] i = f i := flipBlock_out (by simpa using hij.symm)
  rw [Nat.add_sub_cancel' hi, flipBlock, Function.update_self, hout] at hbyte
  have hmask : (0 : Byte) = BitPos.mask ⟨i, k⟩ := by
    have := congrArg (f i ^^^ ·) hbyte
    simpa [← BitVec.xor_assoc] using this
  exact absurd hmask ((by decide : ∀ k : Fin 8, (0 : Byte) ≠ BitVec.twoPow 8 k) k)

/-! ## The newest block -/

theorem Stores.newest (hc : Laid h) {m : Mem 32} {img : Slots Buf} {p q : Bool} {n s : ℕ}
    (hshow : Shows h m img) (hh : (flashLog h).Holds img p n) (hnew : NewestBlock h m q s) :
    q = p ∧ s = n := by
  obtain ⟨hpage, ⟨h1, hs⟩, hblock, hlast⟩ := hnew
  have hblank : ∀ v, word (fun _ => 0) 0 ≠ v → word (flashLog h).blank 0 ≠ v := fun _ hv => hv
  have hq : q = p := by
    by_contra hne
    rw [hshow.load32_page hc, show q = !p from Bool.eq_not.2 hne, hh.other] at hpage
    exact hblank _ (by decide) hpage
  subst hq
  have hn : n ≤ h.blockNum.toNat := hc.le_blockNum hh.le
  refine ⟨rfl, ?_⟩
  rcases Nat.lt_trichotomy s n with hlt | heq | hgt
  · have hused := hlast n hlt hn
    rw [hshow.load32_slot hc hn] at hused
    exact absurd (beq_iff_eq.1 (hh.used n hh.pos (Nat.le_refl n))) hused
  · exact heq
  · rw [hshow.load32_slot hc hs, hh.unused s hgt] at hblock
    exact absurd hblock (hblank _ (by decide))

section Flipped

variable {img : Slots Buf} {st : FlashState} {p : Bool} {n : ℕ} {data : List Byte} (hc : Laid h)
  (hshow : Shows h st.mem img) (hh : (flashLog h).Holds img p n) (hblock : img p n = flashBlock h data)
  (hpos : ∀ x ∈ flips, blockHeadSize ≤ x.byte ∧ x.byte < h.blockSize.toNat - 2)
include hc hshow hh hblock hpos

/-- The log after the flips: the last block is replaced. -/
theorem flipBits_shows :
    Shows h (flipBits st.mem (slotAddress h p n) flips) (img.put p n (flipBlock (img p n) flips)) := by
  have hle : n ≤ h.blockNum.toNat := hc.le_blockNum hh.le
  have hsize := h.blockSize.isLt
  have hbytes : ∀ i < h.blockSize.toNat, flipBlock (st.mem.bytes (slotAddress h p n)) flips i =
      flipBlock (img p n) flips i := by
    intro i hi
    clear hpos
    induction flips generalizing i with
    | nil => exact hshow.bytes_slot hle hi
    | cons x rest ih =>
      by_cases hx : i = x.byte
      · subst hx
        rw [flipBlock, flipBlock, Function.update_self, Function.update_self, ih _ hi]
      · rw [flipBlock, flipBlock, Function.update_of_ne hx, Function.update_of_ne hx, ih i hi]
  rw [flipBits_eq st.mem _ (Nat.le_of_lt hsize) fun x hx => by have := (hpos x hx).2; omega]
  refine (hshow.blit hc p _ hle (Nat.le_refl _)).congr fun q t i hi => ?_
  by_cases hqt : q = p ∧ t = n
  · obtain ⟨rfl, rfl⟩ := hqt
    rw [Slots.put_same, Slots.put_same, Buf.blit_in ⟨Nat.zero_le i, by omega⟩]
    exact hbytes i hi
  · rw [Slots.put, Slots.put, if_neg hqt, if_neg hqt]

omit hshow in
theorem flipBits_holds : (flashLog h).Holds (img.put p n (flipBlock (img p n) flips)) p n := by
  refine hh.replace (beq_iff_eq.2 ?_)
  rw [hblock, ← word0_flashBlock hc.eight_le data]
  refine word_congr fun k hk => flipBlock_out fun x hx => ?_
  have := (hpos x hx).1
  simp only [blockHeadSize] at this
  omega

/-- What reads return before and after the flips. -/
theorem readsAsBefore_iff (hbs : 12 ≤ h.blockSize.toNat)
    (hlen : flips.length = 1 ∨ flips.length = 2) (hnd : flips.Nodup) {st' : FlashState}
    (hmem : st'.mem = flipBits st.mem (slotAddress h p n) flips) :
    ReadsAsBefore h st st' ↔ (flashLog h).blocks = 0 ∨ ¬ SameBit flips := by
  have hshow' := flipBits_shows hc hshow hh hblock hpos
  rw [← hmem] at hshow'
  have hh' := flipBits_holds hc hh hblock hpos
  by_cases hnum : (flashLog h).blocks = 0
  · refine iff_of_true (fun buf d st1 _ hrun => ?_) (.inl hnum)
    rw [flashRead_none hc hshow' (PageLog.current_eq_none hnum _)] at hrun
    cases hrun
  have hle := hh.le_blocks (Nat.pos_of_ne_zero hnum)
  have hcur := hh.current_eq hle
  have hcur' := hh'.current_eq hle
  have hok : blockStatus h (img p n) = .success := by
    rw [hblock]
    exact blockStatus_flashBlock hbs data
  have hstatus := blockStatus_flipBlock_iff hok hpos
  rw [flipMask_eq_zero_iff hlen] at hstatus
  have hread' := fun (buf : List Byte) (hbuf : blockHeadSize + buf.length ≤ h.blockSize.toNat) =>
    flashRead_current hc hshow' hcur' hbuf
  simp only [Slots.put_same] at hread'
  by_cases hsame : SameBit flips
  · refine iff_of_false (fun hreads => ?_) fun hor => hor.elim hnum fun hne => hne hsame
    obtain ⟨i, j, k, rfl⟩ := hsame
    have hij : i ≠ j := by
      rintro rfl
      exact absurd hnd (by simp)
    obtain ⟨hi8, hilt⟩ : blockHeadSize ≤ i ∧ i < h.blockSize.toNat - 2 := hpos ⟨i, k⟩ (by simp)
    -- a read of the whole payload
    have hbuf : blockHeadSize + (List.replicate (h.blockSize.toNat - 10) (0 : Byte)).length ≤
        h.blockSize.toNat := by
      simp only [List.length_replicate, blockHeadSize]
      omega
    obtain ⟨st1, hrun1, -⟩ := hread' (List.replicate (h.blockSize.toNat - 10) 0) hbuf
    rw [hstatus.2 ⟨i, j, k, rfl⟩, if_pos rfl] at hrun1
    obtain ⟨st2, hrun2⟩ := hreads _ _ _ (by
      simp only [List.length_replicate, blockHeadSize, blockCrcSize]
      omega) hrun1
    obtain ⟨st3, hrun3, -⟩ := flashRead_current hc hshow hcur hbuf
    rw [hok, if_pos rfl] at hrun3
    rw [hrun2] at hrun3
    simp only [EStateM.Result.ok.injEq, Prod.mk.injEq, Option.some.injEq, true_and] at hrun3
    refine blockData_flipBlock_ne hij hi8 ?_ hrun3.1.symm
    simp only [List.length_replicate, blockHeadSize]
    omega
  · refine iff_of_true (fun buf d st1 hbuf hrun => ?_) (.inr hsame)
    obtain ⟨st2, hrun2, -⟩ := hread' buf (by simp only [blockHeadSize, blockCrcSize] at hbuf ⊢; omega)
    rw [hrun] at hrun2
    simp only [EStateM.Result.ok.injEq, Prod.mk.injEq] at hrun2
    exact absurd (hstatus.1 hrun2.1.1.symm) hsame

end Flipped

/-- Every state with a newest block has one of clean runs. -/
theorem readsAsBefore_newest_iff (hc : Laid h) (hbs : 12 ≤ h.blockSize.toNat) {st : FlashState}
    (hst : Written h st) {p : Bool} {s : ℕ} (hnew : NewestBlock h st.mem p s) (hnd : flips.Nodup)
    (hlen : flips.length = 1 ∨ flips.length = 2)
    (hpos : ∀ x ∈ flips, blockHeadSize ≤ x.byte ∧ x.byte < h.blockSize.toNat - 2) :
    ReadsAsBefore h st { st with mem := flipBits st.mem (slotAddress h p s) flips } ↔
      (flashLog h).blocks = 0 ∨ ¬ SameBit flips := by
  rcases hst.clean hc with ⟨-, hm | ⟨data, img, q, n, hshow, hh, hblock⟩⟩
  · -- erased pages have no newest block
    have hpage := hnew.page
    rw [(hm.shows hc).load32_page hc] at hpage
    exact absurd hpage (show word (fun _ => 0) 0 ≠ pageValid by decide)
  · obtain ⟨rfl, rfl⟩ := Stores.newest hc hshow hh hnew
    exact readsAsBefore_iff hc hshow hh hblock hpos hbs hlen hnd rfl

/-- **One or two flipped bits are noticed exactly when** they are not two in the
same bit (or no block is searched at all). -/
theorem bit_errors_noticed_iff (h : FlashInfo) (hc : Configured h) (hbs : 16 ≤ h.blockSize.toNat)
    (st : FlashState) (hst : Written h st) (p : Bool) (s : ℕ) (hnew : NewestBlock h st.mem p s)
    (flips : List BitPos) (hnd : flips.Nodup) (hlen : flips.length = 1 ∨ flips.length = 2)
    (hpos : ∀ x ∈ flips, blockHeadSize ≤ x.byte ∧ x.byte < h.blockSize.toNat - 2) :
    ReadsAsBefore h st { st with mem := flipBits st.mem (slotAddress h p s) flips } ↔
      h.blockNum.toNat % 65536 = 0 ∨ ¬ SameBit flips := by
  rw [readsAsBefore_newest_iff hc.laid (by omega) hst hnew hnd hlen hpos,
    show (flashLog h).blocks = h.blockNum.toNat % 65536 from BitVec.toNat_setWidth _ _]

/-- One block with the payload `1`. -/
def smallBlock : FlashState := endState ((flashWrite (some smallFlash) (some [1])).run zeroFlash)

theorem smallBlock_written : Written smallFlash smallBlock := by
  have hclean := zeroFlash_written.clean smallFlash_configured.laid
  obtain ⟨st', hrun, -⟩ := hclean.write smallFlash_configured.laid [1]
  unfold smallBlock
  rw [hrun]
  exact zeroFlash_written.write hrun

theorem smallBlock_newest : NewestBlock smallFlash smallBlock.mem false 1 where
  page := by decide +kernel
  range := by decide
  block := by decide +kernel
  last t ht hle := by
    have hle : t ≤ 2 := hle
    obtain rfl : t = 2 := by omega
    decide +kernel

/-- Flips in different bits of two bytes are noticed. -/
theorem bit_errors_noticed_small : ReadsAsBefore smallFlash smallBlock
    { smallBlock with mem := flipBits smallBlock.mem (slotAddress smallFlash false 1) [⟨8, 0⟩, ⟨9, 1⟩] } :=
  (bit_errors_noticed_iff smallFlash smallFlash_configured (by decide) smallBlock smallBlock_written false 1
    smallBlock_newest [⟨8, 0⟩, ⟨9, 1⟩] (by decide) (.inr rfl) (by decide)).2 (.inr (by
      rintro ⟨i, j, k, he⟩
      cases he))

/-- Flips in the lowest bits of the first two payload bytes are not. -/
theorem bit_errors_unnoticed : ¬ ∀ h, Configured h → 16 ≤ h.blockSize.toNat → ∀ st, Written h st →
    ∀ p s, NewestBlock h st.mem p s → ∀ flips : List BitPos, flips.Nodup →
      (flips.length = 1 ∨ flips.length = 2) →
      (∀ x ∈ flips, blockHeadSize ≤ x.byte ∧ x.byte < h.blockSize.toNat - 2) →
        ReadsAsBefore h st { st with mem := flipBits st.mem (slotAddress h p s) flips } := by
  intro hall
  have hreads := hall smallFlash smallFlash_configured (by decide) smallBlock smallBlock_written false 1
    smallBlock_newest [⟨8, 0⟩, ⟨9, 0⟩] (by decide) (.inr rfl) (by decide)
  rw [readsAsBefore_newest_iff smallFlash_configured.laid (by decide) smallBlock_written smallBlock_newest
    (by decide) (.inr rfl) (by decide)] at hreads
  rcases hreads with hnum | hsame
  · exact absurd hnum (by decide)
  · exact hsame ⟨8, 9, 0, rfl⟩

end Stm32Handler.Flash
