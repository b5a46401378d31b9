import Mathlib.Data.List.Find
import Mathlib.Data.Nat.Bitwise
import Stm32Handler.Flash.Driver
import Stm32Handler.Lib.PageLog

/-!
# The driver's memory as a log over two pages

`Shows h m img` says the memory `m` holds the slots `img`: slot `s` of a page
is the `block_size` bytes at `page_addr + s * block_size`. With the marks of
`flashLog` the search of `flash_find_block` is the search of the page log, a
block write is a put and a page erase an erase.

`Configured` is what a handler set up by `flash_driver_init` has, with
addresses and sizes that are multiples of 4 and pages that do not meet; the
arithmetic of slots is drawn once from `Laid`, the part of it that matters.
-/

namespace Stm32Handler.Flash

/-- A handler `flash_driver_init` accepted, word-aligned, with disjoint pages. -/
structure Configured (h : FlashInfo) : Prop where
  init : ∃ g, flashDriverInit (some g) h.page0Address h.page1Address h.pageSize h.blockSize = some h
  page0_aligned : h.page0Address.toNat % 4 = 0
  page1_aligned : h.page1Address.toNat % 4 = 0
  pageSize_aligned : h.pageSize.toNat % 4 = 0
  blockSize_aligned : h.blockSize.toNat % 4 = 0
  disjoint : Mem.Disjoint h.page0Address h.page1Address h.pageSize.toNat

/-- A handler as `flash_driver_init` leaves it with `pdPASS`. -/
structure Accepted (h : FlashInfo) : Prop where
  init : ∃ g, flashDriverInit (some g) h.page0Address h.page1Address h.pageSize h.blockSize = some h

/-- What the arithmetic of slots rests on: blocks of whole words in pages that
do not meet. -/
structure Laid (h : FlashInfo) : Prop extends Accepted h where
  blockSize_aligned : h.blockSize.toNat % 4 = 0
  disjoint : Mem.Disjoint h.page0Address h.page1Address h.pageSize.toNat

theorem Configured.laid {h : FlashInfo} (hc : Configured h) : Laid h :=
  ⟨⟨hc.init⟩, hc.blockSize_aligned, hc.disjoint⟩

/-- The address of page 0 (`false`) or page 1 (`true`). -/
def pageAddress (h : FlashInfo) (p : Bool) : BitVec 32 := if p then h.page1Address else h.page0Address

def slotAddress (h : FlashInfo) (p : Bool) (s : ℕ) : BitVec 32 :=
  pageAddress h p + BitVec.ofNat 32 (s * h.blockSize.toNat)

/-- `FLASH_SEARCH_BLOCK_WRITE_FULL_0` or `_1`. -/
def fullStatus (p : Bool) : FlashSearchStatus := if p then .blockWriteFull1 else .blockWriteFull0

/-- The memory holds the slots `img`. -/
def Shows (h : FlashInfo) (m : Mem 32) (img : Slots Buf) : Prop :=
  ∀ p s i, s ≤ h.blockNum.toNat → i < h.blockSize.toNat →
    m.bytes (pageAddress h p) (s * h.blockSize.toNat + i) = img p s i

/-- The marks of the driver; the search counts with the 16 bit `block_num`. -/
def flashLog (h : FlashInfo) : PageLog Buf where
  page f := word f 0 == pageValid
  block f := word f 0 == blockValid
  free f := word f 0 == pageErased
  blank := fun _ => 0
  blocks := (h.blockNum.setWidth 16).toNat
  free_blank := by decide
  not_page_of_free := fun hf => by rw [beq_iff_eq] at hf; rw [hf]; decide
  not_block_of_free := fun hf => by rw [beq_iff_eq] at hf; rw [hf]; decide

/-! ## The configuration -/

/-- The alignment test of `flash_driver_init` looks at bit 2. -/
theorem and_four_eq_zero_iff (x : BitVec 32) : x &&& 0x4 = 0 ↔ x.toNat / 4 % 2 = 0 := by
  have hand : x.toNat &&& 4 = x.toNat / 4 % 2 * 4 := by
    rw [show 4 = 2 ^ 2 from rfl, Nat.and_two_pow, Nat.toNat_testBit]
  rw [← BitVec.toNat_inj, BitVec.toNat_and]
  show x.toNat &&& 4 = 0 ↔ _
  rw [hand]
  omega

theorem or_and_four_eq_zero {x y : BitVec 32} :
    (x ||| y) &&& 0x4 = 0 ↔ x &&& 0x4 = 0 ∧ y &&& 0x4 = 0 := by
  rw [BitVec.and_or_distrib_right]
  exact BitVec.or_eq_zero_iff

namespace Accepted

variable {h : FlashInfo} (hc : Accepted h)
include hc

theorem init_eq : 0 < h.blockSize.toNat ∧ h.blockSize.toNat ≤ maxBlockSize ∧
    2 * h.blockSize.toNat ≤ h.pageSize.toNat ∧
    h.blockNum.toNat = h.pageSize.toNat / h.blockSize.toNat - 1 := by
  obtain ⟨g, hg⟩ := hc.init
  simp only [flashDriverInit] at hg
  split at hg
  · cases hg
  split at hg
  · cases hg
  next hsize _ =>
  simp only [not_or] at hsize
  obtain ⟨-, hbs, hmax, hps⟩ := hsize
  have hnum := congrArg FlashInfo.blockNum (Option.some.inj hg)
  simp only at hnum
  have hbs : h.blockSize.toNat ≠ 0 := fun e => hbs (BitVec.eq_of_toNat_eq e)
  have hmax : h.blockSize.toNat ≤ maxBlockSize := by
    simpa [BitVec.lt_def, maxBlockSize] using hmax
  have hps : 2 * h.blockSize.toNat ≤ h.pageSize.toNat := by
    simp only [BitVec.lt_def, BitVec.toNat_mul, Nat.not_lt] at hps
    simp only [maxBlockSize] at hmax
    rw [show (2 : BitVec 32).toNat = 2 from rfl, Nat.mod_eq_of_lt (by omega)] at hps
    omega
  have hdiv : 1 ≤ h.pageSize.toNat / h.blockSize.toNat :=
    (Nat.le_div_iff_mul_le (by omega)).2 (by omega)
  refine ⟨Nat.pos_of_ne_zero hbs, hmax, hps, ?_⟩
  have hlt := Nat.lt_of_le_of_lt (Nat.div_le_self h.pageSize.toNat h.blockSize.toNat) h.pageSize.isLt
  rw [← hnum, BitVec.toNat_sub, BitVec.toNat_udiv]
  rw [show (1 : BitVec 32).toNat = 1 from rfl,
    show 2 ^ 32 - 1 + h.pageSize.toNat / h.blockSize.toNat =
      h.pageSize.toNat / h.blockSize.toNat - 1 + 2 ^ 32 by omega,
    Nat.add_mod_right, Nat.mod_eq_of_lt (by omega)]

/-- No value has bit 2 set. -/
theorem bit_two : (h.page0Address ||| h.page1Address ||| h.pageSize ||| h.blockSize) &&& 0x4 = 0 := by
  obtain ⟨g, hg⟩ := hc.init
  simp only [flashDriverInit] at hg
  split at hg
  · cases hg
  split at hg
  · cases hg
  next hbit => exact not_not.1 hbit

theorem blockSize_pos : 0 < h.blockSize.toNat := hc.init_eq.1

theorem blockSize_le : h.blockSize.toNat ≤ maxBlockSize := hc.init_eq.2.1

theorem blockNum_pos : 1 ≤ h.blockNum.toNat := by
  obtain ⟨hpos, -, hps, hnum⟩ := hc.init_eq
  have : 2 ≤ h.pageSize.toNat / h.blockSize.toNat := (Nat.le_div_iff_mul_le hpos).2 hps
  omega

/-- All slots lie in the page. -/
theorem slots_le : (h.blockNum.toNat + 1) * h.blockSize.toNat ≤ h.pageSize.toNat := by
  obtain ⟨hpos, -, hps, hnum⟩ := hc.init_eq
  have : 2 ≤ h.pageSize.toNat / h.blockSize.toNat := (Nat.le_div_iff_mul_le hpos).2 hps
  rw [hnum, Nat.sub_add_cancel (by omega)]
  exact Nat.div_mul_le_self _ _

theorem slot_lt {s i : ℕ} (hs : s ≤ h.blockNum.toNat) (hi : i < h.blockSize.toNat) :
    s * h.blockSize.toNat + i < h.pageSize.toNat := by
  have h1 := Nat.mul_le_mul_right h.blockSize.toNat (Nat.succ_le_succ hs)
  have h2 := hc.slots_le
  rw [Nat.succ_mul] at h1
  simp only [Nat.succ_eq_add_one] at h1
  omega

theorem blockSize16 : (h.blockSize.setWidth 16).toNat = h.blockSize.toNat := by
  have := hc.blockSize_le
  rw [BitVec.toNat_setWidth, Nat.mod_eq_of_lt (by simp only [maxBlockSize] at this; omega)]

end Accepted

namespace Laid

variable {h : FlashInfo} (hc : Laid h)
include hc

theorem words_eq : h.blockSize.toNat / 4 * 4 = h.blockSize.toNat := by
  have := hc.blockSize_aligned
  omega

/-- Four bytes are refused: bit 2 of the size is clear. -/
theorem eight_le : 8 ≤ h.blockSize.toNat := by
  have hbit := (or_and_four_eq_zero.1 hc.bit_two).2
  rw [and_four_eq_zero_iff] at hbit
  have := hc.blockSize_aligned
  have := hc.blockSize_pos
  omega

theorem disjoint_pages {p q : Bool} (hpq : q ≠ p) :
    Mem.Disjoint (pageAddress h q) (pageAddress h p) h.pageSize.toNat := by
  cases p <;> cases q
  · exact absurd rfl hpq
  · exact hc.disjoint.symm
  · exact hc.disjoint
  · exact absurd rfl hpq

end Laid

theorem blocks_le (h : FlashInfo) : (flashLog h).blocks ≤ h.blockNum.toNat := by
  show (h.blockNum.setWidth 16).toNat ≤ _
  rw [BitVec.toNat_setWidth]
  exact Nat.mod_le _ _

/-- The two counts agree where the stored one fits the cast. -/
theorem blocks_eq {h : FlashInfo} (hnum : h.blockNum.toNat ≤ 65535) :
    (flashLog h).blocks = h.blockNum.toNat := by
  show (h.blockNum.setWidth 16).toNat = _
  rw [BitVec.toNat_setWidth, Nat.mod_eq_of_lt (Nat.lt_succ_of_le hnum)]

/-- A page has room for the slots in use, the one written unconditionally included. -/
theorem Laid.le_blockNum {h : FlashInfo} (hc : Laid h) {s : ℕ} (hs : s ≤ max (flashLog h).blocks 1) :
    s ≤ h.blockNum.toNat := by
  apply Nat.le_trans hs
  exact Nat.max_le.2 ⟨blocks_le h, hc.blockNum_pos⟩

/-! ## Reading slots -/

namespace Shows

variable {h : FlashInfo} {m : Mem 32} {img : Slots Buf}

/-- Every memory shows its own slots. -/
theorem self (h : FlashInfo) (m : Mem 32) :
    Shows h m fun p s i => m.bytes (pageAddress h p) (s * h.blockSize.toNat + i) := fun _ _ _ _ _ => rfl

theorem bytes_slot (hs : Shows h m img) {p : Bool} {s i : ℕ} (hle : s ≤ h.blockNum.toNat)
    (hi : i < h.blockSize.toNat) : m.bytes (slotAddress h p s) i = img p s i := by
  unfold slotAddress
  rw [Mem.bytes_offset]
  exact hs p s i hle hi

theorem load32_slot (hs : Shows h m img) (hc : Laid h) {p : Bool} {s : ℕ}
    (hle : s ≤ h.blockNum.toNat) : m.load32 (slotAddress h p s) = word (img p s) 0 :=
  word_congr fun k hk => by
    rw [Nat.zero_add]
    exact hs.bytes_slot hle (Nat.lt_of_lt_of_le hk (Nat.le_trans (by decide) hc.eight_le))

theorem load32_page (hs : Shows h m img) (hc : Laid h) (p : Bool) :
    m.load32 (pageAddress h p) = word (img p 0) 0 := by
  have := hs.load32_slot hc (p := p) (Nat.zero_le _)
  unfold slotAddress at this
  rwa [Nat.zero_mul, BitVec.add_zero] at this

/-! ## Puts and erases -/

/-- The first `n` bytes of a block written over a slot. -/
theorem blit (hs : Shows h m img) (hc : Laid h) (p : Bool) {s n : ℕ} (f : Buf)
    (hle : s ≤ h.blockNum.toNat) (hn : n ≤ h.blockSize.toNat) :
    Shows h (m.blit (slotAddress h p s) n f) (img.put p s ((img p s).blit 0 n f)) := by
  intro q t i ht hi
  have hps := h.pageSize.isLt
  have hlt := hc.slot_lt ht hi
  have hend : s * h.blockSize.toNat + n ≤ h.pageSize.toNat := by
    have h1 := Nat.mul_le_mul_right h.blockSize.toNat (Nat.succ_le_succ hle)
    have h2 := hc.slots_le
    rw [Nat.succ_mul] at h1
    simp only [Nat.succ_eq_add_one] at h1
    omega
  by_cases hq : q = p
  · subst hq
    unfold slotAddress
    rw [Mem.bytes_blit m _ f (by omega) (by omega)]
    by_cases hts : t = s
    · subst hts
      rw [Slots.put_same]
      unfold Buf.blit
      rw [hs q t i ht hi, Nat.add_sub_cancel_left, Nat.sub_zero]
      simp only [Nat.zero_add, Nat.zero_le, true_and, Nat.le_add_right, Nat.add_lt_add_iff_left]
    · rw [Slots.put_slot_ne _ _ hts, Buf.blit_out]
      · exact hs q t i ht hi
      · -- another slot of the page
        rintro ⟨h1, h2⟩
        rcases Nat.lt_or_gt_of_ne hts with hlt | hgt
        · have := Nat.mul_le_mul_right h.blockSize.toNat (Nat.succ_le_of_lt hlt)
          rw [Nat.succ_mul] at this
          omega
        · have := Nat.mul_le_mul_right h.blockSize.toNat (Nat.succ_le_of_lt hgt)
          rw [Nat.succ_mul] at this
          omega
  · rw [Slots.put_page_ne _ _ hq, Mem.bytes_blit_disjoint, hs q t i ht hi]
    intro j hj
    unfold slotAddress
    rw [BitVec.add_assoc, ← BitVec.ofNat_add]
    exact hc.disjoint_pages hq _ _ hlt (by omega)

/-- Slots may be replaced by others with the same bytes. -/
theorem congr (hs : Shows h m img) {img' : Slots Buf}
    (himg : ∀ p s i, i < h.blockSize.toNat → img p s i = img' p s i) : Shows h m img' :=
  fun p s i hle hi => (hs p s i hle hi).trans (himg p s i hi)

/-- A block written over a slot. -/
theorem put (hs : Shows h m img) (hc : Laid h) (p : Bool) {s : ℕ} {f g : Buf}
    (hle : s ≤ h.blockNum.toNat) (hfg : ∀ i < h.blockSize.toNat, f i = g i) :
    Shows h (storeWords m (slotAddress h p s) f (h.blockSize.toNat / 4)) (img.put p s g) := by
  have hbs := hc.blockSize_le
  have hmul := hc.words_eq
  unfold storeWords
  rw [Mem.foldl_store32 m _ f (by simp only [maxBlockSize] at hbs; omega), hmul]
  refine (hs.blit hc p f hle (Nat.le_refl _)).congr fun q t i hi => ?_
  by_cases hqt : q = p ∧ t = s
  · obtain ⟨rfl, rfl⟩ := hqt
    rw [Slots.put_same, Slots.put_same, Buf.blit_in ⟨Nat.zero_le i, by omega⟩]
    exact hfg i hi
  · rw [Slots.put, Slots.put, if_neg hqt, if_neg hqt]

/-- Words of a block written over a slot until the power is lost. -/
theorem putTorn (hs : Shows h m img) (hc : Laid h) (p : Bool) {s j : ℕ} (f : Buf)
    (hle : s ≤ h.blockNum.toNat) (hj : j ≤ h.blockSize.toNat / 4) :
    Shows h (storeWords m (slotAddress h p s) f j) (img.put p s ((img p s).blit 0 (j * 4) f)) := by
  have hbs := hc.blockSize_le
  have hmul := hc.words_eq
  unfold storeWords
  rw [Mem.foldl_store32 m _ f (by simp only [maxBlockSize] at hbs; omega)]
  exact hs.blit hc p f hle (by omega)

theorem erase (hs : Shows h m img) (hc : Laid h) (p : Bool) :
    Shows h (memClear m (pageAddress h p) h.pageSize.toNat) (img.erase p (flashLog h).blank) := by
  intro q t i ht hi
  have hps := h.pageSize.isLt
  have hlt := hc.slot_lt ht hi
  unfold memClear
  by_cases hq : q = p
  · subst hq
    have hblit := @Mem.bytes_blit 32 m (pageAddress h q) 0 h.pageSize.toNat
      (t * h.blockSize.toNat + i) (fun _ => 0) (by omega) (by omega)
    rw [BitVec.add_zero] at hblit
    rw [hblit, Buf.blit_in ⟨by omega, by omega⟩, Slots.erase_same]
    rfl
  · rw [Slots.erase_ne _ _ hq, Mem.bytes_blit_disjoint, hs q t i ht hi]
    exact fun j hj => hc.disjoint_pages hq _ _ hlt hj

end Shows

/-! ## The search -/

section Search

variable {h : FlashInfo} {m : Mem 32} {img : Slots Buf}

theorem slotAddress_eq (hc : Laid h) (p : Bool) (s : ℕ) :
    pageAddress h p + BitVec.ofNat 32 (s * (h.blockSize.setWidth 16).toNat) = slotAddress h p s := by
  rw [hc.blockSize16]
  rfl

theorem fullStatus_eq (hc : Laid h) (p : Bool) :
    (if pageAddress h p = h.page0Address then FlashSearchStatus.blockWriteFull0
      else if pageAddress h p = h.page1Address then .blockWriteFull1 else .blockInvalid) =
      fullStatus p := by
  have hps : 0 < h.pageSize.toNat := by
    have := hc.slot_lt (Nat.zero_le _) hc.blockSize_pos
    omega
  have hne : h.page1Address ≠ h.page0Address := fun e =>
    hc.disjoint 0 0 hps hps (by rw [e])
  cases p
  · exact if_pos rfl
  · show (if h.page1Address = h.page0Address then _ else _) = _
    rw [if_neg hne]
    exact if_pos rfl

theorem flashSearchPage_write (hc : Laid h) (hs : Shows h m img) (p : Bool) :
    flashSearchPage h .write m (pageAddress h p) =
      match (flashLog h).freeSlot img p with
      | some s => .ok (slotAddress h p s)
      | none => fullStatus p := by
  have hfind : ((List.range (flashLog h).blocks).find? fun i =>
        m.load32 (slotAddress h p (i + 1)) == pageErased) =
      (List.range (flashLog h).blocks).find? fun i => (flashLog h).free (img p (i + 1)) := by
    refine List.find?_congr fun i hi => ?_
    have hle := blocks_le h
    rw [List.mem_range] at hi
    rw [hs.load32_slot hc (by omega)]
    rfl
  simp only [flashSearchPage, slotAddress_eq hc]
  rw [show (h.blockNum.setWidth 16).toNat = (flashLog h).blocks from rfl, hfind, PageLog.freeSlot,
    fullStatus_eq hc]
  cases (List.range (flashLog h).blocks).find? fun i => (flashLog h).free (img p (i + 1)) <;> rfl

theorem flashSearchPage_read (hc : Laid h) (hs : Shows h m img) (p : Bool) :
    flashSearchPage h .read m (pageAddress h p) =
      match (flashLog h).lastBlock img p with
      | some s => .ok (slotAddress h p s)
      | none => .blockInvalid := by
  have hfind : ((List.range (flashLog h).blocks).find? fun i =>
        m.load32 (slotAddress h p ((flashLog h).blocks - i)) == blockValid) =
      (List.range (flashLog h).blocks).find? fun i =>
        (flashLog h).block (img p ((flashLog h).blocks - i)) := by
    refine List.find?_congr fun i _ => ?_
    have hle := blocks_le h
    rw [hs.load32_slot hc (by omega)]
    rfl
  simp only [flashSearchPage, slotAddress_eq hc]
  rw [show (h.blockNum.setWidth 16).toNat = (flashLog h).blocks from rfl, hfind, PageLog.lastBlock]
  cases (List.range (flashLog h).blocks).find? fun i =>
    (flashLog h).block (img p ((flashLog h).blocks - i)) <;> rfl

/-- `flash_find_block` searches the active page. -/
theorem flashFindBlock_active (hc : Laid h) (hs : Shows h m img) (op : PageOperationAction)
    {p : Bool} (ha : (flashLog h).active img = some p) :
    flashFindBlock h op m = flashSearchPage h op m (pageAddress h p) := by
  obtain ⟨hp, hq⟩ := PageLog.active_eq_some.1 ha
  have hval := fun q => hs.load32_page hc q
  simp only [flashLog, beq_iff_eq, beq_eq_false_iff_ne, ne_eq, ← hval] at hp hq
  unfold flashFindBlock
  cases p
  · have h0 : m.load32 h.page0Address = pageValid := hp
    have h1 : ¬ m.load32 h.page1Address = pageValid := hq
    simp only [h0, h1, and_false, ↓reduceIte]
    rfl
  · have h0 : ¬ m.load32 h.page0Address = pageValid := hq
    have h1 : m.load32 h.page1Address = pageValid := hp
    simp only [h0, h1, and_true, ↓reduceIte]
    rfl

theorem flashFindBlock_inactive (hc : Laid h) (hs : Shows h m img) (op : PageOperationAction)
    (ha : (flashLog h).active img = none) :
    flashFindBlock h op m = .pageEmpty ∨ flashFindBlock h op m = .pageMultiInvalid := by
  have hval := fun q => hs.load32_page hc q
  have hf : ∀ q, (flashLog h).page (img q 0) = true ↔ m.load32 (pageAddress h q) = pageValid := fun q => by
    rw [hval]
    exact beq_iff_eq
  unfold flashFindBlock
  by_cases h0 : m.load32 h.page0Address = pageValid
  · by_cases h1 : m.load32 h.page1Address = pageValid
    · simp only [h0, h1, and_self, ↓reduceIte, or_true]
    · have hact : (flashLog h).active img = some false := PageLog.active_eq_some.2
        ⟨(hf false).2 h0, Bool.eq_false_iff.2 fun h' => h1 ((hf true).1 h')⟩
      rw [ha] at hact
      cases hact
  · by_cases h1 : m.load32 h.page1Address = pageValid
    · have hact : (flashLog h).active img = some true := PageLog.active_eq_some.2
        ⟨(hf true).2 h1, Bool.eq_false_iff.2 fun h' => h0 ((hf false).1 h')⟩
      rw [ha] at hact
      cases hact
    · simp only [h0, h1, and_self, ↓reduceIte, true_or]

theorem flashFindBlock_read (hc : Laid h) (hs : Shows h m img) {p : Bool} {s : ℕ}
    (hcur : (flashLog h).current img = some (p, s)) :
    flashFindBlock h .read m = .ok (slotAddress h p s) := by
  obtain ⟨ha, hlast⟩ := PageLog.current_eq_some.1 hcur
  rw [flashFindBlock_active hc hs .read ha, flashSearchPage_read hc hs, hlast]

theorem flashFindBlock_read_none (hc : Laid h) (hs : Shows h m img)
    (hcur : (flashLog h).current img = none) (a : BitVec 32) : flashFindBlock h .read m ≠ .ok a := by
  cases ha : (flashLog h).active img with
  | none =>
    rcases flashFindBlock_inactive hc hs .read ha with e | e <;> rw [e] <;> nofun
  | some p =>
    have hlast : (flashLog h).lastBlock img p = none := by
      unfold PageLog.current at hcur
      rw [ha] at hcur
      exact Option.map_eq_none_iff.1 hcur
    rw [flashFindBlock_active hc hs .read ha, flashSearchPage_read hc hs, hlast]
    nofun

/-- On a clean log the search for a free block finds the slot behind the last
block, or the page full. -/
theorem flashFindBlock_holds (hc : Laid h) (hs : Shows h m img) {p : Bool} {n : ℕ}
    (hh : (flashLog h).Holds img p n) :
    flashFindBlock h .write m =
      if n < (flashLog h).blocks then .ok (slotAddress h p (n + 1)) else fullStatus p := by
  rw [flashFindBlock_active hc hs .write hh.active_eq, flashSearchPage_write hc hs]
  by_cases hn : n < (flashLog h).blocks
  · rw [hh.freeSlot_eq hn, if_pos hn]
  · rw [hh.freeSlot_eq_none (Nat.not_lt.1 hn), if_neg hn]

end Search

end Stm32Handler.Flash
