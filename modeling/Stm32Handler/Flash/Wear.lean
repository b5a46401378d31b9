import Stm32Handler.Flash.RoundTrip
import Stm32Handler.Lib.PageRounds

/-!
# Layout and wear

The complete image of the two pages and the number of erases after any number
of writes. The slots come from the rounds of the page log (`PageLog.Filled`);
what the pages hold behind their last slot (`TailErased`) and the calls of the
device are followed on the states that the steps of `flash_write` leave
(`flashWrite_slot_state`, `flashWrite_switch_state`, `flashWrite_first_state`).
-/

namespace Stm32Handler.Flash

/-- Calls of `flash_empty_device`. -/
def DeviceCall.isEmpty : DeviceCall → Bool
  | .empty _ _ => true
  | .write _ _ => false

def eraseCount (st : FlashState) : ℕ := st.calls.countP DeviceCall.isEmpty

/-- The bytes of the pages behind the last slot are zero. -/
def TailErased (h : FlashInfo) (m : Mem 32) : Prop :=
  ∀ p i, (h.blockNum.toNat + 1) * h.blockSize.toNat ≤ i → i < h.pageSize.toNat →
    m.bytes (pageAddress h p) i = 0

variable {h : FlashInfo} {img : Slots Buf} {st st' : FlashState} {p : Bool}

@[simp] theorem eraseCount_stored (st : FlashState) (a : BitVec 32) (data : List Byte) :
    eraseCount (st.stored h a data) = eraseCount st := by
  simp [eraseCount, FlashState.stored, FlashState.wrote, DeviceCall.isEmpty]

@[simp] theorem eraseCount_headed (st : FlashState) (a : BitVec 32) :
    eraseCount (st.headed h a) = eraseCount st := by
  simp [eraseCount, FlashState.headed, FlashState.wrote, DeviceCall.isEmpty]

@[simp] theorem eraseCount_emptied (st : FlashState) (a size : BitVec 32) :
    eraseCount (st.emptied a size) = eraseCount st + 1 := by
  simp [eraseCount, FlashState.emptied, DeviceCall.isEmpty]

/-! ## Behind the last slot -/

/-- A block written over a slot ends before the tail. -/
theorem TailErased.store {m : Mem 32} (ht : TailErased h m) (hc : Laid h) (p : Bool) {s : ℕ}
    (hs : s ≤ h.blockNum.toNat) (f : Buf) :
    TailErased h (storeWords m (slotAddress h p s) f (h.blockSize.toNat / 4)) := by
  intro q i hi hlt
  have hps := h.pageSize.isLt
  have hbs := hc.blockSize_le
  have hend : s * h.blockSize.toNat + h.blockSize.toNat ≤ (h.blockNum.toNat + 1) * h.blockSize.toNat := by
    have := Nat.mul_le_mul_right h.blockSize.toNat (Nat.succ_le_succ hs)
    rwa [Nat.succ_mul] at this
  unfold storeWords
  rw [Mem.foldl_store32 m _ f (by simp only [maxBlockSize] at hbs; omega), hc.words_eq]
  by_cases hq : q = p
  · subst hq
    unfold slotAddress
    rw [Mem.bytes_blit m _ f (by omega) (by omega), Buf.blit_out (by omega)]
    exact ht q i hi hlt
  · rw [Mem.bytes_blit_disjoint]
    · exact ht q i hi hlt
    · intro j hj
      unfold slotAddress
      rw [BitVec.add_assoc, ← BitVec.ofNat_add]
      exact hc.disjoint_pages hq _ _ hlt (by omega)

theorem TailErased.empty {m : Mem 32} (ht : TailErased h m) (hc : Laid h) (p : Bool) :
    TailErased h (memClear m (pageAddress h p) h.pageSize.toNat) := by
  intro q i hi hlt
  have hps := h.pageSize.isLt
  unfold memClear
  by_cases hq : q = p
  · subst hq
    have hblit := @Mem.bytes_blit 32 m (pageAddress h q) 0 h.pageSize.toNat i (fun _ => 0) (by omega)
      (by omega)
    rw [BitVec.add_zero] at hblit
    rw [hblit, Buf.blit_in ⟨by omega, by omega⟩]
  · rw [Mem.bytes_blit_disjoint]
    · exact ht q i hi hlt
    · exact fun j hj => hc.disjoint_pages hq _ _ hlt hj

/-- From the first of its blank slots on a page is erased. -/
theorem erased_of_blank (hc : Laid h) {m : Mem 32} (hshow : Shows h m img) (ht : TailErased h m)
    {t : ℕ} (hblank : ∀ s, t ≤ s → img p s = (flashLog h).blank) {i : ℕ}
    (hle : t * h.blockSize.toNat ≤ i) (hi : i < h.pageSize.toNat) :
    m.bytes (pageAddress h p) i = 0 := by
  have hpos := hc.blockSize_pos
  by_cases htail : (h.blockNum.toNat + 1) * h.blockSize.toNat ≤ i
  · exact ht p i htail hi
  · have hs : i / h.blockSize.toNat ≤ h.blockNum.toNat :=
      Nat.le_of_lt_succ ((Nat.div_lt_iff_lt_mul hpos).2 (Nat.not_le.1 htail))
    have hslot := hshow p _ _ hs (Nat.mod_lt i hpos)
    rw [Nat.mul_comm, Nat.div_add_mod, hblank _ ((Nat.le_div_iff_mul_le hpos).2 hle)] at hslot
    exact hslot

/-! ## The state a successful call leaves -/

/-- After the header of a new page. -/
def FlashState.opened (h : FlashInfo) (st : FlashState) (pageAddr : BitVec 32) : FlashState :=
  { st with blockBuffer := fillPageHeader h st.blockBuffer }.headed h pageAddr

@[simp] theorem eraseCount_opened (st : FlashState) (a : BitVec 32) :
    eraseCount (st.opened h a) = eraseCount st := eraseCount_headed _ a

section States

variable (st : FlashState) (hf : st.fates = []) {data : List Byte}
include hf

/-- Success means `memcmp` found no difference. -/
theorem flashStoreBlock_state {status : FlashSearchStatus} {a : BitVec 32}
    (hrun : (flashStoreBlock h status a data).run st = .ok .success st') :
    (do flashEraseFull h status; return .success : FlashM FlashOperatorStatus).run (st.stored h a data) =
      .ok .success st' := by
  rw [flashStoreBlock_run st hf] at hrun
  split at hrun
  · cases hrun
  · exact hrun

/-- No full page to erase. -/
theorem flashStoreBlock_state_none {status : FlashSearchStatus} (h0 : status ≠ .blockWriteFull0)
    (h1 : status ≠ .blockWriteFull1) {a : BitVec 32}
    (hrun : (flashStoreBlock h status a data).run st = .ok .success st') :
    st' = st.stored h a data := by
  have hend := flashStoreBlock_state st hf hrun
  rw [run_bind_ok (flashEraseFull_none h0 h1 _), EStateM.run_pure] at hend
  exact (EStateM.Result.ok.inj hend).2.symm

theorem flashStoreBlock_state_full {a : BitVec 32}
    (hrun : (flashStoreBlock h (fullStatus p) a data).run st = .ok .success st') :
    st' = (st.stored h a data).emptied (pageAddress h p) h.pageSize := by
  have hend := flashStoreBlock_state st hf hrun
  have hempty := flashEmptyDevice_run (st.stored h a data) hf (pageAddress h p) h.pageSize
  have herase : (flashEraseFull h (fullStatus p)).run (st.stored h a data) =
      .ok () ((st.stored h a data).emptied (pageAddress h p) h.pageSize) := by
    rw [flashEraseFull_full, run_bind_ok hempty]
    rfl
  rw [run_bind_ok herase, EStateM.run_pure] at hend
  exact (EStateM.Result.ok.inj hend).2.symm

variable (hc : Laid h)
include hc

theorem flashWrite_slot_state (hshow : Shows h st.mem img) {s : ℕ}
    (ha : (flashLog h).active img = some p) (hs : (flashLog h).freeSlot img p = some s)
    (hrun : (flashWrite (some h) (some data)).run st = .ok .success st') :
    st' = st.stored h (slotAddress h p s) data := by
  rw [flashWrite_slot hc hshow data ha hs] at hrun
  have h0 : FlashSearchStatus.ok (slotAddress h p s) ≠ .blockWriteFull0 := nofun
  exact flashStoreBlock_state_none st hf h0 nofun hrun

/-- With the other page blank nothing is erased before its header. -/
theorem flashWrite_switch_state {n : ℕ} (hshow : Shows h st.mem img) (hh : (flashLog h).Holds img p n)
    (hn : (flashLog h).blocks ≤ n) (hrun : (flashWrite (some h) (some data)).run st = .ok .success st') :
    st' = ((st.opened h (pageAddress h (!p))).stored h (slotAddress h (!p) 1) data).emptied
      (pageAddress h p) h.pageSize := by
  have hhead := flashWriteHeader_run (h := h)
    { st with blockBuffer := fillPageHeader h st.blockBuffer } hf (pageAddress h (!p))
  have hstart : (flashStartPage h (fullStatus p)).run st =
      .ok (some (slotAddress h (!p) 1)) (st.opened h (pageAddress h (!p))) := by
    rw [flashStartPage_switch hc ⟨hshow, hf⟩ hh, hhead, pageAddress_first]
    rfl
  rw [flashWrite_full hc hshow data hh.active_eq (hh.freeSlot_eq_none hn), run_bind_ok hstart] at hrun
  exact flashStoreBlock_state_full (st.opened h (pageAddress h (!p))) hf hrun

/-- Blank pages need no erase. -/
theorem flashWrite_first_state (hshow : Shows h st.mem img) (himg : ∀ p s, img p s = (flashLog h).blank)
    (hrun : (flashWrite (some h) (some data)).run st = .ok .success st') :
    st' = (st.opened h (pageAddress h false)).stored h (slotAddress h false 1) data := by
  have hfree : ∀ p, (flashLog h).free (img p 0) = true := fun p => by
    rw [himg]
    exact (flashLog h).free_blank
  have hactive : (flashLog h).active img = none := by
    unfold PageLog.active
    rw [(flashLog h).not_page_of_free (hfree false), (flashLog h).not_page_of_free (hfree true)]
  obtain ⟨status, hstatus, hwrite⟩ := flashWrite_none hc hshow data hactive
  have hst : At h img [] { st with blockBuffer := fillPageHeader h st.blockBuffer } := ⟨hshow, hf⟩
  have hhead := flashWriteHeader_run (h := h)
    { st with blockBuffer := fillPageHeader h st.blockBuffer } hf (pageAddress h false)
  have hstart : (flashStartPage h status).run st =
      .ok (some (slotAddress h false 1)) (st.opened h (pageAddress h false)) := by
    rw [flashStartPage_none hstatus, run_bind_ok (setBlockBuffer_run _ _),
      run_bind_ok (flashEmptyUsedPage_free hc hst (hfree false)),
      run_bind_ok (flashEmptyUsedPage_free hc hst (hfree true)), hhead, pageAddress_first]
    rfl
  rw [hwrite, run_bind_ok hstart] at hrun
  have h0 : status ≠ .blockWriteFull0 := by rcases hstatus with rfl | rfl <;> nofun
  have h1 : status ≠ .blockWriteFull1 := by rcases hstatus with rfl | rfl <;> nofun
  exact flashStoreBlock_state_none (st.opened h (pageAddress h false)) hf h0 h1 hrun

end States

/-! ## The whole run -/

/-- A state of a run from erased pages that has stored `datas` and got to slot
`r` of round `q`; every new round has cost one erase. -/
structure Worn (h : FlashInfo) (datas : List (List Byte)) (erases q r : ℕ) (st : FlashState) : Prop where
  fates_eq : st.fates = []
  filled : ∃ img, Shows h st.mem img ∧ PageLog.Filled (flashLog h) img q r (datas.map (flashBlock h))
  tail : TailErased h st.mem
  count : eraseCount st = erases + q

section Run

variable {data : List Byte} {datas : List (List Byte)} {erases q r : ℕ} (hc : Laid h)
include hc

theorem flashWrite_first_worn (hpos : 0 < (flashLog h).blocks) (hm : ErasedPages h st.mem)
    (hf : st.fates = []) (data : List Byte) :
    ∃ st', (flashWrite (some h) (some data)).run st = .ok .success st' ∧
      Worn h [data] (eraseCount st) 0 1 st' := by
  obtain ⟨st', hrun, hat⟩ := flashWrite_pass hc ⟨hm.shows hc, hf⟩ data
  have hstate := flashWrite_first_state st hf hc (hm.shows hc) (fun _ _ => rfl) hrun
  have htail : TailErased h st.mem := fun p i _ hi => hm p i hi
  have hhead := htail.store hc false (Nat.zero_le _) (finishPageHeader (pageAddress h false)
    (fillPageHeader h st.blockBuffer))
  rw [pageAddress_slot] at hhead
  refine ⟨st', hrun, hat.fates_eq, ⟨_, hat.shows, ?_⟩, ?_, ?_⟩
  · exact PageLog.filled_first (block_flashBlock hc data) hpos (page_flashHeader h) fun _ _ => rfl
  · rw [hstate]
    exact hhead.store hc false hc.blockNum_pos _
  · rw [hstate, eraseCount_stored, eraseCount_opened]
    rfl

/-- **One write**: the next slot of the round, or the first one of the next
round at the price of an erase. -/
theorem Worn.write (hst : Worn h datas erases q r st) (data : List Byte) :
    ∃ st' q' r', (flashWrite (some h) (some data)).run st = .ok .success st' ∧
      Worn h (datas ++ [data]) erases q' r' st' := by
  obtain ⟨hf, ⟨img, hshow, hfilled⟩, htail, hcount⟩ := hst
  have hblock := block_flashBlock hc data
  obtain ⟨st', hrun, hat⟩ := flashWrite_pass hc ⟨hshow, hf⟩ data
  by_cases hr : r < (flashLog h).blocks
  · have hle : r + 1 ≤ h.blockNum.toNat := Nat.le_trans hr (blocks_le h)
    obtain ⟨hafter, hnext⟩ := hfilled.after_slot hblock hr (flashHeader h)
    have hstate := flashWrite_slot_state st hf hc hshow hfilled.holds.active_eq
      (hfilled.holds.freeSlot_eq hr) hrun
    rw [← hafter] at hnext
    refine ⟨st', q, r + 1, hrun, hat.fates_eq, ⟨_, hat.shows, ?_⟩, ?_, ?_⟩
    · rw [List.map_append]
      exact hnext
    · rw [hstate]
      exact htail.store hc _ hle _
    · rw [hstate, eraseCount_stored, hcount]
  · have hr := Nat.not_lt.1 hr
    have hnext := hfilled.after_full hblock hr (page_flashHeader h)
    have hstate := flashWrite_switch_state st hf hc hshow hfilled.holds hr hrun
    have hhead := htail.store hc (!PageLog.turn q) (Nat.zero_le _)
      (finishPageHeader (pageAddress h (!PageLog.turn q)) (fillPageHeader h st.blockBuffer))
    rw [pageAddress_slot] at hhead
    refine ⟨st', q + 1, 1, hrun, hat.fates_eq, ⟨_, hat.shows, ?_⟩, ?_, ?_⟩
    · rw [List.map_append]
      exact hnext
    · rw [hstate]
      exact (hhead.store hc _ hc.blockNum_pos _).empty hc _
    · rw [hstate, eraseCount_emptied, eraseCount_stored, eraseCount_opened, hcount]
      omega

theorem Worn.writes (hst : Worn h datas erases q r st) (more : List (List Byte)) :
    ∃ st' q' r', (flashWrites h more).run st = .ok (List.replicate more.length .success) st' ∧
      Worn h (datas ++ more) erases q' r' st' := by
  induction more generalizing datas q r st with
  | nil =>
    rw [List.append_nil]
    exact ⟨st, q, r, rfl, hst⟩
  | cons d more ih =>
    obtain ⟨st1, q1, r1, hrun1, hst1⟩ := hst.write hc d
    obtain ⟨st2, q2, r2, hrun2, hst2⟩ := ih hst1
    refine ⟨st2, q2, r2, ?_, ?_⟩
    · rw [flashWrites, run_bind_ok hrun1, run_bind_ok hrun2]
      rfl
    · rwa [List.append_assoc] at hst2

end Run

/-- Blocks of a page, `page_size/block_size - 1`. -/
def blocksPerPage (h : FlashInfo) : ℕ := h.pageSize.toNat / h.blockSize.toNat - 1

/-- The pages after the writes of `datas`: page `p` is valid, its first `r`
slots hold the last `r` payloads, and all the rest is erased. -/
structure Layout (h : FlashInfo) (datas : List (List Byte)) (p : Bool) (r : ℕ) (m : Mem 32) : Prop where
  valid : ∀ q, m.load32 (pageAddress h q) = pageValid ↔ q = p
  blocks : ∀ i < r, ∃ data, datas[datas.length - r + i]? = some data ∧
    Intact h data (m.bytes (slotAddress h p (i + 1)))
  unused : ∀ i, (r + 1) * h.blockSize.toNat ≤ i → i < h.pageSize.toNat →
    m.bytes (pageAddress h p) i = 0
  other : ∀ i < h.pageSize.toNat, m.bytes (pageAddress h (!p)) i = 0

theorem Worn.layout {datas : List (List Byte)} {erases q r : ℕ} (hc : Laid h)
    (hst : Worn h datas erases q r st) (hfit : ∀ d ∈ datas, Fits h d) :
    Layout h datas (PageLog.turn q) r st.mem := by
  obtain ⟨-, ⟨img, hshow, hfilled⟩, htail, -⟩ := hst
  have hlen : datas.length = q * (flashLog h).blocks + r := by
    rw [← hfilled.length_eq, List.length_map]
  have hle := blocks_le h
  refine ⟨fun p => ?_, fun i hi => ?_, fun i => ?_, fun i hi => ?_⟩
  · rw [hshow.load32_page hc]
    constructor
    · intro hp
      by_contra hne
      rw [show p = !PageLog.turn q from Bool.eq_not.2 hne, hfilled.holds.other] at hp
      exact absurd hp (show word (fun _ => 0) 0 ≠ pageValid by decide)
    · rintro rfl
      exact beq_iff_eq.1 hfilled.holds.page
  · have hblock := hfilled.block_eq i hi
    rw [List.getElem?_map, Option.map_eq_some_iff] at hblock
    obtain ⟨data, hdata, hblock⟩ := hblock
    have hle : i + 1 ≤ h.blockNum.toNat := by
      have := hfilled.le
      omega
    have hfit := hfit data (List.mem_of_getElem? hdata)
    refine ⟨data, ?_, (intact_flashBlock (hfit.le hc) hfit).congr hc hfit fun j hj => ?_⟩
    · rw [← hdata, hlen, Nat.add_sub_cancel]
    · rw [hshow.bytes_slot hle hj, hblock]
  · exact erased_of_blank hc hshow htail fun s hs => hfilled.holds.unused s hs
  · exact erased_of_blank hc hshow htail (t := 0) (fun s _ => hfilled.holds.other s) (by omega) hi

/-- **Layout and wear in closed form**: after `n` writes from erased pages, with
`N` blocks to a page, page `(n - 1) / N % 2` is valid with the last
`(n - 1) % N + 1` payloads, and there have been `(n - 1) / N` erases. -/
theorem flash_layout (h : FlashInfo) (hc : Configured h) (hbs : 12 ≤ h.blockSize.toNat)
    (hnum : h.blockNum.toNat ≤ 65535) (st : FlashState) (hm : ErasedPages h st.mem)
    (hf : st.fates = []) (datas : List (List Byte))
    (hfit : ∀ d ∈ datas, d.length ≤ (calcBufferSize h.blockSize).toNat) (hne : datas ≠ []) :
    ∃ st', (flashWrites h datas).run st = .ok (List.replicate datas.length .success) st' ∧
      Layout h datas ((datas.length - 1) / blocksPerPage h % 2 == 1)
        ((datas.length - 1) % blocksPerPage h + 1) st'.mem ∧
      eraseCount st' = eraseCount st + (datas.length - 1) / blocksPerPage h := by
  have hc := hc.laid
  have hblocks : (flashLog h).blocks = blocksPerPage h := by
    obtain ⟨-, -, -, heq⟩ := hc.init_eq
    rw [blocks_eq hnum, heq]
    rfl
  have hpos : 0 < (flashLog h).blocks := by
    rw [blocks_eq hnum]
    exact hc.blockNum_pos
  obtain ⟨d, more, rfl⟩ := List.exists_cons_of_ne_nil hne
  obtain ⟨st1, hrun1, hst1⟩ := flashWrite_first_worn hc hpos hm hf d
  obtain ⟨st2, q, r, hrun2, hst2⟩ := hst1.writes hc more
  have hlayout := hst2.layout hc fun d hd => fits_of_le hbs (hfit d hd)
  obtain ⟨-, ⟨img, -, hfilled⟩, -, hcount⟩ := hst2
  obtain ⟨hq, hr⟩ := hfilled.closed_form
  rw [List.length_map, hblocks] at hq hr
  refine ⟨st2, ?_, ?_, ?_⟩
  · rw [flashWrites, run_bind_ok hrun1, run_bind_ok hrun2]
    rfl
  · rw [hr, hq] at hlayout
    exact hlayout
  · rw [hcount, hq]
    rfl

/-- The third write to pages of two blocks is the first in page 1. -/
theorem flash_layout_switch :
    ∃ st', (flashWrites smallFlash [[1, 2], [3], [4, 5, 6]]).run zeroFlash =
        .ok (List.replicate 3 .success) st' ∧
      Layout smallFlash [[1, 2], [3], [4, 5, 6]] true 1 st'.mem ∧ eraseCount st' = 0 + 1 :=
  flash_layout smallFlash smallFlash_configured (by decide) (by decide) zeroFlash
    (fun _ _ _ => rfl) rfl [[1, 2], [3], [4, 5, 6]] (by decide) (by decide)

end Stm32Handler.Flash
