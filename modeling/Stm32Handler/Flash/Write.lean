import Stm32Handler.Flash.Steps

/-!
# `flash_write` as operations of the page log

`flash_write` performs the operations `writeOps` of the log it finds:
`flashWrite_pass` when all of them pass, from any contents, and, in the shape
clean runs have, `flashWrite_lost` and `flashWrite_fail` when the call stops
after the first `k`.

`Reached h datas st` are the states successful calls reach from erased pages;
they have that shape, with the last payload in the last block
(`Reached.stores`).
-/

namespace Stm32Handler.Flash

variable {h : FlashInfo} {img : Slots Buf} {fates : List Fate} {st : FlashState} {p : Bool}

/-- The log after `flash_write(data)`. -/
def written (h : FlashInfo) (img : Slots Buf) (data : List Byte) : Slots Buf :=
  (flashLog h).after img (flashHeader h) (flashBlock h data)

/-- The log after the first `k` device operations of `flash_write(data)`. -/
def writtenUpTo (h : FlashInfo) (img : Slots Buf) (data : List Byte) (k : ℕ) : Slots Buf :=
  (flashLog h).applyOps img (((flashLog h).writeOps img (flashHeader h) (flashBlock h data)).take k)

/-! ## Which steps are taken -/

section Cases

variable (hc : Laid h) (hshow : Shows h st.mem img) (data : List Byte)
include hc hshow

theorem flashWrite_slot {s : ℕ} (ha : (flashLog h).active img = some p)
    (hs : (flashLog h).freeSlot img p = some s) :
    (flashWrite (some h) (some data)).run st =
      (flashStoreBlock h (.ok (slotAddress h p s)) (slotAddress h p s) data).run st := by
  have hfind : flashFindBlock h .write st.mem = .ok (slotAddress h p s) := by
    rw [flashFindBlock_active hc hshow .write ha, flashSearchPage_write hc hshow, hs]
  unfold flashWrite
  simp only
  rw [run_bind_ok (EStateM.run_get _), hfind]

theorem flashWrite_full (ha : (flashLog h).active img = some p)
    (hs : (flashLog h).freeSlot img p = none) :
    (flashWrite (some h) (some data)).run st = (do
      match ← flashStartPage h (fullStatus p) with
      | some blockAddress => flashStoreBlock h (fullStatus p) blockAddress data
      | none => return .writeErr : FlashM FlashOperatorStatus).run st := by
  have hfind : flashFindBlock h .write st.mem = fullStatus p := by
    rw [flashFindBlock_active hc hshow .write ha, flashSearchPage_write hc hshow, hs]
  unfold flashWrite
  simp only
  rw [run_bind_ok (EStateM.run_get _), hfind]
  cases p <;> rfl

theorem flashWrite_none (ha : (flashLog h).active img = none) :
    ∃ status, (status = .pageEmpty ∨ status = .pageMultiInvalid) ∧
      (flashWrite (some h) (some data)).run st = (do
        match ← flashStartPage h status with
        | some blockAddress => flashStoreBlock h status blockAddress data
        | none => return .writeErr : FlashM FlashOperatorStatus).run st := by
  have hfind := flashFindBlock_inactive hc hshow .write ha
  refine ⟨flashFindBlock h .write st.mem, hfind, ?_⟩
  unfold flashWrite
  simp only
  rw [run_bind_ok (EStateM.run_get _)]
  generalize flashFindBlock h .write st.mem = status at hfind
  rcases hfind with rfl | rfl
  · rfl
  · rfl

end Cases

/-! ## A call whose operations all pass -/

/-- The end of a call that erases no full page. -/
theorem flashStoreBlock_success (hc : Laid h) (hst : At h img fates st)
    (hf : fates.headD .pass = .pass) {s : ℕ} (hs : s ≤ h.blockNum.toNat) {status : FlashSearchStatus}
    (h0 : status ≠ .blockWriteFull0) (h1 : status ≠ .blockWriteFull1) (data : List Byte) :
    ∃ st', (flashStoreBlock h status (slotAddress h p s) data).run st = .ok .success st' ∧
      At h (img.put p s (flashBlock h data)) fates.tail st' := by
  obtain ⟨st', hrun, hat⟩ := flashStoreBlock_pass (p := p) status data hc hst hs hf
  refine ⟨st', ?_, hat⟩
  rw [hrun, run_bind_ok (flashEraseFull_none h0 h1 st')]
  rfl

theorem flashWrite_none_pass (hc : Laid h) (hst : At h img [] st) (data : List Byte)
    (ha : (flashLog h).active img = none) :
    ∃ st', (flashWrite (some h) (some data)).run st = .ok .success st' ∧
      At h (written h img data) [] st' := by
  obtain ⟨status, hstatus, hrun⟩ := flashWrite_none hc hst.shows data ha
  obtain ⟨st1, hrun1, hat1, hbuf1⟩ := flashEmptyUsedPage_pass (p := false) hc
    (hst.setBuffer (fillPageHeader h st.blockBuffer)) img rfl
  obtain ⟨st2, hrun2, hat2, hbuf2⟩ := flashEmptyUsedPage_pass (p := true) hc hat1 img (by
    rw [PageLog.applyOps_eraseUnlessFree, if_neg fun h => Bool.noConfusion h.1])
  obtain ⟨st3, hrun3, hat3⟩ := flashWriteHeader_pass (p := false) hc hat2 (hbuf2.trans hbuf1) rfl
  have hstart : (flashStartPage h status).run st = .ok (some (slotAddress h false 1)) st3 := by
    rw [flashStartPage_none hstatus, run_bind_ok (setBlockBuffer_run _ _), run_bind_ok hrun1,
      run_bind_ok hrun2, hrun3]
  have h0 : status ≠ .blockWriteFull0 := by rcases hstatus with rfl | rfl <;> nofun
  have h1 : status ≠ .blockWriteFull1 := by rcases hstatus with rfl | rfl <;> nofun
  obtain ⟨st4, hrun4, hat4⟩ := flashStoreBlock_success (p := false) hc hat3 rfl hc.blockNum_pos h0 h1 data
  refine ⟨st4, ?_, ?_⟩
  · rw [hrun, run_bind_ok hstart]
    exact hrun4
  · simp only [written, PageLog.after, PageLog.writeOps, ha, PageLog.applyOps_append]
    exact hat4

theorem flashWrite_slot_pass (hc : Laid h) (hst : At h img fates st)
    (hf : fates.headD .pass = .pass) (data : List Byte) {s : ℕ}
    (ha : (flashLog h).active img = some p) (hs : (flashLog h).freeSlot img p = some s) :
    ∃ st', (flashWrite (some h) (some data)).run st = .ok .success st' ∧
      At h (written h img data) fates.tail st' := by
  have hle : s ≤ h.blockNum.toNat := Nat.le_trans (PageLog.freeSlot_eq_some.1 hs).1.2 (blocks_le h)
  obtain ⟨st', hrun, hat⟩ := flashStoreBlock_success (p := p) hc hst hf hle
    (nofun : FlashSearchStatus.ok (slotAddress h p s) ≠ .blockWriteFull0) nofun data
  refine ⟨st', (flashWrite_slot hc hst.shows data ha hs).trans hrun, ?_⟩
  simp only [written, PageLog.after, PageLog.writeOps, ha, hs]
  exact hat

theorem flashWrite_full_pass (hc : Laid h) (hst : At h img [] st) (data : List Byte)
    (ha : (flashLog h).active img = some p) (hs : (flashLog h).freeSlot img p = none) :
    ∃ st', (flashWrite (some h) (some data)).run st = .ok .success st' ∧
      At h (written h img data) [] st' := by
  obtain ⟨st1, hrun1, hat1, hbuf1⟩ := flashEmptyUsedPage_pass (p := !p) hc
    (hst.setBuffer (fillPageHeader h st.blockBuffer)) img rfl
  obtain ⟨st2, hrun2, hat2⟩ := flashWriteHeader_pass hc hat1 hbuf1 rfl
  have hstart : (flashStartPage h (fullStatus p)).run st = .ok (some (slotAddress h (!p) 1)) st2 := by
    rw [flashStartPage_full, run_bind_ok (setBlockBuffer_run _ _), run_bind_ok hrun1, hrun2]
  obtain ⟨st3, hrun3, hat3⟩ := flashStoreBlock_pass (p := !p) (s := 1) (fullStatus p) data hc hat2
    hc.blockNum_pos rfl
  obtain ⟨st4, hrun4, hat4, -⟩ := flashEmptyDevice_pass hc hat3 rfl p
  have herase : (flashEraseFull h (fullStatus p)).run st3 = .ok () st4 := by
    rw [flashEraseFull_full, run_bind_ok hrun4]
    rfl
  refine ⟨st4, ?_, ?_⟩
  · rw [flashWrite_full hc hst.shows data ha hs, run_bind_ok hstart]
    refine hrun3.trans ?_
    rw [run_bind_ok herase]
    rfl
  · simp only [written, PageLog.after, PageLog.writeOps, ha, hs, PageLog.applyOps_append]
    exact hat4

/-- **A write whose device operations pass succeeds** and leaves the log the
page log's operations lead to, whatever the pages held before. -/
theorem flashWrite_pass (hc : Laid h) (hst : At h img [] st) (data : List Byte) :
    ∃ st', (flashWrite (some h) (some data)).run st = .ok .success st' ∧
      At h (written h img data) [] st' := by
  cases ha : (flashLog h).active img with
  | none => exact flashWrite_none_pass hc hst data ha
  | some p =>
    cases hs : (flashLog h).freeSlot img p with
    | some s => exact flashWrite_slot_pass hc hst rfl data ha hs
    | none => exact flashWrite_full_pass hc hst data ha hs

/-! ## A call that stops -/

/-- The state a call ends in, however it ends. -/
def endState {α : Type} : EStateM.Result Unit FlashState α → FlashState
  | .ok _ st => st
  | .error _ st => st

section Stopped

variable {n k : ℕ} (hc : Laid h) (hst : At h img fates st)
  (hh : (flashLog h).Holds img p n) (data : List Byte)
include hc hst hh

/-- The other page is blank, so a switch starts with the header. -/
theorem flashStartPage_switch :
    (flashStartPage h (fullStatus p)).run st =
      (flashWriteHeader h (pageAddress h (!p))).run
        { st with blockBuffer := fillPageHeader h st.blockBuffer } := by
  have hfree : (flashLog h).free (img (!p) 0) = true := by
    rw [hh.other]
    exact (flashLog h).free_blank
  rw [flashStartPage_full, run_bind_ok (setBlockBuffer_run _ _),
    run_bind_ok (flashEmptyUsedPage_free hc (hst.setBuffer _) hfree)]

/-- A switch up to the header. -/
theorem flashWrite_switch_header (hn : (flashLog h).blocks ≤ n) (hf : fates.headD .pass = .pass) :
    ∃ st', (flashWrite (some h) (some data)).run st =
        (flashStoreBlock h (fullStatus p) (slotAddress h (!p) 1) data).run st' ∧
      At h (img.put (!p) 0 (flashHeader h (!p))) fates.tail st' := by
  obtain ⟨st', hrun, hat⟩ := flashWriteHeader_pass (p := !p) hc
    (hst.setBuffer (fillPageHeader h st.blockBuffer)) rfl hf
  refine ⟨st', ?_, hat⟩
  rw [flashWrite_full hc hst.shows data hh.active_eq (hh.freeSlot_eq_none hn),
    run_bind_ok ((flashStartPage_switch hc hst hh).trans hrun)]

/-- A switch up to the block. -/
theorem flashWrite_switch_block (hn : (flashLog h).blocks ≤ n) (hf : fates.headD .pass = .pass)
    (hf' : fates.tail.headD .pass = .pass) :
    ∃ st', (flashWrite (some h) (some data)).run st =
        (do
          let _ ← flashEmptyDevice (pageAddress h p) h.pageSize
          return .success : FlashM FlashOperatorStatus).run st' ∧
      At h ((img.put (!p) 0 (flashHeader h (!p))).put (!p) 1 (flashBlock h data)) fates.tail.tail st' := by
  obtain ⟨st1, hrun1, hat1⟩ := flashWrite_switch_header hc hst hh data hn hf
  obtain ⟨st2, hrun2, hat2⟩ := flashStoreBlock_pass (p := !p) (s := 1) (fullStatus p) data hc hat1
    hc.blockNum_pos hf'
  refine ⟨st2, (hrun1.trans hrun2).trans ?_, hat2⟩
  rw [EStateM.run_bind, flashEraseFull_full, EStateM.run_bind, EStateM.run_bind]
  cases (flashEmptyDevice (pageAddress h p) h.pageSize).run st2 <;> rfl

theorem flashWrite_switch_erase (hn : (flashLog h).blocks ≤ n) (hf : fates.headD .pass = .pass)
    (hf' : fates.tail.headD .pass = .pass) (hf'' : fates.tail.tail.headD .pass = .pass) :
    ∃ st', (flashWrite (some h) (some data)).run st = .ok .success st' ∧
      At h (written h img data) fates.tail.tail.tail st' := by
  obtain ⟨st1, hrun1, hat1⟩ := flashWrite_switch_block hc hst hh data hn hf hf'
  obtain ⟨st2, hrun2, hat2, -⟩ := flashEmptyDevice_pass hc hat1 hf'' p
  refine ⟨st2, ?_, ?_⟩
  · rw [hrun1, run_bind_ok hrun2]
    rfl
  · rw [written, PageLog.after, hh.writeOps_full hn]
    exact hat2

omit hst in
/-- **The power is lost after `k` device operations**: the memory shows the log
after the first `k` operations. -/
theorem flashWrite_lost (hst : At h img (List.replicate k .pass ++ [.lost 0]) st) :
    Shows h (endState ((flashWrite (some h) (some data)).run st)).mem (writtenUpTo h img data k) := by
  unfold writtenUpTo
  by_cases hn : n < (flashLog h).blocks
  · rw [hh.writeOps_slot hn]
    cases k with
    | zero =>
      have hle : n + 1 ≤ h.blockNum.toNat := Nat.le_trans hn (blocks_le h)
      obtain ⟨st', hrun, hat⟩ := flashStoreBlock_lost (p := p) (.ok (slotAddress h p (n + 1))) data hc hst
        hle rfl (Nat.zero_le _)
      rw [put_blit_zero] at hat
      rw [flashWrite_slot hc hst.shows data hh.active_eq (hh.freeSlot_eq hn), hrun]
      exact hat.shows
    | succ k =>
      obtain ⟨st', hrun, hat⟩ := flashWrite_slot_pass hc hst rfl data hh.active_eq (hh.freeSlot_eq hn)
      rw [written, PageLog.after, hh.writeOps_slot hn] at hat
      rw [hrun, List.take_succ_cons, List.take_nil]
      exact hat.shows
  · have hn := Nat.not_lt.1 hn
    rw [hh.writeOps_full hn]
    rcases k with _ | _ | _ | k
    · obtain ⟨st', hrun, hat⟩ := flashWriteHeader_lost (p := !p) hc
        (hst.setBuffer (fillPageHeader h st.blockBuffer)) rfl
      rw [flashWrite_full hc hst.shows data hh.active_eq (hh.freeSlot_eq_none hn),
        run_bind_error ((flashStartPage_switch hc hst hh).trans hrun)]
      exact hat.shows
    · obtain ⟨st1, hrun1, hat1⟩ := flashWrite_switch_header hc hst hh data hn rfl
      obtain ⟨st2, hrun2, hat2⟩ := flashStoreBlock_lost (p := !p) (s := 1) (fullStatus p) data hc hat1
        hc.blockNum_pos rfl (Nat.zero_le _)
      rw [put_blit_zero] at hat2
      rw [hrun1, hrun2]
      exact hat2.shows
    · obtain ⟨st1, hrun1, hat1⟩ := flashWrite_switch_block hc hst hh data hn rfl rfl
      obtain ⟨st2, hrun2, hat2⟩ := flashEmptyDevice_lost hat1 rfl (pageAddress h p) h.pageSize
      rw [hrun1, run_bind_error hrun2]
      exact hat2.shows
    · obtain ⟨st1, hrun1, hat1⟩ := flashWrite_switch_erase hc hst hh data hn rfl rfl rfl
      rw [written, PageLog.after, hh.writeOps_full hn] at hat1
      rw [hrun1, List.take_succ_cons, List.take_succ_cons, List.take_succ_cons, List.take_nil]
      exact hat1.shows

omit hst in
/-- **Operation `k + 1` of a switch fails and the call returns an error**: the
memory shows the log after the first `k` operations. -/
theorem flashWrite_fail (hst : At h img (List.replicate k .pass ++ [.fail]) st)
    (hn : (flashLog h).blocks ≤ n) {e : FlashOperatorStatus} {st' : FlashState} (he : e ≠ .success)
    (hrun : (flashWrite (some h) (some data)).run st = .ok e st') :
    Shows h st'.mem (writtenUpTo h img data k) := by
  unfold writtenUpTo
  rw [hh.writeOps_full hn]
  match k with
  | 0 =>
    obtain ⟨st1, hrun1, hat1⟩ := flashWriteHeader_fail
      (hst.setBuffer (fillPageHeader h st.blockBuffer)) rfl (pageAddress h (!p))
    rw [flashWrite_full hc hst.shows data hh.active_eq (hh.freeSlot_eq_none hn),
      run_bind_ok ((flashStartPage_switch hc hst hh).trans hrun1)] at hrun
    cases hrun
    exact hat1.shows
  | 1 =>
    obtain ⟨st1, hrun1, hat1⟩ := flashWrite_switch_header hc hst hh data hn rfl
    obtain ⟨st2, hrun2, hat2⟩ := flashStoreBlock_fail (fullStatus p) data hat1 rfl (slotAddress h (!p) 1)
    rw [hrun1, hrun2] at hrun
    cases hrun
    exact hat2.shows
  | 2 =>
    -- the result of the erase is not looked at
    obtain ⟨st1, hrun1, hat1⟩ := flashWrite_switch_block hc hst hh data hn rfl rfl
    obtain ⟨st2, hrun2, -, -⟩ := flashEmptyDevice_fail hat1 rfl (pageAddress h p) h.pageSize
    rw [hrun1, run_bind_ok hrun2] at hrun
    cases hrun
    exact absurd rfl he
  | k + 3 =>
    obtain ⟨st1, hrun1, -⟩ := flashWrite_switch_erase hc hst hh data hn rfl rfl rfl
    rw [hrun1] at hrun
    cases hrun
    exact absurd rfl he

end Stopped

/-! ## Reachable states -/

/-- Both pages are erased. -/
def ErasedPages (h : FlashInfo) (m : Mem 32) : Prop :=
  ∀ p i, i < h.pageSize.toNat → m.bytes (pageAddress h p) i = 0

/-- The states successful `flash_write` calls of `datas` reach from erased pages. -/
inductive Reached (h : FlashInfo) : List (List Byte) → FlashState → Prop where
  | erased {st : FlashState} : ErasedPages h st.mem → st.fates = [] → Reached h [] st
  | write {datas : List (List Byte)} {data : List Byte} {st st' : FlashState} :
      Reached h datas st → Fits h data →
        (flashWrite (some h) (some data)).run st = .ok .success st' → Reached h (datas ++ [data]) st'

/-- The log of clean runs, its last block with `data`. -/
def Stores (h : FlashInfo) (m : Mem 32) (data : List Byte) : Prop :=
  ∃ img p n, Shows h m img ∧ (flashLog h).Holds img p n ∧ img p n = flashBlock h data

theorem ErasedPages.shows (hc : Laid h) {m : Mem 32} (hm : ErasedPages h m) :
    Shows h m fun _ _ => (flashLog h).blank :=
  fun p _ _ hs hi => hm p _ (hc.slot_lt hs hi)

/-- What every state of a run of successful calls is. -/
def Clean (h : FlashInfo) (st : FlashState) : Prop :=
  st.fates = [] ∧ (ErasedPages h st.mem ∨ ∃ old, Stores h st.mem old)

/-- **A write of a clean state succeeds and stores its payload.** -/
theorem Clean.write (hc : Laid h) (hst : Clean h st) (data : List Byte) :
    ∃ st', (flashWrite (some h) (some data)).run st = .ok .success st' ∧ Stores h st'.mem data ∧
      Clean h st' := by
  have hhdr := page_flashHeader h
  have hblk := block_flashBlock hc data
  rcases hst with ⟨hf, hm | ⟨old, img, p, n, hshow, hh, -⟩⟩
  · obtain ⟨st', hrun, hat⟩ := flashWrite_pass hc ⟨hm.shows hc, hf⟩ data
    obtain ⟨hholds, hblock⟩ := PageLog.holds_first hhdr hblk fun _ _ => rfl
    have hstores : Stores h st'.mem data := ⟨_, _, _, hat.shows, hholds, hblock⟩
    exact ⟨st', hrun, hstores, hat.fates_eq, .inr ⟨data, hstores⟩⟩
  · obtain ⟨st', hrun, hat⟩ := flashWrite_pass hc ⟨hshow, hf⟩ data
    obtain ⟨q, k, hholds, hblock⟩ := hh.after hhdr hblk
    have hstores : Stores h st'.mem data := ⟨_, _, _, hat.shows, hholds, hblock⟩
    exact ⟨st', hrun, hstores, hat.fates_eq, .inr ⟨data, hstores⟩⟩

theorem Reached.clean (hc : Laid h) {datas : List (List Byte)} (hr : Reached h datas st) :
    Clean h st := by
  induction hr with
  | erased hm hf => exact ⟨hf, .inl hm⟩
  | write hr _ hrun ih =>
    obtain ⟨st1, hrun1, -, hclean⟩ := ih.write hc _
    rw [hrun] at hrun1
    cases hrun1
    exact hclean

/-- A reached state stores the last payload. -/
theorem Reached.stores (hc : Laid h) {datas : List (List Byte)} {data : List Byte}
    (hr : Reached h (datas ++ [data]) st) : Fits h data ∧ Stores h st.mem data := by
  generalize he : datas ++ [data] = all at hr
  cases hr with
  | erased => simp at he
  | write hr hfit hrun =>
    obtain ⟨-, hlast⟩ := List.append_inj' he rfl
    cases hlast
    obtain ⟨st1, hrun1, hstores, -⟩ := (hr.clean hc).write hc data
    rw [hrun] at hrun1
    cases hrun1
    exact ⟨hfit, hstores⟩

/-! ## What a read returns -/

/-- `flash_read` of as many bytes as `data` has returns `data`. -/
def Reads (h : FlashInfo) (st : FlashState) (data : List Byte) : Prop :=
  ∀ buf : List Byte, buf.length = data.length →
    ∃ st', (flashRead (some h) (some buf)).run st = .ok (.success, some data) st'

theorem Fits.data_le {data : List Byte} (hfit : Fits h data) :
    blockHeadSize + data.length ≤ h.blockSize.toNat := by
  unfold Fits at hfit
  omega

/-- A read returns a payload iff the current block is intact with it. -/
theorem reads_iff_intact (hc : Laid h) (hshow : Shows h st.mem img) {s : ℕ}
    (hcur : (flashLog h).current img = some (p, s)) {data : List Byte} (hfit : Fits h data) :
    Reads h st data ↔ Intact h data (img p s) := by
  have hrun := fun (buf : List Byte) (hbuf : buf.length = data.length) =>
    flashRead_current hc hshow hcur (show blockHeadSize + buf.length ≤ _ by
      rw [hbuf]
      exact hfit.data_le)
  constructor
  · intro hreads
    have hblock := (PageLog.lastBlock_eq_some.1 (PageLog.current_eq_some.1 hcur).2).2.1
    obtain ⟨st1, hrun1⟩ := hreads data rfl
    obtain ⟨st2, hrun2, -⟩ := hrun data rfl
    rw [hrun1] at hrun2
    simp only [EStateM.Result.ok.injEq, Prod.mk.injEq, Option.some.injEq] at hrun2
    obtain ⟨⟨hstatus, hdata⟩, -⟩ := hrun2
    rw [if_pos hstatus.symm] at hdata
    exact ⟨beq_iff_eq.1 hblock, hstatus.symm, hdata.symm⟩
  · intro hok buf hbuf
    obtain ⟨st', hrun', -⟩ := hrun buf hbuf
    rw [hok.status, if_pos rfl, hbuf, hok.data_eq] at hrun'
    exact ⟨st', hrun'⟩

/-- Without a current block no read succeeds. -/
theorem not_reads_of_none (hc : Laid h) (hshow : Shows h st.mem img)
    (hcur : (flashLog h).current img = none) (data : List Byte) :
    ¬ Reads h st data := by
  intro hreads
  obtain ⟨st', hrun⟩ := hreads data rfl
  rw [flashRead_none hc hshow hcur] at hrun
  cases hrun

theorem Stores.reads (hc : Laid h) (hnum : 0 < (flashLog h).blocks) {data : List Byte}
    (hfit : Fits h data) (hm : Stores h st.mem data) : Reads h st data := by
  obtain ⟨img, p, n, hshow, hh, hblock⟩ := hm
  apply (reads_iff_intact hc hshow (hh.current_eq (hh.le_blocks hnum)) hfit).2
  rw [hblock]
  exact intact_flashBlock (hfit.le hc) hfit

/-! ## Intact copies -/

/-- Some slot holds an intact block with `data`. -/
def HasCopy (h : FlashInfo) (m : Mem 32) (data : List Byte) : Prop :=
  ∃ p s, (1 ≤ s ∧ s ≤ h.blockNum.toNat) ∧ Intact h data (m.bytes (slotAddress h p s))

theorem Intact.congr {data : List Byte} {f g : Buf} (hc : Laid h) (hfit : Fits h data)
    (hok : Intact h data f) (hfg : ∀ i < h.blockSize.toNat, g i = f i) : Intact h data g where
  mark := by
    have := hc.eight_le
    rw [← hok.mark]
    exact word_congr fun k hk => hfg _ (by omega)
  status := by rw [← hok.status, blockStatus_congr hc hfg]
  data_eq := by
    have := hfit.data_le
    refine Eq.trans ?_ hok.data_eq
    exact blockData_congr fun i hi => hfg _ (by omega)

theorem hasCopy_of_slot (hc : Laid h) (hshow : Shows h st.mem img) {s : ℕ}
    (hs : 1 ≤ s ∧ s ≤ max (flashLog h).blocks 1) {data : List Byte} (hfit : Fits h data)
    (hblock : img p s = flashBlock h data) : HasCopy h st.mem data := by
  have hle : s ≤ h.blockNum.toNat := hc.le_blockNum hs.2
  refine ⟨p, s, ⟨hs.1, hle⟩, (intact_flashBlock (hfit.le hc) hfit).congr hc hfit fun i hi => ?_⟩
  rw [hshow.bytes_slot hle hi, hblock]

end Stm32Handler.Flash
