import Stm32Handler.Flash.RoundTrip

/-!
# What the flash operations touch

Whatever the memory holds, a run of `flash_write` or `flash_set_empty` erases
and programs only addresses of the two pages: `Confined h st st'` says so of the
step from `st` to `st'`, and a program is confined when its parts are
(`confined_bind`). The address that is programmed comes out of the search, and
`flashFindBlock_write_cases` lists what that can answer.
-/

namespace Stm32Handler.Flash

/-- `sizeof(block_buffer)`. -/
def blockBufferSize : ℕ := (maxBlockSize / 4 + 1) * 4

/-- `flash_set_empty`. -/
def flashSetEmpty (h : FlashInfo) : FlashM Bool := do
  if !(← flashEmptyDevice h.page0Address h.pageSize) then return false
  if !(← flashEmptyDevice h.page1Address h.pageSize) then return false
  return true

/-- The addresses a device operation erases or programs. -/
def DeviceCall.Touches (a : BitVec 32) : DeviceCall → Prop
  | .empty address size => ∃ i < size.toNat, a = address + BitVec.ofNat 32 i
  | .write address size => ∃ i < size * 4, a = address + BitVec.ofNat 32 i

/-- `a` lies in `[page0, page0 + page_size)` or `[page1, page1 + page_size)`. -/
def InPages (h : FlashInfo) (a : BitVec 32) : Prop :=
  ∃ p, (pageAddress h p).toNat ≤ a.toNat ∧ a.toNat < (pageAddress h p).toNat + h.pageSize.toNat

/-- The pages do not wrap the address space. -/
def NoWrap (h : FlashInfo) : Prop := ∀ p, (pageAddress h p).toNat + h.pageSize.toNat ≤ 2 ^ 32

/-- Only the pages are touched on the way from `st` to `st'`. -/
structure Confined (h : FlashInfo) (st st' : FlashState) : Prop where
  calls : ∃ new, st'.calls = st.calls ++ new ∧ ∀ c ∈ new, ∀ a, c.Touches a → InPages h a
  mem : ∀ a, ¬ InPages h a → st'.mem a = st.mem a

variable {h : FlashInfo} {st st' st'' : FlashState} {p : Bool}

theorem Confined.refl (h : FlashInfo) (st : FlashState) : Confined h st st :=
  ⟨⟨[], by simp, by simp⟩, fun _ _ => rfl⟩

theorem Confined.trans (h1 : Confined h st st') (h2 : Confined h st' st'') : Confined h st st'' := by
  obtain ⟨⟨new1, hcalls1, hin1⟩, hmem1⟩ := h1
  obtain ⟨⟨new2, hcalls2, hin2⟩, hmem2⟩ := h2
  refine ⟨⟨new1 ++ new2, by rw [hcalls2, hcalls1, List.append_assoc], fun c hc => ?_⟩,
    fun a ha => (hmem2 a ha).trans (hmem1 a ha)⟩
  rcases List.mem_append.1 hc with hc | hc
  · exact hin1 c hc
  · exact hin2 c hc

theorem confined_bind {α β : Type} {x : FlashM α} {f : α → FlashM β}
    (hx : Confined h st (endState (x.run st)))
    (hf : ∀ a st', x.run st = .ok a st' → Confined h st' (endState ((f a).run st'))) :
    Confined h st (endState ((x >>= f).run st)) := by
  rw [EStateM.run_bind]
  cases hrun : x.run st with
  | ok a st' =>
    rw [hrun] at hx
    exact hx.trans (hf a st' hrun)
  | error _ st' =>
    rw [hrun] at hx
    exact hx

/-- Every new device call is one in the pages. -/
theorem confined_call {c : DeviceCall} (hin : ∀ a, c.Touches a → InPages h a)
    (hcalls : st'.calls = st.calls ++ [c]) (hmem : ∀ a, ¬ c.Touches a → st'.mem a = st.mem a) :
    Confined h st st' :=
  ⟨⟨[c], hcalls, fun d hd => by rwa [List.mem_singleton.1 hd]⟩,
    fun a ha => hmem a fun ht => ha (hin a ht)⟩

/-! ## Addresses of the pages -/

theorem inPages_offset (hw : NoWrap h) (p : Bool) {i : ℕ} (hi : i < h.pageSize.toNat) :
    InPages h (pageAddress h p + BitVec.ofNat 32 i) := by
  have hlt := hw p
  refine ⟨p, ?_⟩
  rw [BitVec.toNat_add, BitVec.toNat_ofNat, Nat.mod_eq_of_lt (b := 2 ^ 32) (a := i) (by omega),
    Nat.mod_eq_of_lt (by omega)]
  omega

theorem inPages_slot (hc : Accepted h) (hw : NoWrap h) {s i : ℕ} (hs : s ≤ h.blockNum.toNat)
    (hi : i < h.blockSize.toNat) : InPages h (slotAddress h p s + BitVec.ofNat 32 i) := by
  unfold slotAddress
  rw [BitVec.add_assoc, ← BitVec.ofNat_add]
  exact inPages_offset hw p (hc.slot_lt hs hi)

/-! ## Device operations -/

theorem flashEmptyDevice_confined {a size : BitVec 32}
    (hin : ∀ i < size.toNat, InPages h (a + BitVec.ofNat 32 i)) :
    Confined h st (endState ((flashEmptyDevice a size).run st)) := by
  have hcall : ∀ b, (DeviceCall.empty a size).Touches b → InPages h b := by
    rintro b ⟨i, hi, rfl⟩
    exact hin i hi
  have hclear : ∀ n ≤ size.toNat, ∀ b, ¬ (DeviceCall.empty a size).Touches b →
      memClear st.mem a n b = st.mem b :=
    fun n hn b hb => Mem.blit_of_ne fun i hi he => hb ⟨i, Nat.lt_of_lt_of_le hi hn, he⟩
  unfold flashEmptyDevice nextFate
  rw [EStateM.run_bind, EStateM.run_modifyGet]
  cases st.fates.headD .pass with
  | pass => exact confined_call hcall rfl (hclear _ (Nat.le_refl _))
  | fail => exact confined_call hcall rfl fun _ _ => rfl
  | lost j => exact confined_call hcall rfl (hclear _ (Nat.min_le_right _ _))

theorem flashWriteDevice_confined {a : BitVec 32} {n : ℕ} (f : Buf) (hn : n * 4 ≤ 2 ^ 32)
    (hin : ∀ i < n * 4, InPages h (a + BitVec.ofNat 32 i)) :
    Confined h st (endState ((flashWriteDevice a f n).run st)) := by
  have hcall : ∀ b, (DeviceCall.write a n).Touches b → InPages h b := by
    rintro b ⟨i, hi, rfl⟩
    exact hin i hi
  have hstore : ∀ k ≤ n, ∀ b, ¬ (DeviceCall.write a n).Touches b →
      storeWords st.mem a f k b = st.mem b := by
    intro k hk b hb
    unfold storeWords
    rw [Mem.foldl_store32 st.mem a f (by omega)]
    exact Mem.blit_of_ne fun i hi he => hb ⟨i, by omega, he⟩
  unfold flashWriteDevice nextFate
  rw [EStateM.run_bind, EStateM.run_modifyGet]
  cases st.fates.headD .pass with
  | pass => exact confined_call hcall rfl (hstore _ (Nat.le_refl _))
  | fail => exact confined_call hcall rfl fun _ _ => rfl
  | lost j => exact confined_call hcall rfl (hstore _ (Nat.min_le_right _ _))

theorem setBlockBuffer_confined (f : Buf → Buf) :
    Confined h st (endState ((setBlockBuffer f).run st)) := by
  rw [setBlockBuffer_run]
  exact ⟨⟨[], by simp [endState], by simp⟩, fun _ _ => rfl⟩

/-! ## The search -/

/-- What the search for a free slot answers: a slot of one of the pages, or a
page to start with. -/
theorem flashFindBlock_write_cases (hc : Accepted h) (m : Mem 32) :
    (∃ p s, s ≤ h.blockNum.toNat ∧ flashFindBlock h .write m = .ok (slotAddress h p s)) ∨
      flashFindBlock h .write m = .pageEmpty ∨ flashFindBlock h .write m = .pageMultiInvalid ∨
      ∃ p, flashFindBlock h .write m = fullStatus p := by
  have hpage : ∀ p, (∃ s, s ≤ h.blockNum.toNat ∧
      flashSearchPage h .write m (pageAddress h p) = .ok (slotAddress h p s)) ∨
        ∃ q, flashSearchPage h .write m (pageAddress h p) = fullStatus q := by
    intro p
    simp only [flashSearchPage]
    split
    · next i hi =>
      have hlt := List.mem_range.1 (List.mem_of_find?_eq_some hi)
      have hle := Nat.mod_le h.blockNum.toNat (2 ^ 16)
      rw [BitVec.toNat_setWidth] at hlt
      exact .inl ⟨i + 1, by omega, by rw [hc.blockSize16]; rfl⟩
    · right
      cases p
      · exact ⟨false, if_pos rfl⟩
      · by_cases he : h.page1Address = h.page0Address
        · exact ⟨false, if_pos he⟩
        · exact ⟨true, (if_neg he).trans (if_pos rfl)⟩
  simp only [flashFindBlock]
  split
  · exact .inr (.inr (.inl rfl))
  split
  · rcases hpage false with ⟨s, hs, hok⟩ | ⟨q, hfull⟩
    · exact .inl ⟨false, s, hs, hok⟩
    · exact .inr (.inr (.inr ⟨q, hfull⟩))
  split
  · rcases hpage true with ⟨s, hs, hok⟩ | ⟨q, hfull⟩
    · exact .inl ⟨true, s, hs, hok⟩
    · exact .inr (.inr (.inr ⟨q, hfull⟩))
  · exact .inr (.inl rfl)

/-! ## The steps of a write -/

section Steps

variable (hc : Accepted h) (hw : NoWrap h)
include hw

theorem emptyPage_confined (p : Bool) :
    Confined h st (endState ((flashEmptyDevice (pageAddress h p) h.pageSize).run st)) :=
  flashEmptyDevice_confined fun _ hi => inPages_offset hw p hi

theorem flashEmptyUsedPage_confined (p : Bool) :
    Confined h st (endState ((flashEmptyUsedPage h (pageAddress h p)).run st)) := by
  unfold flashEmptyUsedPage
  refine confined_bind (.refl h st) fun st1 st' hget => ?_
  split
  · exact confined_bind (emptyPage_confined hw p) fun _ st'' _ => .refl h st''
  · exact .refl h st'

theorem flashEraseFull_confined (status : FlashSearchStatus) :
    Confined h st (endState ((flashEraseFull h status).run st)) := by
  by_cases h0 : status = fullStatus false
  · rw [h0, flashEraseFull_full]
    exact confined_bind (emptyPage_confined hw false) fun _ st' _ => .refl h st'
  by_cases h1 : status = fullStatus true
  · rw [h1, flashEraseFull_full]
    exact confined_bind (emptyPage_confined hw true) fun _ st' _ => .refl h st'
  · rw [flashEraseFull_none h0 h1]
    exact .refl h st

include hc

/-- A block-sized write to a slot. -/
theorem writeSlot_confined (f : Buf) {s : ℕ} (hs : s ≤ h.blockNum.toNat) :
    Confined h st (endState ((flashWriteDevice (slotAddress h p s) f (h.blockSize.toNat / 4)).run st)) := by
  have hle := hc.blockSize_le
  simp only [maxBlockSize] at hle
  exact flashWriteDevice_confined f (by omega) fun i hi => inPages_slot hc hw hs (by omega)

theorem flashWriteHeader_confined (p : Bool) :
    Confined h st (endState ((flashWriteHeader h (pageAddress h p)).run st)) := by
  unfold flashWriteHeader
  refine confined_bind (setBlockBuffer_confined _) fun _ st1 _ => ?_
  refine confined_bind (.refl h st1) fun st2 st2' _ => ?_
  rw [← pageAddress_slot]
  refine confined_bind (writeSlot_confined hc hw _ (Nat.zero_le _)) fun ok st3 _ => ?_
  cases ok
  · exact .refl h st3
  · exact .refl h st3

theorem flashStoreBlock_confined (status : FlashSearchStatus) {s : ℕ} (hs : s ≤ h.blockNum.toNat)
    (data : List Byte) :
    Confined h st (endState ((flashStoreBlock h status (slotAddress h p s) data).run st)) := by
  unfold flashStoreBlock
  refine confined_bind (setBlockBuffer_confined _) fun _ st1 _ => ?_
  refine confined_bind (.refl h st1) fun st2 st2' _ => ?_
  refine confined_bind (writeSlot_confined hc hw _ hs) fun ok st3 _ => ?_
  cases ok
  · exact .refl h st3
  refine confined_bind (.refl h st3) fun st4 st4' _ => ?_
  split
  · exact .refl h st4'
  · exact confined_bind (flashEraseFull_confined hw status) fun _ st5 _ => .refl h st5

omit hc hw in
theorem flashWriteHeader_address {a b : BitVec 32}
    (hrun : (flashWriteHeader h a).run st = .ok (some b) st') : b = a + h.blockSize := by
  unfold flashWriteHeader at hrun
  rw [run_bind_ok (setBlockBuffer_run _ _), run_bind_ok (EStateM.run_get _), EStateM.run_bind] at hrun
  split at hrun
  · next ok st1 _ =>
    cases ok
    · cases hrun
    · cases hrun
      rfl
  · cases hrun

/-- A page is started: confined, and the block goes to its first slot. -/
structure StartsPage (h : FlashInfo) (x : FlashM (Option (BitVec 32))) : Prop where
  confined : ∀ st, Confined h st (endState (x.run st))
  address : ∀ st b st', x.run st = .ok (some b) st' → ∃ p, b = slotAddress h p 1

theorem startsPage_header (p : Bool) : StartsPage h (flashWriteHeader h (pageAddress h p)) where
  confined _ := flashWriteHeader_confined hc hw p
  address _ _ _ hrun := ⟨p, (flashWriteHeader_address hrun).trans (pageAddress_first h p)⟩

omit hc hw in
theorem StartsPage.after {x : FlashM Unit} {f : FlashM (Option (BitVec 32))} (hf : StartsPage h f)
    (hx : ∀ st, Confined h st (endState (x.run st))) : StartsPage h (do x; f) where
  confined st := confined_bind (hx st) fun _ st' _ => hf.confined st'
  address st b st' hrun := by
    rw [EStateM.run_bind] at hrun
    split at hrun
    · exact hf.address _ b st' hrun
    · cases hrun

/-- The branches of a failed search. -/
theorem flashStartPage_starts {status : FlashSearchStatus}
    (hs : status = .pageEmpty ∨ status = .pageMultiInvalid ∨ ∃ p, status = fullStatus p) :
    StartsPage h (flashStartPage h status) := by
  have hbuf : ∀ st, Confined h st (endState ((setBlockBuffer (fillPageHeader h)).run st)) :=
    fun _ => setBlockBuffer_confined _
  have hused : ∀ p st, Confined h st (endState ((flashEmptyUsedPage h (pageAddress h p)).run st)) :=
    fun p _ => flashEmptyUsedPage_confined hw p
  have hnone : StartsPage h (do
      setBlockBuffer (fillPageHeader h)
      flashEmptyUsedPage h (pageAddress h false)
      flashEmptyUsedPage h (pageAddress h true)
      flashWriteHeader h (pageAddress h false)) :=
    (((startsPage_header hc hw false).after (hused true)).after (hused false)).after hbuf
  rcases hs with rfl | rfl | ⟨p, rfl⟩
  · rw [flashStartPage_none (.inl rfl)]
    exact hnone
  · rw [flashStartPage_none (.inr rfl)]
    exact hnone
  · rw [flashStartPage_full]
    exact ((startsPage_header hc hw (!p)).after (hused (!p))).after hbuf

/-- The new page and its first block. -/
theorem startedBlock_confined (st : FlashState) {status : FlashSearchStatus}
    (hs : status = .pageEmpty ∨ status = .pageMultiInvalid ∨ ∃ p, status = fullStatus p)
    (data : List Byte) :
    Confined h st (endState ((do
      match ← flashStartPage h status with
      | some blockAddress => flashStoreBlock h status blockAddress data
      | none => return .writeErr : FlashM FlashOperatorStatus).run st)) := by
  have hstart := flashStartPage_starts hc hw hs
  refine confined_bind (hstart.confined st) fun r st1 hrun => ?_
  cases r with
  | none => exact .refl h st1
  | some a =>
    obtain ⟨p, rfl⟩ := hstart.address st a st1 hrun
    exact flashStoreBlock_confined hc hw status hc.blockNum_pos data

theorem flashWrite_confined (st : FlashState) (data : List Byte) :
    Confined h st (endState ((flashWrite (some h) (some data)).run st)) := by
  unfold flashWrite
  simp only
  rw [run_bind_ok (EStateM.run_get _)]
  have hcases := flashFindBlock_write_cases hc st.mem
  generalize flashFindBlock h .write st.mem = status at hcases
  rcases hcases with ⟨p, s, hs, rfl⟩ | hstart
  · exact flashStoreBlock_confined hc hw _ hs data
  · have hrun := startedBlock_confined hc hw st hstart data
    rcases hstart with rfl | rfl | ⟨p, rfl⟩
    · exact hrun
    · exact hrun
    · cases p <;> exact hrun

omit hc in
theorem flashSetEmpty_confined (st : FlashState) :
    Confined h st (endState ((flashSetEmpty h).run st)) := by
  unfold flashSetEmpty
  refine confined_bind (emptyPage_confined hw false) fun ok st1 _ => ?_
  cases ok
  · exact .refl h st1
  refine confined_bind (emptyPage_confined hw true) fun ok st2 _ => ?_
  cases ok <;> exact .refl h st2

end Steps

/-! ## The read -/

/-- A read leaves the memory alone, and `block_buffer` from the block's end on. -/
theorem flashRead_frame (hc : Accepted h) (st : FlashState) (buf : List Byte) :
    ∃ e out st', (flashRead (some h) (some buf)).run st = .ok (e, some out) st' ∧
      out.length = buf.length ∧ st'.mem = st.mem ∧ st'.calls = st.calls ∧
      ∀ i, blockBufferSize ≤ i → st'.blockBuffer i = st.blockBuffer i := by
  have hle := hc.blockSize_le
  simp only [maxBlockSize] at hle
  have hbuf : ∀ i, blockBufferSize ≤ i → ∀ a,
      st.blockBuffer.blit 0 (h.blockSize.toNat / 4 * 4) (st.mem.bytes a) i = st.blockBuffer i :=
    fun i hi a => Buf.blit_out (by simp only [blockBufferSize, maxBlockSize] at hi; omega)
  unfold flashRead
  simp only
  rw [run_bind_ok (EStateM.run_get _)]
  split
  · next a _ =>
    rw [run_bind_ok (flashReadDevice_run st a _), if_pos rfl, run_bind_ok (EStateM.run_get _)]
    split
    · exact ⟨_, _, _, rfl, rfl, rfl, rfl, fun i hi => hbuf i hi a⟩
    split
    · exact ⟨_, _, _, rfl, by simp, rfl, rfl, fun i hi => hbuf i hi a⟩
    · exact ⟨_, _, _, rfl, rfl, rfl, rfl, fun i hi => hbuf i hi a⟩
  · exact ⟨_, _, _, rfl, rfl, rfl, rfl, fun _ _ => rfl⟩

/-- The search statuses for which `flash_write` sets `page_addr`. -/
def AssignsPageAddr (status : FlashSearchStatus) : Prop :=
  status = .pageEmpty ∨ status = .pageMultiInvalid ∨ status = .blockWriteFull0 ∨
    status = .blockWriteFull1

/-- **The flash operations touch only the two pages**, whatever the memory
holds: a search for a write finds a slot or ends in a branch that sets
`page_addr`, all device calls stay in the pages, and a read changes no more
than the buffers. -/
theorem flash_touches_pages (h : FlashInfo) (hc : Accepted h)
    (hw0 : h.page0Address.toNat + h.pageSize.toNat ≤ 2 ^ 32)
    (hw1 : h.page1Address.toNat + h.pageSize.toNat ≤ 2 ^ 32) (st : FlashState) :
    (∀ data, Confined h st (endState ((flashWrite (some h) (some data)).run st))) ∧
      Confined h st (endState ((flashSetEmpty h).run st)) ∧
      ((∃ a, flashFindBlock h .write st.mem = .ok a) ∨
        AssignsPageAddr (flashFindBlock h .write st.mem)) ∧
      ∀ buf, ∃ e out st', (flashRead (some h) (some buf)).run st = .ok (e, some out) st' ∧
        out.length = buf.length ∧ st'.mem = st.mem ∧ st'.calls = st.calls ∧
        ∀ i, blockBufferSize ≤ i → st'.blockBuffer i = st.blockBuffer i := by
  have hw : NoWrap h := by
    intro p
    cases p
    · exact hw0
    · exact hw1
  refine ⟨fun data => flashWrite_confined hc hw st data, flashSetEmpty_confined hw st, ?_,
    fun buf => flashRead_frame hc st buf⟩
  rcases flashFindBlock_write_cases hc st.mem with ⟨p, s, -, hok⟩ | hempty | hmulti | ⟨p, hfull⟩
  · exact .inl ⟨_, hok⟩
  · exact .inr (.inl hempty)
  · exact .inr (.inr (.inl hmulti))
  · right
    cases p
    · exact .inr (.inr (.inl hfull))
    · exact .inr (.inr (.inr hfull))

/-- With `0x5A` everywhere both pages carry the mark of a valid page. -/
theorem flash_touches_pages_corrupt :
    (∀ data, Confined smallFlash { zeroFlash with mem := fun _ => 0x5A }
        (endState ((flashWrite (some smallFlash) (some data)).run { zeroFlash with mem := fun _ => 0x5A }))) ∧
      Confined smallFlash { zeroFlash with mem := fun _ => 0x5A }
        (endState ((flashSetEmpty smallFlash).run { zeroFlash with mem := fun _ => 0x5A })) :=
  have htouch := flash_touches_pages smallFlash smallFlash_configured.laid.toAccepted (by decide)
    (by decide) { zeroFlash with mem := fun _ => 0x5A }
  ⟨htouch.1, htouch.2.1⟩

end Stm32Handler.Flash
