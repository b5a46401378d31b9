import Stm32Handler.Flash.Write

/-!
# The round trip of the flash store

From erased pages every `flash_write` succeeds and the next `flash_read`
returns what it stored, over any number of writes and of switches between the
pages.
-/

namespace Stm32Handler.Flash

/-- The calls `flash_write(data)` for each payload, and what they return. -/
def flashWrites (h : FlashInfo) : List (List Byte) → FlashM (List FlashOperatorStatus)
  | [] => return []
  | data :: rest => do
    let status ← flashWrite (some h) (some data)
    let statuses ← flashWrites h rest
    return status :: statuses

variable {h : FlashInfo}

/-- With room for header and CRC, `CALC_BUFFER_SIZE` is what fits. -/
theorem fits_of_le {data : List Byte} (hbs : 12 ≤ h.blockSize.toNat)
    (hle : data.length ≤ (calcBufferSize h.blockSize).toNat) : Fits h data := by
  have hlt := h.blockSize.isLt
  unfold calcBufferSize at hle
  rw [BitVec.sub_sub, BitVec.toNat_sub_of_le, BitVec.toNat_add] at hle
  · unfold Fits blockHeadSize blockCrcSize at *
    simp at hle
    omega
  · rw [BitVec.le_def]
    simp [blockHeadSize, blockCrcSize]
    omega

theorem flashWrites_clean (hc : Laid h) {st : FlashState} (hst : Clean h st)
    (datas : List (List Byte)) (data : List Byte) :
    ∃ st', (flashWrites h (datas ++ [data])).run st =
        .ok (List.replicate (datas.length + 1) .success) st' ∧ Stores h st'.mem data := by
  induction datas generalizing st with
  | nil =>
    obtain ⟨st', hrun, hstores, -⟩ := hst.write hc data
    refine ⟨st', ?_, hstores⟩
    rw [List.nil_append, flashWrites, run_bind_ok hrun]
    rfl
  | cons d datas ih =>
    obtain ⟨st1, hrun1, -, hst1⟩ := hst.write hc d
    obtain ⟨st2, hrun2, hstores⟩ := ih hst1
    refine ⟨st2, ?_, hstores⟩
    rw [List.cons_append, flashWrites, run_bind_ok hrun1, run_bind_ok hrun2]
    rfl

/-- Successful calls reach reachable states. -/
theorem Reached.writes (hc : Laid h) {st : FlashState} {done datas : List (List Byte)}
    (hr : Reached h done st) (hfit : ∀ d ∈ datas, Fits h d) :
    Reached h (done ++ datas) (endState ((flashWrites h datas).run st)) := by
  induction datas generalizing done st with
  | nil =>
    rw [List.append_nil]
    exact hr
  | cons d datas ih =>
    obtain ⟨st1, hrun1, -, -⟩ := (hr.clean hc).write hc d
    have hr1 := ih (hr.write (hfit d List.mem_cons_self) hrun1) fun e he =>
      hfit e (List.mem_cons_of_mem d he)
    have hend : endState ((flashWrites h (d :: datas)).run st) =
        endState ((flashWrites h datas).run st1) := by
      rw [flashWrites, run_bind_ok hrun1, EStateM.run_bind]
      cases (flashWrites h datas).run st1 <;> rfl
    rw [hend]
    rwa [List.append_assoc] at hr1

/-- **Round trip over whole runs**: from erased pages the first `n + 1` writes
of any sequence all succeed, and then a read returns payload `n`. -/
theorem flash_round_trip (h : FlashInfo) (hc : Configured h) (hbs : 12 ≤ h.blockSize.toNat)
    (hnum : h.blockNum.toNat ≤ 65535) (st : FlashState) (hm : ErasedPages h st.mem)
    (hf : st.fates = []) (datas : List (List Byte))
    (hfit : ∀ d ∈ datas, d.length ≤ (calcBufferSize h.blockSize).toNat) (n : ℕ)
    (hn : n < datas.length) :
    ∃ st', (flashWrites h (datas.take (n + 1))).run st =
        .ok (List.replicate (n + 1) .success) st' ∧ Reads h st' datas[n] := by
  have hc := hc.laid
  have hblocks : 0 < (flashLog h).blocks := by
    rw [blocks_eq hnum]
    exact hc.blockNum_pos
  obtain ⟨st', hrun, hstores⟩ := flashWrites_clean hc ⟨hf, .inl hm⟩ (datas.take n) datas[n]
  rw [List.take_append_getElem hn, List.length_take, Nat.min_eq_left (Nat.le_of_lt hn)] at hrun
  exact ⟨st', hrun, hstores.reads hc hblocks (fits_of_le hbs (hfit _ (List.getElem_mem hn)))⟩

/-- Two blocks of 16 bytes to a page. -/
def smallFlash : FlashInfo where
  flashValid := flashValid
  page0Address := 0x1000
  page1Address := 0x2000
  pageSize := 48
  blockSize := 16
  blockNum := 2

theorem smallFlash_configured : Configured smallFlash where
  init := ⟨smallFlash, rfl⟩
  page0_aligned := by decide
  page1_aligned := by decide
  pageSize_aligned := by decide
  blockSize_aligned := by decide
  disjoint := Mem.disjoint_of_le (by decide) (by decide)

/-- All memory zero. -/
def zeroFlash : FlashState := { mem := fun _ => 0, blockBuffer := fun _ => 0, fates := [] }

theorem zeroFlash_reached : Reached smallFlash [] zeroFlash := .erased (fun _ _ _ => rfl) rfl

/-- Three writes, the third of which switches to page 1. -/
theorem flash_round_trip_switch :
    ∃ st', (flashWrites smallFlash [[1, 2], [3], [4, 5, 6]]).run zeroFlash =
        .ok (List.replicate 3 .success) st' ∧ Reads smallFlash st' [4, 5, 6] :=
  flash_round_trip smallFlash smallFlash_configured (by decide) (by decide) zeroFlash
    (fun _ _ _ => rfl) rfl [[1, 2], [3], [4, 5, 6]] (by decide) 2 (by decide)

end Stm32Handler.Flash
