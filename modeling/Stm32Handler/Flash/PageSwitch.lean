import Stm32Handler.Flash.RoundTrip

/-!
# A page switch that stops

With the valid page full, `flash_write` writes the header of the other page,
then the block, then erases the full page. Between the first and the last of
these both headers are valid, which `flash_find_block` answers with
`FLASH_SEARCH_PAGE_MULTI_INVALID`: no block is found until the next write,
which starts by erasing both pages.

`page_switch_survives_iff` says for every stop whether the store survives it.
-/

namespace Stm32Handler.Flash

/-- `flash_write(data)` on `st` stops after the first `k` device operations and
leaves `st'`: the power is lost there, or the next operation fails and the call
returns an error. -/
def StoppedAfter (h : FlashInfo) (data : List Byte) (k : ℕ) (st st' : FlashState) : Prop :=
  endState ((flashWrite (some h) (some data)).run
      { st with fates := List.replicate k .pass ++ [.lost 0] }) = st' ∨
    ∃ e, e ≠ FlashOperatorStatus.success ∧ (flashWrite (some h) (some data)).run
      { st with fates := List.replicate k .pass ++ [.fail] } = .ok e st'

/-- The store is as good as before: a read returns the old or the new payload,
and wherever the next write loses the power there is an intact copy of the old,
the new or its own payload. -/
structure Survives (h : FlashInfo) (st : FlashState) (old new : List Byte) : Prop where
  reads : Reads h st old ∨ Reads h st new
  copies : ∀ data, Fits h data → ∀ k, ∃ d ∈ [old, new, data],
    HasCopy h (endState ((flashWrite (some h) (some data)).run
      { st with fates := List.replicate k .pass ++ [.lost 0] })).mem d

variable {h : FlashInfo} {img : Slots Buf} {st : FlashState} {p : Bool} {n : ℕ}

/-- From a state that stores a payload, a write that loses the power leaves a
copy of it or of its own payload. -/
theorem Stores.copies (hc : Laid h) {old data : List Byte} (hm : Stores h st.mem old)
    (hold : Fits h old) (hfit : Fits h data) (k : ℕ) :
    HasCopy h (endState ((flashWrite (some h) (some data)).run
        { st with fates := List.replicate k .pass ++ [.lost 0] })).mem old ∨
      HasCopy h (endState ((flashWrite (some h) (some data)).run
        { st with fates := List.replicate k .pass ++ [.lost 0] })).mem data := by
  obtain ⟨img, p, n, hshow, hh, hblock⟩ := hm
  have hst : At h img (List.replicate k .pass ++ [.lost 0])
      { st with fates := List.replicate k .pass ++ [.lost 0] } := ⟨hshow, rfl⟩
  have hout := flashWrite_lost hc hh data hst
  obtain ⟨q, s, hs, hcopy⟩ := hh.copy_take (flashBlock h data) k
  rcases hcopy with hcopy | hcopy
  · exact .inl (hasCopy_of_slot hc hout hs hold (hcopy.trans hblock))
  · exact .inr (hasCopy_of_slot hc hout hs hfit hcopy)

theorem survives_old (hc : Laid h) (hnum : 0 < (flashLog h).blocks) {old : List Byte}
    (hm : Stores h st.mem old) (hold : Fits h old) (new : List Byte) : Survives h st old new where
  reads := .inl (hm.reads hc hnum hold)
  copies data hfit k := by
    rcases hm.copies hc hold hfit k with hcopy | hcopy
    · exact ⟨old, by simp, hcopy⟩
    · exact ⟨data, by simp, hcopy⟩

theorem survives_new (hc : Laid h) (hnum : 0 < (flashLog h).blocks) {new : List Byte}
    (hm : Stores h st.mem new) (hnew : Fits h new) (old : List Byte) : Survives h st old new where
  reads := .inr (hm.reads hc hnum hnew)
  copies data hfit k := by
    rcases hm.copies hc hnew hfit k with hcopy | hcopy
    · exact ⟨new, by simp, hcopy⟩
    · exact ⟨data, by simp, hcopy⟩

theorem not_survives (hc : Laid h) (hshow : Shows h st.mem img)
    (hcur : (flashLog h).current img = none) (old new : List Byte) : ¬ Survives h st old new :=
  fun hsurv => hsurv.reads.elim (not_reads_of_none hc hshow hcur old)
    (not_reads_of_none hc hshow hcur new)

/-! ## The states a switch stops in -/

theorem stoppedAfter_shows (hc : Laid h) (hshow : Shows h st.mem img)
    (hh : (flashLog h).Holds img p n) (hn : (flashLog h).blocks ≤ n) {data : List Byte} {k : ℕ}
    {st' : FlashState} (hstop : StoppedAfter h data k st st') :
    Shows h st'.mem (writtenUpTo h img data k) := by
  rcases hstop with hlost | ⟨e, he, hrun⟩
  · have hst : At h img (List.replicate k .pass ++ [.lost 0])
        { st with fates := List.replicate k .pass ++ [.lost 0] } := ⟨hshow, rfl⟩
    rw [← hlost]
    exact flashWrite_lost hc hh data hst
  · have hst : At h img (List.replicate k .pass ++ [.fail])
        { st with fates := List.replicate k .pass ++ [.fail] } := ⟨hshow, rfl⟩
    exact flashWrite_fail hc hh data hst hn he hrun

/-- Between the header and the erase two pages are valid. -/
theorem not_survives_switching (hc : Laid h) (hshow : Shows h st.mem img)
    (hh : (flashLog h).Holds img p n) (hn : (flashLog h).blocks ≤ n) {new : List Byte} {k : ℕ}
    (h1 : 1 ≤ k) (h2 : k ≤ 2) {st' : FlashState} (hstop : StoppedAfter h new k st st')
    (old : List Byte) : ¬ Survives h st' old new :=
  not_survives hc (stoppedAfter_shows hc hshow hh hn hstop)
    (hh.current_switching (page_flashHeader h) hn (flashBlock h new) h1 h2) old new

/-- A search that reports a full page has looked at all its blocks. -/
theorem blocks_le_of_full (hc : Laid h) (hshow : Shows h st.mem img)
    (hh : (flashLog h).Holds img p n)
    (hfull : flashFindBlock h .write st.mem = .blockWriteFull0 ∨
      flashFindBlock h .write st.mem = .blockWriteFull1) : (flashLog h).blocks ≤ n := by
  refine Nat.not_lt.1 fun hn => ?_
  rw [flashFindBlock_holds hc hshow hh, if_pos hn] at hfull
  rcases hfull with e | e <;> cases e

/-- **A page switch survives a stop exactly before it begins and after its
erase**: with the valid page full and stopped after `k` device operations, the
store is as good as before iff blocks are searched at all and `k` is 0 or at
least 3. -/
theorem page_switch_survives_iff (h : FlashInfo) (hc : Configured h) (datas : List (List Byte))
    (old : List Byte) (st : FlashState) (hr : Reached h (datas ++ [old]) st)
    (hfull : flashFindBlock h .write st.mem = .blockWriteFull0 ∨
      flashFindBlock h .write st.mem = .blockWriteFull1)
    (new : List Byte) (hfit : Fits h new) (k : ℕ) (st' : FlashState)
    (hstop : StoppedAfter h new k st st') :
    Survives h st' old new ↔ (h.blockNum.setWidth 16).toNat ≠ 0 ∧ (k = 0 ∨ 3 ≤ k) := by
  have hc := hc.laid
  obtain ⟨hold, img, p, n, hshow, hh, hblock⟩ := hr.stores hc
  have hn := blocks_le_of_full hc hshow hh hfull
  have hshow' := stoppedAfter_shows hc hshow hh hn hstop
  have hhdr := page_flashHeader h
  by_cases hnum : (h.blockNum.setWidth 16).toNat = 0
  · have hcur := PageLog.current_eq_none (show (flashLog h).blocks = 0 from hnum) (writtenUpTo h img new k)
    exact iff_of_false (not_survives hc hshow' hcur old new) fun hand => hand.1 hnum
  have hpos : 0 < (flashLog h).blocks := Nat.pos_of_ne_zero hnum
  by_cases hk : 1 ≤ k ∧ k ≤ 2
  · -- two valid pages
    exact iff_of_false (not_survives_switching hc hshow hh hn hk.1 hk.2 hstop old) (by omega)
  · refine iff_of_true ?_ ⟨hnum, by omega⟩
    by_cases h0 : k = 0
    · subst h0
      exact survives_old hc hpos ⟨img, p, n, hshow', hh, hblock⟩ hold new
    · -- all three operations are done
      have htake : writtenUpTo h img new k = written h img new := by
        unfold writtenUpTo written PageLog.after
        rw [hh.writeOps_full hn, List.take_of_length_le (by simp; omega)]
      rw [htake] at hshow'
      obtain ⟨hone, hholds⟩ := hh.after_full hn hhdr (block_flashBlock hc new)
      exact survives_new hc hpos ⟨_, _, _, hshow', hholds, hone⟩ hfit old

/-! ## Two blocks to a page -/

/-- Both blocks of page 0 are written. -/
def smallFull : FlashState := endState ((flashWrites smallFlash [[1], [2]]).run zeroFlash)

theorem smallFull_full : flashFindBlock smallFlash .write smallFull.mem = .blockWriteFull0 := by
  decide +kernel

theorem smallFull_reached : Reached smallFlash ([[1]] ++ [[2]]) smallFull :=
  zeroFlash_reached.writes smallFlash_configured.laid (show ∀ d ∈ [[1], [2]], Fits smallFlash d by decide)

/-- The power is lost after the header of the other page. -/
theorem page_switch_survives_iff_header :
    ∃ st', StoppedAfter smallFlash [3] 1 smallFull st' ∧
      (Survives smallFlash st' [2] [3] ↔
        (smallFlash.blockNum.setWidth 16).toNat ≠ 0 ∧ (1 = 0 ∨ 3 ≤ 1)) :=
  ⟨_, .inl rfl, page_switch_survives_iff smallFlash smallFlash_configured [[1]] [2] smallFull
    smallFull_reached (.inl smallFull_full) [3] (by decide) 1 _ (.inl rfl)⟩

/-- Then neither payload is read. -/
theorem page_switch_lost :
    ¬ ∀ (h : FlashInfo), Configured h → ∀ (datas : List (List Byte)) (old : List Byte)
      (st : FlashState), Reached h (datas ++ [old]) st →
        (flashFindBlock h .write st.mem = .blockWriteFull0 ∨
          flashFindBlock h .write st.mem = .blockWriteFull1) →
        ∀ new, Fits h new → ∀ k st', StoppedAfter h new k st st' → Survives h st' old new := by
  intro hall
  have hc := smallFlash_configured.laid
  obtain ⟨-, img, p, n, hshow, hh, -⟩ := smallFull_reached.stores hc
  have hn := blocks_le_of_full hc hshow hh (.inl smallFull_full)
  have hstop : StoppedAfter smallFlash [3] 1 smallFull _ := .inl rfl
  apply not_survives_switching hc hshow hh hn (Nat.le_refl 1) (by decide) hstop [2]
  exact hall smallFlash smallFlash_configured [[1]] [2] smallFull smallFull_reached (.inl smallFull_full) [3] (by decide) 1
    _ hstop

end Stm32Handler.Flash
