import Stm32Handler.Spi.W25q

/-!
# Write, then read

`wq_memory_write` sends all its bytes in one page program, and the chip wraps
the column inside the page: what does not fit into the page of `addr` comes
round to its beginning. `wq_memory_read` goes on through the pages. So the data
comes back iff the part that should have gone into the next page is erased
bytes anyway.
-/

namespace Stm32Handler.Spi

variable {g : NorGeometry} {id : BitVec 32} {c : NorChip}

/-- Reading the range after the write gives the data, and no byte outside of
it has changed. -/
def ReadsBack (g : NorGeometry) (id : BitVec 32) (c : NorChip) (addr : BitVec 32)
    (pbuffer : List Byte) : Prop :=
  let written := ((wqMemoryWrite g id addr pbuffer).run (onBus c)).2
  let read := (wqMemoryRead g id addr pbuffer.length).run written
  read.1 = (.ok, pbuffer) ∧
    ∀ a < g.size, ¬ (addr.toNat ≤ a ∧ a < addr.toNat + pbuffer.length) →
      read.2.chip.mem a = c.mem a

/-- The whole range of a write is inside the chip and erased. -/
structure Erased (g : NorGeometry) (c : NorChip) (addr : BitVec 32) (num : ℕ) : Prop where
  inside : addr.toNat + num ≤ g.size
  ones : ∀ i < num, c.mem (addr.toNat + i) = 0xFF

/-- The bytes that do not fit into the page of `addr`. -/
def beyondPage (addr : BitVec 32) (pbuffer : List Byte) : List Byte :=
  pbuffer.drop (256 - addr.toNat % 256)

theorem written_mem (h : Matches g id) (hidle : c.busy = 0) (addr : BitVec 32)
    (pbuffer : List Byte) :
    ((enabled c).execute g (w25xPageProgram :: (addrBytes id addr ++ pbuffer))).mem =
      programPage c.mem (addr.toNat % g.size) pbuffer := by
  have hlen := addrBytes_length h addr
  have hwel : (enabled c).wel = true := by simp [enabled, hidle]
  rw [w25xPageProgram, NorChip.execute_program, hwel, List.length_append, hlen]
  cases pbuffer with
  | nil =>
    rw [if_neg (by simp)]
    rfl
  | cons b bs =>
    rw [if_pos ⟨rfl, by simp⟩, ← hlen, List.take_left, List.drop_left, bigEndian_addrBytes h]
    rfl

/-- What a write that returned `WQ_OP_OK` leaves to the read after it. -/
theorem readsBack_iff (h : Matches g id) (hidle : c.busy = 0) (addr : BitVec 32)
    (pbuffer : List Byte) (hok : ((wqMemoryWrite g id addr pbuffer).run (onBus c)).1 = .ok) :
    ReadsBack g id c addr pbuffer ↔
      ((List.range pbuffer.length).map fun k =>
          programPage c.mem (addr.toNat % g.size) pbuffer ((addr.toNat + k) % g.size)) = pbuffer ∧
        ∀ a < g.size, ¬ (addr.toNat ≤ a ∧ a < addr.toNat + pbuffer.length) →
          programPage c.mem (addr.toNat % g.size) pbuffer a = c.mem a := by
  rw [wqMemoryWrite_run h hidle] at hok
  have hmem := written_mem h hidle addr pbuffer
  unfold ReadsBack
  rw [wqMemoryWrite_run h hidle, finish_ok hok]
  generalize (enabled c).execute g (w25xPageProgram :: (addrBytes id addr ++ pbuffer)) = c' at hmem
  have hbusy : c'.released.settled.busy = 0 := rfl
  have hmem' : c'.released.settled.mem = programPage c.mem (addr.toNat % g.size) pbuffer := hmem
  have hmem'' : c'.released.settled.released.mem = programPage c.mem (addr.toNat % g.size) pbuffer :=
    hmem
  simp only [wqMemoryRead_run h hbusy, hmem', hmem'', Prod.mk.injEq, true_and]

/-- What the chip holds at byte `k` of an erased range, while nothing has
wrapped. -/
theorem programmed_eq {addr : BitVec 32} {pbuffer : List Byte}
    (herased : Erased g c addr pbuffer.length) (hones : ∀ b ∈ beyondPage addr pbuffer, b = 0xFF)
    {k : ℕ} (hk : k < pbuffer.length) :
    programPage c.mem addr.toNat pbuffer (addr.toNat + k) = pbuffer[k] := by
  rw [programPage_of_drop_ones c.mem hones, if_pos (by omega), herased.ones k hk,
    Nat.add_sub_cancel_left, List.getD_eq_getElem _ _ hk]
  exact BitVec.allOnes_and

/-- A byte beyond the page is not programmed. -/
theorem beyond_eq {addr : BitVec 32} {pbuffer : List Byte}
    (herased : Erased g c addr pbuffer.length) {k : ℕ} (hk : k < pbuffer.length)
    (hbeyond : 256 - addr.toNat % 256 ≤ k) :
    programPage c.mem addr.toNat pbuffer (addr.toNat + k) = 0xFF := by
  rw [programPage_of_page_ne c.mem pbuffer (by omega), herased.ones k hk]

/-- **Write then read**: after a write to an erased range that returned
`WQ_OP_OK`, the data reads back, with nothing else changed, iff the bytes that
do not fit into the page of `addr` are all `0xff`. -/
theorem write_reads_back_iff (h : Matches g id) (hidle : c.busy = 0) {addr : BitVec 32}
    {pbuffer : List Byte} (herased : Erased g c addr pbuffer.length)
    (hok : ((wqMemoryWrite g id addr pbuffer).run (onBus c)).1 = .ok) :
    ReadsBack g id c addr pbuffer ↔ ∀ b ∈ beyondPage addr pbuffer, b = 0xFF := by
  have hinside := herased.inside
  rw [readsBack_iff h hidle addr pbuffer hok]
  rcases eq_or_ne pbuffer [] with rfl | hne
  · simp [beyondPage, programPage]
  have hpos : 0 < pbuffer.length := List.length_pos_iff.2 hne
  have haddr : addr.toNat % g.size = addr.toNat := Nat.mod_eq_of_lt (by omega)
  rw [haddr]
  constructor
  · rintro ⟨hread, -⟩ b hb
    obtain ⟨k, hk, hle, rfl⟩ :
        ∃ k, ∃ hk : k < pbuffer.length, 256 - addr.toNat % 256 ≤ k ∧ pbuffer[k] = b := by
      obtain ⟨i, hi, hget⟩ := List.mem_drop_iff_getElem.1 hb
      exact ⟨_, by omega, Nat.le_add_right .., hget⟩
    have hget := List.getElem_of_eq hread.symm hk
    rw [List.getElem_map, List.getElem_range] at hget
    rw [hget, Nat.mod_eq_of_lt (by omega), beyond_eq herased hk hle]
  · intro hones
    refine ⟨List.ext_getElem (by simp) fun k hk _ => ?_, fun a _ hout => ?_⟩
    · have hk : k < pbuffer.length := by simpa using hk
      rw [List.getElem_map, List.getElem_range, Nat.mod_eq_of_lt (by omega),
        programmed_eq herased hones hk]
    · rw [programPage_of_drop_ones c.mem hones, if_neg hout]

/-- All erased; its next operation takes three status reads. -/
def blankChip : NorChip := ⟨fun _ => 0xFF, false, 0, none, [3]⟩

theorem blankChip_erased {addr : BitVec 32} {num : ℕ} (h : addr.toNat + num ≤ megabyte.size) :
    Erased megabyte blankChip addr num :=
  ⟨h, fun _ _ => rfl⟩

/-- Two bytes at the end of a page, of which the second is `0xff`. -/
theorem write_reads_back_iff_padded :
    ReadsBack megabyte 0xEF13 blankChip 255 [7, 0xFF] ↔
      ∀ b ∈ beyondPage 255 [7, 0xFF], b = 0xFF :=
  write_reads_back_iff megabyte_matches rfl (blankChip_erased (by decide)) (by decide +kernel)

/-- Two bytes at the end of a page: the second one goes to its beginning. -/
theorem write_wraps :
    ¬ ∀ (g : NorGeometry) (id : BitVec 32) (c : NorChip) (addr : BitVec 32) (pbuffer : List Byte),
      Matches g id → c.busy = 0 → pbuffer.length < 65536 → Erased g c addr pbuffer.length →
        ((wqMemoryWrite g id addr pbuffer).run (onBus c)).1 = .ok → ReadsBack g id c addr pbuffer := by
  intro h
  have hread := (h megabyte 0xEF13 blankChip 255 [1, 2] megabyte_matches rfl (by decide)
    (blankChip_erased (by decide)) (by decide +kernel)).1
  exact absurd hread (by decide +kernel)

end Stm32Handler.Spi
