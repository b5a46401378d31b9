import Stm32Handler.Spi.W25q

/-!
# Erasing a chip that may be busy

The erase functions send the write enable before they wait for the chip,
`wq_memory_write` after it. A chip that is still busy ignores the write enable,
so it comes out of the wait with the latch clear and ignores the erase as well;
the last wait then finds an idle chip and reports success.
-/

namespace Stm32Handler.Spi

variable {g : NorGeometry} {id : BitVec 32} {c : NorChip}

/-- The three erase functions. -/
inductive Erase where
  | sector (addr : BitVec 32)
  | block (addr : BitVec 32)
  | chip
  deriving DecidableEq

namespace Erase

def call (g : NorGeometry) (id : BitVec 32) : Erase → WqM WqOpStatus
  | .sector addr => wqSectorErase g id addr
  | .block addr => wqBlockErase g id addr
  | .chip => wqChipErase g id

/-- The bytes it is to erase. -/
def Region (g : NorGeometry) : Erase → ℕ → Prop
  | .sector addr, x => x < g.size ∧ x / 4096 = addr.toNat % g.size / 4096
  | .block addr, x => x < g.size ∧ x / 65536 = addr.toNat % g.size / 65536
  | .chip, x => x < g.size

/-- The frame it sends. -/
def frame (id : BitVec 32) : Erase → List Byte
  | .sector addr => w25xSectorErase :: addrBytes id (addr - addr % w25xSectorSize)
  | .block addr => w25xBlockErase :: addrBytes id (addr - addr % w25xBlockSize)
  | .chip => [w25xChipErase]

/-- What its last wait is called with. -/
def mode : Erase → Byte
  | .sector _ => 0
  | .block _ | .chip => 1

/-- The region is all ones after the call, and nothing else has changed. -/
def Erases (g : NorGeometry) (id : BitVec 32) (c : NorChip) (e : Erase) : Prop :=
  let after := ((e.call g id).run (onBus c)).2.chip
  (∀ x, e.Region g x → after.mem x = 0xFF) ∧
    ∀ x < g.size, ¬ e.Region g x → after.mem x = c.mem x

theorem call_run (h : Matches g id) (hbusy : c.busy < w25xWaitTimeout) (e : Erase) :
    (e.call g id).run (onBus c) =
      (finish g e.mode).run (onBus ((enabled c).execute g (e.frame id)).released) := by
  cases e with
  | sector addr => exact wqErase_run h hbusy (by decide) w25xSectorSize 0 addr
  | block addr => exact wqErase_run h hbusy (by decide) w25xBlockSize 1 addr
  | chip => exact wqChipErase_run h hbusy

theorem call_busy (h : Matches g id) (hbusy : w25xWaitTimeout ≤ c.busy) (e : Erase) :
    ((e.call g id).run (onBus c)).1 = .timeoutErr := by
  cases e with
  | sector addr => exact wqErase_busy h hbusy _ _ _ addr
  | block addr => exact wqErase_busy h hbusy _ _ _ addr
  | chip => exact wqChipErase_busy h hbusy

instance (g : NorGeometry) (e : Erase) (x : ℕ) : Decidable (e.Region g x) :=
  match e with
  | .sector _ | .block _ => inferInstanceAs (Decidable (_ ∧ _))
  | .chip => inferInstanceAs (Decidable (_ < _))

/-- The address the driver rounds down, as the chip takes it, stays in its
region. -/
theorem aligned_region (h : Matches g id) (addr : BitVec 32) {size : BitVec 32}
    (hsize : size.toNat ∣ g.size) :
    bigEndian (addrBytes id (addr - addr % size)) % g.size / size.toNat =
      addr.toNat % g.size / size.toNat := by
  have hle : addr % size ≤ addr := by
    rw [BitVec.le_def, BitVec.toNat_umod]
    exact Nat.mod_le ..
  obtain ⟨k, hk⟩ := hsize
  rw [bigEndian_addrBytes h, BitVec.toNat_sub_of_le hle, BitVec.toNat_umod, hk,
    Nat.mod_mul_right_div_self, Nat.mod_mul_right_div_self, ← Nat.div_eq_sub_mod_div]

theorem enabled_wel : (enabled c).wel = true ↔ c.busy = 0 := by
  simp [enabled]

/-- A sector or block command erases the region if the write enable came
through, and nothing otherwise. -/
theorem execute_erase_mem (h : Matches g id) (addr : BitVec 32) {size : BitVec 32}
    (hsize : size.toNat ∣ g.size) {op : Byte}
    (hop : ∀ rest, (enabled c).execute g (op :: rest) =
      if (enabled c).wel ∧ rest.length = g.addrLen then
        (enabled c).start (eraseRegion size.toNat c.mem (bigEndian rest % g.size))
      else enabled c) (x : ℕ) :
    ((enabled c).execute g (op :: addrBytes id (addr - addr % size))).mem x =
      if c.busy = 0 ∧ x / size.toNat = addr.toNat % g.size / size.toNat then 0xFF
      else c.mem x := by
  simp only [hop, enabled_wel, addrBytes_length h, and_true]
  by_cases hb : c.busy = 0
  · rw [if_pos hb]
    simp only [NorChip.start, eraseRegion, aligned_region h addr hsize, hb, true_and]
  · rw [if_neg hb, if_neg fun hand => hb hand.1]
    rfl

theorem execute_frame_mem (h : Matches g id) (e : Erase) {x : ℕ} (hx : x < g.size) :
    ((enabled c).execute g (e.frame id)).mem x =
      if c.busy = 0 ∧ e.Region g x then 0xFF else c.mem x := by
  cases e with
  | sector addr =>
    have hsize : w25xSectorSize.toNat ∣ g.size :=
      dvd_trans (by decide : w25xSectorSize.toNat ∣ 65536) g.blocks
    simp only [Region, hx, true_and]
    exact execute_erase_mem h addr hsize (NorChip.execute_sector g (enabled c)) x
  | block addr =>
    have hsize : w25xBlockSize.toNat ∣ g.size := g.blocks
    simp only [Region, hx, true_and]
    exact execute_erase_mem h addr hsize (NorChip.execute_block g (enabled c)) x
  | chip =>
    have hexec : (enabled c).execute g (Erase.chip.frame id) =
        if (enabled c).wel then (enabled c).start fun _ => 0xFF else enabled c := rfl
    rw [hexec]
    simp only [enabled_wel, Region, hx, and_true]
    split <;> rfl

/-- **When an erase that reports success has erased**: the chip was not busy
when it was called, or the region was all ones before. -/
theorem reported_erases_iff (h : Matches g id) (e : Erase)
    (hok : ((e.call g id).run (onBus c)).1 = .ok) :
    e.Erases g id c ↔ c.busy = 0 ∨ ∀ x, e.Region g x → c.mem x = 0xFF := by
  have hbusy : c.busy < w25xWaitTimeout := by
    by_contra hge
    rw [call_busy h (Nat.le_of_not_lt hge)] at hok
    cases hok
  rw [call_run h hbusy] at hok
  have hinside : ∀ x, e.Region g x → x < g.size := by
    cases e with
    | sector addr => exact fun x hx => hx.1
    | block addr => exact fun x hx => hx.1
    | chip => exact fun x hx => hx
  have hmem : ∀ x < g.size, (((e.call g id).run (onBus c)).2.chip).mem x =
      if c.busy = 0 ∧ e.Region g x then 0xFF else c.mem x := by
    intro x hx
    rw [call_run h hbusy, finish_ok hok]
    exact execute_frame_mem h e hx
  unfold Erases
  constructor
  · rintro ⟨hones, -⟩
    by_cases hb : c.busy = 0
    · exact .inl hb
    · refine .inr fun x hx => ?_
      have hx' := hones x hx
      rwa [hmem x (hinside x hx), if_neg fun hand => hb hand.1] at hx'
  · intro hcond
    refine ⟨fun x hx => ?_, fun x hx hout => ?_⟩
    · rw [hmem x (hinside x hx)]
      rcases hcond with hb | hones
      · rw [if_pos ⟨hb, hx⟩]
      · rw [hones x hx, ite_self]
    · rw [hmem x hx, if_neg fun hand => hout hand.2]

/-- A chip without work to do erases a sector in five status reads. -/
theorem reported_erases_iff_idle :
    (Erase.sector 0x1234).Erases megabyte 0xEF13 ⟨fun _ => 0, false, 0, none, [5]⟩ ↔
      0 = 0 ∨ ∀ x, (Erase.sector 0x1234).Region megabyte x → (0 : Byte) = 0xFF :=
  reported_erases_iff megabyte_matches (.sector 0x1234) (by decide +kernel)

/-- The chip still has one status read to go: the call returns `WQ_OP_OK` and
the sector is as it was. -/
theorem busy_not_erased :
    ¬ ∀ (g : NorGeometry) (id : BitVec 32) (c : NorChip) (e : Erase), Matches g id →
      ((e.call g id).run (onBus c)).1 = .ok → e.Erases g id c := by
  intro h
  have herases := (h megabyte 0xEF13 ⟨fun _ => 0, false, 1, none, [5]⟩ (.sector 0) megabyte_matches
    (by decide +kernel)).1 0 (by decide)
  exact absurd herases (by decide +kernel)

end Erase

end Stm32Handler.Spi
