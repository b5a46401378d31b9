import Stm32Handler.Lib.NorFlash
import Stm32Handler.Spi.W25qBus

/-!
# The W25Q driver and a chip

The bus with a serial NOR chip and the outcomes still to come of
`HAL_SPI_TransmitReceive`, which past the list succeeds. An exchange that fails
moves no byte and reads as `0xff`.

The second half follows the frames: with every exchange succeeding each frame
of the driver is one effect on the chip.
-/

namespace Stm32Handler.Spi

structure SpiBus where
  chip : NorChip
  /-- `false` for an exchange that fails -/
  outcomes : List Bool

abbrev WqM := StateM SpiBus

/-- `WQ25_CS_ON` -/
def csOn : WqM Unit := modify fun s => { s with chip := s.chip.select }

/-- `WQ25_CS_OFF` -/
def csOff (g : NorGeometry) : WqM Unit := modify fun s => { s with chip := s.chip.deselect g }

/-- `spi_rw_byte`, with whether the status is `HAL_OK`. -/
def spiRwByte (g : NorGeometry) (data : Byte) : WqM (Byte × Bool) :=
  modifyGet fun s =>
    let rest := s.outcomes.tail
    if s.outcomes.headD true then
      let (rx, chip) := s.chip.exchange g data
      ((rx, true), { chip, outcomes := rest })
    else ((0xFF, false), { s with outcomes := rest })

def chipBus (g : NorGeometry) : WqBus WqM where
  csOn := csOn
  csOff := csOff g
  spiRwByte := spiRwByte g

section Calls

variable (g : NorGeometry) (id addr : BitVec 32)

def wqSectorErase : WqM WqOpStatus := (chipBus g).wqSectorErase id addr

def wqBlockErase : WqM WqOpStatus := (chipBus g).wqBlockErase id addr

def wqChipErase : WqM WqOpStatus := (chipBus g).wqChipErase id

def wqMemoryRead (num : ℕ) : WqM (WqOpStatus × List Byte) := (chipBus g).wqMemoryRead id addr num

def wqMemoryWrite (pbuffer : List Byte) : WqM WqOpStatus := (chipBus g).wqMemoryWrite id addr pbuffer

end Calls

/-! ## The frames of the driver -/

section Frames

variable {g : NorGeometry} {α β : Type}

theorem run_bind (x : WqM α) (f : α → WqM β) (s : SpiBus) :
    (x >>= f).run s = (f (x.run s).1).run (x.run s).2 := rfl

theorem run_pure (a : α) (s : SpiBus) : (pure a : WqM α).run s = (a, s) := rfl

/-- The bus on which everything succeeds. -/
abbrev onBus (c : NorChip) : SpiBus := ⟨c, []⟩

theorem csOn_run (c : NorChip) : (chipBus g).csOn.run (onBus c) = ((), onBus (c.within [])) := rfl

theorem csOff_run (c : NorChip) : (chipBus g).csOff.run (onBus c) = ((), onBus (c.deselect g)) := rfl

theorem spiRwByte_run (c : NorChip) (b : Byte) :
    ((chipBus g).spiRwByte b).run (onBus c) = (((c.exchange g b).1, true), onBus (c.exchange g b).2) := rfl

theorem spiSend_run (c : NorChip) {f : List Byte} (hf : f.head? ≠ some 0x05) (hne : f ≠ [])
    (bs : List Byte) :
    ((chipBus g).spiSend bs).run (onBus (c.within f)) = ((), onBus (c.within (f ++ bs))) := by
  induction bs generalizing f with
  | nil =>
    rw [List.append_nil]
    rfl
  | cons b bs ih =>
    have hhead : (f ++ [b]).head? ≠ some 0x05 := by
      rw [List.head?_append_of_ne_nil _ hne]
      exact hf
    simp only [WqBus.spiSend, run_bind, spiRwByte_run, NorChip.exchange_within c hf]
    rw [ih hhead (by simp), List.append_assoc]
    rfl

theorem run_ite (p : Prop) [Decidable p] (x y : WqM α) (s : SpiBus) :
    (if p then x else y).run s = if p then x.run s else y.run s := by
  split <;> rfl

theorem wqWriteEnable_run (c : NorChip) :
    (chipBus g).wqWriteEnable.run (onBus c) =
      ((), onBus (if c.busy = 0 then { c with wel := true } else c).released) := by
  simp only [WqBus.wqWriteEnable, run_bind, csOn_run, spiRwByte_run, csOff_run,
    NorChip.exchange_within c (show [].head? ≠ some 0x05 by simp), NorChip.deselect_within]
  rfl

/-- A status read answers what the chip was and lets its time pass. -/
theorem wqReadStatus_run (c : NorChip) :
    (chipBus g).wqReadStatus.run (onBus c) = (c.status, onBus c.poll.released) := by
  simp only [WqBus.wqReadStatus, run_bind, csOn_run, spiRwByte_run, csOff_run,
    NorChip.exchange_within c (show [].head? ≠ some 0x05 by simp)]
  have hread : (c.within ([] ++ [w25xInstruRdsr1])).exchange g 0xFF =
      (c.status, c.poll.within [0x05, 0xFF]) := rfl
  simp only [hread, NorChip.deselect_within, NorChip.execute_status, ite_self]
  rfl

theorem status_and_one (c : NorChip) : c.status &&& 0x1 = 0 ↔ c.busy = 0 := by
  unfold NorChip.status
  by_cases hb : c.busy = 0
  · cases c.wel <;> simp [hb]
  · have hpos : 0 < c.busy := Nat.pos_of_ne_zero hb
    cases c.wel <;> simp [hb, hpos]

/-- Waiting ends well iff the chip is done within the given number of reads. -/
theorem wqWaitLoop_run {n : ℕ} (c : NorChip) :
    (c.busy < n → ((chipBus g).wqWaitLoop n).run (onBus c) = (.ok, onBus c.settled)) ∧
      (n ≤ c.busy → (((chipBus g).wqWaitLoop n).run (onBus c)).1 = .timeoutErr) := by
  induction n generalizing c with
  | zero => exact ⟨fun h => absurd h (Nat.not_lt_zero _), fun _ => rfl⟩
  | succ n ih =>
    simp only [WqBus.wqWaitLoop, run_bind, run_ite, run_pure, wqReadStatus_run, status_and_one]
    by_cases hb : c.busy = 0
    · have hsettled : c.poll.released = c.settled := by
        simp [NorChip.poll, NorChip.released, NorChip.settled, hb]
      simp only [hb, ↓reduceIte, hsettled, implies_true, true_and]
      omega
    · have hbusy : c.poll.released.busy = c.busy - 1 := rfl
      have hsettled : c.poll.released.settled = c.settled := by
        have h1 : c.busy - 1 = 0 ↔ c.busy = 1 := by omega
        simp only [NorChip.poll, NorChip.released, NorChip.settled, hb, h1, ↓reduceIte]
        by_cases hone : c.busy = 1 <;> simp [hone]
      obtain ⟨ihok, ihtimeout⟩ := ih c.poll.released
      rw [hbusy] at ihok ihtimeout
      simp only [hb, ↓reduceIte]
      refine ⟨fun h => ?_, fun h => ?_⟩
      · rw [ihok (by omega), hsettled]
      · exact ihtimeout (by omega)

theorem wqWaitBusy_ok {mode : Byte} {c : NorChip}
    (h : c.busy < if mode = 0 then w25xWaitTimeout else w25xWaitLongTimeout) :
    ((chipBus g).wqWaitBusy mode).run (onBus c) = (.ok, onBus c.settled) :=
  (wqWaitLoop_run c).1 h

theorem wqWaitBusy_timeout {mode : Byte} {c : NorChip}
    (h : (if mode = 0 then w25xWaitTimeout else w25xWaitLongTimeout) ≤ c.busy) :
    (((chipBus g).wqWaitBusy mode).run (onBus c)).1 = .timeoutErr :=
  (wqWaitLoop_run c).2 h

/-- The bytes a chip sends while dummies are clocked in. -/
theorem spiReceive_run (c : NorChip) {f : List Byte} (hf : f.head? ≠ some 0x05) (hne : f ≠ [])
    (n : ℕ) :
    ((chipBus g).spiReceive n).run (onBus (c.within f)) =
      ((List.range n).map fun k => c.reply g (f ++ List.replicate k 0xFF),
        onBus (c.within (f ++ List.replicate n 0xFF))) := by
  induction n generalizing f with
  | zero =>
    rw [List.replicate_zero, List.append_nil]
    rfl
  | succ n ih =>
    have hhead : (f ++ [0xFF]).head? ≠ some 0x05 := by
      rw [List.head?_append_of_ne_nil _ hne]
      exact hf
    simp only [WqBus.spiReceive, run_bind, spiRwByte_run, NorChip.exchange_within c hf,
      ih hhead (by simp), run_pure, List.range_succ_eq_map, List.map_cons, List.map_map]
    simp only [List.append_assoc, List.replicate_zero, List.append_nil, Function.comp_def,
      List.replicate_succ, List.singleton_append]

/-! ## Addresses -/

/-- The driver's id and the chip agree: a Winbond id, and the address length
that goes with it. -/
structure Matches (g : NorGeometry) (id : BitVec 32) : Prop where
  manufacturer : getManufacturerId id = wq25ManufacturerId
  fourByte : g.fourByte = decide (id = chipIdQ256)

/-- A chip of 1 MB. -/
def megabyte : NorGeometry where
  size := 2 ^ 20
  fourByte := false
  pos := by decide
  blocks := by decide
  fits := by decide

theorem megabyte_matches : Matches megabyte 0xEF13 := ⟨by decide, by decide⟩

theorem addrBytes_length {id : BitVec 32} (h : Matches g id) (addr : BitVec 32) :
    (addrBytes id addr).length = g.addrLen := by
  unfold addrBytes NorGeometry.addrLen
  rw [h.fourByte]
  by_cases hid : id = chipIdQ256 <;> simp [hid]

/-- The chip takes the address modulo its size, whatever its address length. -/
theorem bigEndian_addrBytes {id : BitVec 32} (h : Matches g id) (addr : BitVec 32) :
    bigEndian (addrBytes id addr) % g.size = addr.toNat % g.size := by
  have hfits := g.fits
  rw [h.fourByte] at hfits
  have hlt := addr.isLt
  unfold addrBytes
  by_cases hid : id = chipIdQ256
  · have hval : bigEndian [(addr >>> 24).truncate 8, (addr >>> 16).truncate 8,
        (addr >>> 8).truncate 8, addr.truncate 8] = addr.toNat := by
      simp only [bigEndian, List.foldl_cons, List.foldl_nil, BitVec.truncate_eq_setWidth,
        BitVec.toNat_setWidth, BitVec.toNat_ushiftRight, Nat.shiftRight_eq_div_pow]
      omega
    simp only [hid, ↓reduceIte, List.singleton_append, hval]
  · have hval : bigEndian [(addr >>> 16).truncate 8, (addr >>> 8).truncate 8,
        addr.truncate 8] = addr.toNat % 2 ^ 24 := by
      simp only [bigEndian, List.foldl_cons, List.foldl_nil, BitVec.truncate_eq_setWidth,
        BitVec.toNat_setWidth, BitVec.toNat_ushiftRight, Nat.shiftRight_eq_div_pow]
      omega
    simp only [hid, decide_false, Bool.false_eq_true, ↓reduceIte] at hfits
    simp only [hid, ↓reduceIte, List.nil_append, hval]
    exact Nat.mod_mod_of_dvd _ hfits

/-! ## Commands -/

/-- After `wq_write_enable` and a wait that ends well: the latch is set only
if the chip was not busy to begin with. -/
def enabled (c : NorChip) : NorChip :=
  { c with busy := 0, wel := decide (c.busy = 0), frame := none }

theorem settled_enable (c : NorChip) :
    (if c.busy = 0 then { c with wel := true } else c).released.settled = enabled c := by
  by_cases h : c.busy = 0 <;> simp [NorChip.released, NorChip.settled, enabled, h]

theorem wqMemoryRead_run {id : BitVec 32} (h : Matches g id) {c : NorChip} (hidle : c.busy = 0)
    (addr : BitVec 32) (num : ℕ) :
    (wqMemoryRead g id addr num).run (onBus c) =
      ((.ok, (List.range num).map fun k => c.mem ((addr.toNat + k) % g.size)), onBus c.released) := by
  have hlen := addrBytes_length h addr
  have hreply : ∀ k, c.reply g (w25xInstruRead :: addrBytes id addr ++ List.replicate k 0xFF) =
      c.mem ((addr.toNat + k) % g.size) := by
    intro k
    have htake : (addrBytes id addr ++ List.replicate k 0xFF).take g.addrLen = addrBytes id addr := by
      rw [← hlen, List.take_left]
    have hsub : (addrBytes id addr ++ List.replicate k 0xFF).length - g.addrLen = k := by
      rw [List.length_append, List.length_replicate, hlen, Nat.add_sub_cancel_left]
    have hle : g.addrLen ≤ (addrBytes id addr ++ List.replicate k 0xFF).length := by
      rw [List.length_append, hlen]
      exact Nat.le_add_right ..
    rw [List.cons_append, w25xInstruRead, NorChip.reply_read, if_pos ⟨hidle, hle⟩, htake, hsub,
      Nat.add_mod, bigEndian_addrBytes h, ← Nat.add_mod]
  have hhead : [w25xInstruRead].head? ≠ some 0x05 := by decide
  have hhead' : (w25xInstruRead :: addrBytes id addr).head? ≠ some 0x05 := hhead
  unfold wqMemoryRead WqBus.wqMemoryRead
  rw [if_neg (not_not_intro h.manufacturer)]
  simp only [run_bind, csOn_run, spiRwByte_run, csOff_run,
    NorChip.exchange_within c (show [].head? ≠ some 0x05 by simp), List.nil_append, ↓reduceIte,
    spiSend_run c hhead (List.cons_ne_nil _ _), List.singleton_append,
    spiReceive_run c hhead' (List.cons_ne_nil _ _), hreply, NorChip.deselect_within,
    Bool.not_true, Bool.false_eq_true, run_pure]
  simp only [List.cons_append, w25xInstruRead, NorChip.execute_read, ite_self]

/-- The last wait of a command that was sent as a whole. -/
def finish (g : NorGeometry) (mode : Byte) : WqM WqOpStatus := do
  if (← (chipBus g).wqWaitBusy mode) ≠ .ok then return .timeoutErr
  return .ok

theorem finish_ok {mode : Byte} {c : NorChip}
    (hok : ((finish g mode).run (onBus c)).1 = .ok) :
    (finish g mode).run (onBus c) = (.ok, onBus c.settled) := by
  by_cases h : c.busy < if mode = 0 then w25xWaitTimeout else w25xWaitLongTimeout
  · simp only [finish, run_bind, wqWaitBusy_ok h, ne_eq, not_true_eq_false, ↓reduceIte, run_pure]
  · have htimeout := wqWaitBusy_timeout (g := g) (Nat.le_of_not_lt h)
    simp only [finish, run_bind, htimeout, ne_eq, reduceCtorEq, not_false_eq_true, ↓reduceIte,
      run_pure] at hok

/-- `wq_memory_write` up to its last wait. -/
theorem wqMemoryWrite_run {id : BitVec 32} (h : Matches g id) {c : NorChip} (hidle : c.busy = 0)
    (addr : BitVec 32) (pbuffer : List Byte) :
    (wqMemoryWrite g id addr pbuffer).run (onBus c) =
      (finish g 0).run (onBus
        ((enabled c).execute g (w25xPageProgram :: (addrBytes id addr ++ pbuffer))).released) := by
  have hbusy : c.busy < w25xWaitTimeout := by rw [hidle]; decide
  have hhead : [w25xPageProgram].head? ≠ some 0x05 := by decide
  have hhead' : (w25xPageProgram :: addrBytes id addr).head? ≠ some 0x05 := hhead
  unfold wqMemoryWrite WqBus.wqMemoryWrite
  rw [if_neg (not_not_intro h.manufacturer)]
  simp only [run_bind]
  rw [wqWaitBusy_ok hbusy]
  have henabled : ∀ f, (if c.settled.busy = 0 then { c.settled with wel := true }
      else c.settled).released.within f = (enabled c).within f := by
    intro f
    simp [NorChip.settled, NorChip.released, NorChip.within, enabled, hidle]
  have hbusy' : (enabled c).busy = 0 := rfl
  simp only [ne_eq, not_true_eq_false, ↓reduceIte, run_bind, wqWriteEnable_run, csOn_run, henabled,
    spiRwByte_run, NorChip.exchange_within (enabled c) (show [].head? ≠ some 0x05 by simp),
    List.nil_append, spiSend_run (enabled c) hhead (List.cons_ne_nil _ _),
    spiSend_run (enabled c) hhead' (List.cons_ne_nil _ _), csOff_run, NorChip.deselect_within, hbusy',
    List.cons_append, Bool.not_true, Bool.false_eq_true]
  rfl

/-- The two calls every erase starts with. -/
theorem enable_wait_run {c : NorChip} (hbusy : c.busy < w25xWaitTimeout) :
    ((chipBus g).wqWaitBusy 0).run
        (onBus (if c.busy = 0 then { c with wel := true } else c).released) =
      (.ok, onBus (enabled c)) := by
  have hbusy' : (if c.busy = 0 then { c with wel := true } else c).released.busy = c.busy := by
    split <;> rfl
  rw [wqWaitBusy_ok (by rw [hbusy']; exact hbusy), settled_enable]

theorem enable_wait_timeout {c : NorChip} (hbusy : w25xWaitTimeout ≤ c.busy) :
    (((chipBus g).wqWaitBusy 0).run
        (onBus (if c.busy = 0 then { c with wel := true } else c).released)).1 = .timeoutErr := by
  have hbusy' : (if c.busy = 0 then { c with wel := true } else c).released.busy = c.busy := by
    split <;> rfl
  exact wqWaitBusy_timeout (by rw [hbusy']; exact hbusy)

/-- `wq_sector_erase` and `wq_block_erase` up to their last wait, if the first
one ends well. -/
theorem wqErase_run {id : BitVec 32} (h : Matches g id) {c : NorChip}
    (hbusy : c.busy < w25xWaitTimeout) {instruct : Byte} (hinstruct : instruct ≠ 0x05)
    (size : BitVec 32) (mode : Byte) (addr : BitVec 32) :
    ((chipBus g).wqErase id instruct size mode addr).run (onBus c) =
      (finish g mode).run (onBus
        ((enabled c).execute g (instruct :: addrBytes id (addr - addr % size))).released) := by
  have hhead : [instruct].head? ≠ some 0x05 := by simpa using hinstruct
  have hbusy' : (enabled c).busy = 0 := rfl
  unfold WqBus.wqErase
  rw [if_neg (not_not_intro h.manufacturer)]
  simp only [run_bind, wqWriteEnable_run]
  rw [enable_wait_run hbusy]
  simp only [ne_eq, not_true_eq_false, ↓reduceIte, run_bind, csOn_run, spiRwByte_run,
    NorChip.exchange_within (enabled c) (show [].head? ≠ some 0x05 by simp), List.nil_append,
    spiSend_run (enabled c) hhead (List.cons_ne_nil _ _), csOff_run, NorChip.deselect_within, hbusy',
    List.singleton_append, Bool.not_true, Bool.false_eq_true]
  rfl

theorem wqErase_busy {id : BitVec 32} (h : Matches g id) {c : NorChip}
    (hbusy : w25xWaitTimeout ≤ c.busy) (instruct : Byte) (size : BitVec 32) (mode : Byte)
    (addr : BitVec 32) :
    (((chipBus g).wqErase id instruct size mode addr).run (onBus c)).1 = .timeoutErr := by
  unfold WqBus.wqErase
  rw [if_neg (not_not_intro h.manufacturer)]
  simp only [run_bind, wqWriteEnable_run, enable_wait_timeout hbusy, ne_eq, reduceCtorEq,
    not_false_eq_true, ↓reduceIte, run_pure]

theorem wqChipErase_run {id : BitVec 32} (h : Matches g id) {c : NorChip}
    (hbusy : c.busy < w25xWaitTimeout) :
    (wqChipErase g id).run (onBus c) =
      (finish g 1).run (onBus ((enabled c).execute g [w25xChipErase]).released) := by
  have hbusy' : (enabled c).busy = 0 := rfl
  unfold wqChipErase WqBus.wqChipErase
  rw [if_neg (not_not_intro h.manufacturer)]
  simp only [run_bind, wqWriteEnable_run]
  rw [enable_wait_run hbusy]
  simp only [ne_eq, not_true_eq_false, ↓reduceIte, run_bind, csOn_run, spiRwByte_run,
    NorChip.exchange_within (enabled c) (show [].head? ≠ some 0x05 by simp), List.nil_append,
    csOff_run, NorChip.deselect_within, hbusy', Bool.not_true, Bool.false_eq_true]
  rfl

theorem wqChipErase_busy {id : BitVec 32} (h : Matches g id) {c : NorChip}
    (hbusy : w25xWaitTimeout ≤ c.busy) :
    ((wqChipErase g id).run (onBus c)).1 = .timeoutErr := by
  unfold wqChipErase WqBus.wqChipErase
  rw [if_neg (not_not_intro h.manufacturer)]
  simp only [run_bind, wqWriteEnable_run, enable_wait_timeout hbusy, ne_eq, reduceCtorEq,
    not_false_eq_true, ↓reduceIte, run_pure]

end Frames

end Stm32Handler.Spi
