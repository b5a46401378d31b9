import Stm32Handler.I2c.Transfer

/-!
# A memory on the software I2C

`MemSlave m` is a memory of `2 ^ (8 * m)` bytes behind `m` address bytes. What
`i2c_write_memory` writes into it `i2c_read_memory` reads back, and nothing
else in it changes (`memory_round_trip`).
-/

namespace Stm32Handler.I2c

structure MemSlave (m : ℕ) where
  cells : Mem (8 * m)
  pointer : BitVec (8 * m)
  /-- the address bytes to come; `none` before the device address -/
  expect : Option ℕ

namespace MemSlave

variable {m : ℕ}

/-- A write frame begins with the address, most significant byte first; every
byte of data moves the pointer on. -/
def write (dev : MemSlave m) (b : Byte) : MemSlave m :=
  match dev.expect with
  | none => { dev with expect := some (if b.getLsbD 0 then 0 else m) }
  | some (n + 1) =>
    { dev with pointer := dev.pointer <<< 8 ||| b.setWidth (8 * m), expect := some n }
  | some 0 =>
    { dev with
      cells := Function.update dev.cells dev.pointer b
      pointer := dev.pointer + 1 }

/-- It acknowledges every byte. -/
def device : I2cDevice (MemSlave m) where
  start dev := { dev with expect := none }
  stop := id
  write dev b := (true, dev.write b)
  read dev := (dev.cells dev.pointer, { dev with pointer := dev.pointer + 1 })

theorem offer_device (bs : List Byte) (dev : MemSlave m) :
    device.offer bs dev = (List.replicate bs.length true, bs.foldl write dev) := by
  induction bs generalizing dev with
  | nil => rfl
  | cons b bs ih =>
    rw [offer_ack rfl]
    show (true :: (device.offer bs (dev.write b)).1, (device.offer bs (dev.write b)).2) = _
    rw [ih]
    rfl

theorem accepts_device (bs : List Byte) (dev : MemSlave m) : device.accepts bs dev = true := by
  rw [I2cDevice.accepts, offer_device]
  simp

theorem addressRow_succ (memAddr : BitVec 32) (n : ℕ) :
    addressRow memAddr (n + 1) = wordByte memAddr n :: addressRow memAddr n := by
  simp [addressRow, row, List.range_succ]

/-- Address bytes shift the pointer up and come in below. -/
theorem foldl_address (memAddr : BitVec 32) (n : ℕ) (cells : Mem (8 * m)) (p : BitVec (8 * m)) :
    ∃ q : BitVec (8 * m), (addressRow memAddr n).foldl write ⟨cells, p, some n⟩ = ⟨cells, q, some 0⟩ ∧
      ∀ i < 8 * m, q.getLsbD i = if i < 8 * n then memAddr.getLsbD i else p.getLsbD (i - 8 * n) := by
  induction n generalizing p with
  | zero => exact ⟨p, rfl, fun i _ => by simp⟩
  | succ n ih =>
    obtain ⟨q, hq, hbits⟩ := ih (p <<< 8 ||| (wordByte memAddr n).setWidth (8 * m))
    refine ⟨q, ?_, fun i hi => ?_⟩
    · rw [addressRow_succ]
      exact hq
    · rw [hbits i hi]
      by_cases hlow : i < 8 * n
      · rw [if_pos hlow, if_pos (by omega)]
      · rw [if_neg hlow]
        simp only [BitVec.getLsbD_or, BitVec.getLsbD_shiftLeft, BitVec.getLsbD_setWidth, wordByte,
          BitVec.getLsbD_extractLsb']
        by_cases hmid : i < 8 * (n + 1)
        · rw [if_pos hmid]
          simp [show i - 8 * n < 8 by omega, show i - 8 * n < 8 * m by omega,
            show 8 * n + (i - 8 * n) = i by omega]
        · rw [if_neg hmid]
          simp [show ¬ i - 8 * n < 8 by omega, show i - 8 * n < 8 * m by omega,
            show i - 8 * n - 8 = i - 8 * (n + 1) by omega]

/-- After its address bytes the memory is at the address. -/
theorem foldl_pointer (memAddr : BitVec 32) (cells : Mem (8 * m)) (p : BitVec (8 * m)) :
    (addressRow memAddr m).foldl write ⟨cells, p, some m⟩ =
      ⟨cells, memAddr.setWidth (8 * m), some 0⟩ := by
  obtain ⟨q, hq, hbits⟩ := foldl_address memAddr m cells p
  have hpointer : q = memAddr.setWidth (8 * m) := by
    refine BitVec.eq_of_getLsbD_eq fun i hi => ?_
    rw [hbits i hi, if_pos hi, BitVec.getLsbD_setWidth]
    simp [hi]
  rw [hq, hpointer]

/-- Data goes in from the pointer on. -/
theorem foldl_data (data : Buf) (cells : Mem (8 * m)) (a : BitVec (8 * m)) {n : ℕ}
    (hn : n ≤ 2 ^ (8 * m)) :
    (row data n).foldl write ⟨cells, a, some 0⟩ =
      ⟨cells.blit a n data, a + BitVec.ofNat (8 * m) n, some 0⟩ := by
  induction n with
  | zero =>
    rw [Mem.blit_zero]
    simp [row]
  | succ n ih =>
    rw [row, List.range_succ, List.map_append, List.foldl_append, ← row, ih (by omega)]
    simp only [List.map_cons, List.map_nil, List.foldl_cons, List.foldl_nil, write,
      Mem.blit_succ cells a data (Nat.lt_of_succ_le hn)]
    rw [BitVec.add_assoc, BitVec.ofNat_add]
    rfl

theorem row_succ (f : ℕ → Byte) (n : ℕ) : row f (n + 1) = f 0 :: row (fun i => f (i + 1)) n := by
  simp [row, List.range_succ_eq_map, Function.comp_def]

/-- And comes out. -/
theorem supply_device (cells : Mem (8 * m)) (a : BitVec (8 * m)) (e : Option ℕ) (n : ℕ) :
    device.supply n ⟨cells, a, e⟩ =
      (row (cells.bytes a) n, ⟨cells, a + BitVec.ofNat (8 * m) n, e⟩) := by
  induction n generalizing a with
  | zero => simp [I2cDevice.supply, row]
  | succ n ih =>
    have hbytes : cells.bytes (a + 1) = fun i => cells.bytes a (i + 1) := by
      funext i
      rw [Nat.add_comm i 1]
      exact Mem.bytes_offset cells a 1 i
    have hfirst : cells.bytes a 0 = cells a := by simp [Mem.bytes]
    rw [I2cDevice.supply]
    show (cells a :: (device.supply n ⟨cells, a + 1, e⟩).1,
      (device.supply n ⟨cells, a + 1, e⟩).2) = _
    rw [ih, row_succ, hbytes, hfirst, Nat.add_comm n 1, BitVec.ofNat_add, ← BitVec.add_assoc]
    rfl

end MemSlave

/-! ### Writing and reading back -/

section RoundTrip

open MemSlave

variable {num memSize : Byte} {dev : MemSlave memSize.toNat} {events : List BusEvent}
  {s : SoftI2c (MemSlave memSize.toNat)}

/-- After the START, the device address and the memory address. -/
theorem offer_head {m : ℕ} (addr : Byte) (memAddr : BitVec 32) (dev : MemSlave m) :
    device.offer ((addr &&& 0xFE) :: addressRow memAddr m) (device.start dev) =
      (List.replicate (addressRow memAddr m).length.succ true,
        ⟨dev.cells, memAddr.setWidth (8 * m), some 0⟩) := by
  rw [offer_device, List.foldl_cons]
  show (_, (addressRow memAddr m).foldl write
    ⟨dev.cells, dev.pointer, some (if (addr &&& 0xFE).getLsbD 0 then 0 else m)⟩) = _
  rw [and_fe_read, if_neg Bool.false_ne_true, foldl_pointer]
  rfl

theorem write_memory (hc : Channel s num) (h : Idle (s.bus num) dev events) (addr : Byte)
    (memAddr : BitVec 32) (data : Buf) (size : BitVec 16)
    (hsize : size.toNat ≤ 2 ^ (8 * memSize.toNat)) :
    ∃ b p events', i2cWriteMemory device num addr memAddr memSize data size s =
        (.ok, s.setBus num b) ∧
      Idle b ⟨dev.cells.blit (memAddr.setWidth _) size.toNat data, p, some 0⟩ events' := by
  obtain ⟨b, hcall, hidle⟩ :=
    i2cWriteMemory_idle (D := device) hc h addr memAddr memSize data size rfl
  rw [accepts_device, if_pos rfl] at hcall
  rw [offer_append, if_pos (accepts_device _ _), offer_head, offer_device,
    foldl_data data dev.cells _ hsize] at hidle
  exact ⟨b, _, _, hcall, hidle⟩

theorem read_memory (hc : Channel s num) (h : Idle (s.bus num) dev events) (addr : Byte)
    (memAddr : BitVec 32) (rdata : Buf) {size : BitVec 16} (hsize : size ≠ 0) :
    ∃ b p events', i2cReadMemory device num addr memAddr memSize rdata size s =
        ((.ok, rdata.fill 0 (row (dev.cells.bytes (memAddr.setWidth _)) size.toNat)),
          s.setBus num b) ∧
      Idle b ⟨dev.cells, p, some 0⟩ events' := by
  obtain ⟨b, hcall, hidle⟩ := i2cReadMemory_idle (D := device) hc h addr memAddr memSize rdata hsize
    rfl (offer_head addr memAddr dev) (by simp)
  have hgot : got device addr size.toNat
      (⟨dev.cells, memAddr.setWidth _, some 0⟩ : MemSlave memSize.toNat) =
      (row (dev.cells.bytes (memAddr.setWidth _)) size.toNat,
        ⟨dev.cells, memAddr.setWidth _ + BitVec.ofNat _ size.toNat, some 0⟩) := by
    rw [got, accepts_device, if_pos rfl, offer_device]
    show device.supply size.toNat ⟨dev.cells, memAddr.setWidth _,
      some (if (addr ||| 0x01).getLsbD 0 then 0 else memSize.toNat)⟩ = _
    rw [or_one_read, if_pos rfl, supply_device]
  rw [accepts_device, if_pos rfl, hgot] at hcall
  rw [hgot] at hidle
  exact ⟨b, _, _, hcall, hidle⟩

/-- **The round trip**: with the memory put on an initialised channel after any
run, a write of up to `2 ^ (8 * mem_size)` bytes and a read of as many at the
same address succeed, the read returns what was written, and the memory has
changed there only. -/
theorem memory_round_trip {s₀ s : SoftI2c (MemSlave memSize.toNat)}
    {acts : List (Act (MemSlave memSize.toNat))} (hfresh : ∀ n, s₀.isI2cInit n = false)
    (hrun : exec (step device) s₀ acts = some s) (hinit : s.isI2cInit num = true)
    (dev : MemSlave memSize.toNat) (addr : Byte) (memAddr : BitVec 32) (data rdata : Buf)
    {size : BitVec 16} (hsize : size ≠ 0) (hfit : size.toNat ≤ 2 ^ (8 * memSize.toNat)) :
    let w := i2cWriteMemory device num addr memAddr memSize data size (s.attach num dev)
    let r := i2cReadMemory device num addr memAddr memSize rdata size w.2
    w.1 = .ok ∧ r.1.1 = .ok ∧ (∀ i < size.toNat, r.1.2 i = data i) ∧
      (r.2.bus num).slave.dev.cells = dev.cells.blit (memAddr.setWidth _) size.toNat data := by
  have hinv : Inv s := exec_inv_all step_inv (fun n hn => by simp [hfresh] at hn) hrun
  obtain ⟨hlt, hreleased⟩ := hinv num hinit
  have hidle : Idle ((s.attach num dev).bus num) dev [] := by
    rw [SoftI2c.attach, SoftI2c.setBus_bus]
    exact Released.idle hreleased rfl rfl
  have hc : Channel (s.attach num dev) num := ⟨hlt, hinit⟩
  obtain ⟨b, p, events, hwrite, hidle'⟩ := write_memory hc hidle addr memAddr data size hfit
  have hc' : Channel ((s.attach num dev).setBus num b) num := ⟨hlt, hinit⟩
  rw [← (s.attach num dev).setBus_bus num b] at hidle'
  obtain ⟨b', p', events', hread, hidle''⟩ := read_memory hc' hidle' addr memAddr rdata hsize
  simp only [hwrite, hread, SoftI2c.setBus_bus, hidle''.high.slave, true_and, and_true]
  intro i hi
  have hcell := @Mem.bytes_blit _ dev.cells (memAddr.setWidth _) 0 size.toNat i data (by omega)
    (by omega)
  rw [Buf.blit_in ⟨Nat.zero_le i, by omega⟩, Nat.sub_zero, BitVec.add_zero] at hcell
  rw [Buf.fill_apply, if_neg (Nat.not_lt_zero i), Nat.sub_zero,
    List.getD_eq_getElem _ _ (by simpa [row] using hi)]
  simp [row, hcell]

/-- Three bytes at the end of a memory of 256, going on at its beginning. -/
theorem memory_round_trip_wrap :
    let s₀ : SoftI2c (MemSlave (1 : Byte).toNat) :=
      ⟨fun _ => false, fun _ => ⟨0, 0, 0, 0⟩,
        fun _ => ⟨false, false, true, ⟨.wait, none, true, ⟨fun _ => 0, 0, none⟩⟩, []⟩⟩
    let s := (i2cSoftInit device 2 ⟨1, 2, 3, 2⟩ s₀).2
    let dev : MemSlave (1 : Byte).toNat := ⟨fun _ => 0x11, 0, none⟩
    let data : Buf := fun i => BitVec.ofNat 8 (i + 1)
    let w := i2cWriteMemory device 2 0x12 0xFE 1 data 3 (s.attach 2 dev)
    let r := i2cReadMemory device 2 0x12 0xFE 1 (fun _ => 0) 3 w.2
    w.1 = .ok ∧ r.1.1 = .ok ∧ (∀ i < (3 : BitVec 16).toNat, r.1.2 i = data i) ∧
      (r.2.bus 2).slave.dev.cells =
        dev.cells.blit ((0xFE : BitVec 32).setWidth _) (3 : BitVec 16).toNat data := by
  intro s₀ s dev data
  have hfresh : ∀ n, s₀.isI2cInit n = false := fun _ => rfl
  have hrun : exec (step device) s₀ [.init 2 ⟨1, 2, 3, 2⟩] = some s := rfl
  exact memory_round_trip hfresh hrun rfl dev 0x12 0xFE data (fun _ => 0) (by decide) (by decide)

end RoundTrip

end Stm32Handler.I2c
