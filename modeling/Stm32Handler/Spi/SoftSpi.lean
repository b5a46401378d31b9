import Stm32Handler.Lib.Run
import Stm32Handler.Lib.SpiWire

/-!
# The software SPI

`drv_soft_spi.c`, every channel with the wires its pins drive; the wires are kept
by channel, so two channels are on different pins here. A transfer is a
full-duplex exchange with any slave of the channel's mode, and leaves the wire
as it found it, so transfers follow one another without a seam
(`rw_exchanges`).
-/

namespace Stm32Handler.Spi.Soft

inductive SpiStatus where
  | ok
  | error
  deriving DecidableEq

def softSpiNum : Byte := 6

def spiModeCpolLCpha1 : Byte := 0
def spiModeCpolHCpha1 : Byte := 1
def spiModeCpolLCpha2 : Byte := 3
def spiModeCpolHCpha2 : Byte := 2

/-- `SOFT_SPI_INFO`, with the bytes between `mode` and `sck_pin`. -/
structure SoftSpiInfo where
  mode : Byte
  padding : BitVec 24
  sckPin : BitVec 32
  sckPort : BitVec 32
  mosiPin : BitVec 32
  mosiPort : BitVec 32
  misoPin : BitVec 32
  misoPort : BitVec 32
  deriving DecidableEq

structure SoftSpi where
  isSpiInit : Byte → Bool
  spiList : Byte → SoftSpiInfo
  wire : Byte → SpiWire

def SoftSpi.setWire (s : SoftSpi) (num : Byte) (w : SpiWire) : SoftSpi :=
  { s with wire := Function.update s.wire num w }

@[simp] theorem SoftSpi.setWire_spiList (s : SoftSpi) (num : Byte) (w : SpiWire) :
    (s.setWire num w).spiList = s.spiList := rfl

@[simp] theorem SoftSpi.setWire_wire (s : SoftSpi) (num : Byte) (w : SpiWire) :
    (s.setWire num w).wire num = w := Function.update_self ..

theorem SoftSpi.setWire_wire_ne {s : SoftSpi} {num n : Byte} {w : SpiWire} (h : n ≠ num) :
    (s.setWire num w).wire n = s.wire n := Function.update_of_ne h ..

def spiSoftInit (softSpiNum' : Byte) (info : SoftSpiInfo) (s : SoftSpi) : SpiStatus × SoftSpi :=
  if softSpiNum ≤ softSpiNum' then (.error, s)
  else if s.isSpiInit softSpiNum' then
    (if info ≠ s.spiList softSpiNum' then .error else .ok, s)
  else
    let w := (s.wire softSpiNum').setMosi true
    let w :=
      if info.mode = spiModeCpolHCpha1 ∨ info.mode = spiModeCpolHCpha2 then w.setSck true
      else w.setSck false
    (.ok,
      { isSpiInit := Function.update s.isSpiInit softSpiNum' true
        spiList := Function.update s.spiList softSpiNum' info
        wire := Function.update s.wire softSpiNum' w })

/-- `SPI_MISO_INPUT` -/
def misoInput (w : SpiWire) : Byte := (BitVec.ofBool w.slave.miso).zeroExtend 8

/-- The loop of a phase with `n` bits to go: the clock to `first`, the data
bit, the clock to the other level. -/
def rwBits (first : Bool) : ℕ → Byte → Byte → SpiWire → Byte × SpiWire
  | 0, _, rdata, w => (rdata, w)
  | n + 1, data, rdata, w =>
    let w := w.setSck first
    let w := if data &&& 0x80 ≠ 0 then w.setMosi true else w.setMosi false
    let w := w.setSck !first
    rwBits first n (data <<< 1) (rdata <<< 1 ||| misoInput w) w

def rwPhase (first last : Bool) (data : Byte) (w : SpiWire) : Byte × SpiWire :=
  let (rdata, w) := rwBits first 8 data 0 w
  (rdata, w.setSck last)

/-- `SPI_MODE_CPOL_L_CPHA_1` -/
def spiSoftRwBytePhase0 : Byte → SpiWire → Byte × SpiWire := rwPhase false false

/-- `SPI_MODE_CPOL_L_CPHA_2` -/
def spiSoftRwBytePhase1 : Byte → SpiWire → Byte × SpiWire := rwPhase true false

/-- `SPI_MODE_CPOL_H_CPHA_1` -/
def spiSoftRwBytePhase2 : Byte → SpiWire → Byte × SpiWire := rwPhase true true

/-- `SPI_MODE_CPOL_H_CPHA_2` -/
def spiSoftRwBytePhase3 : Byte → SpiWire → Byte × SpiWire := rwPhase false true

def pfunc (mode : Byte) : Byte → SpiWire → Byte × SpiWire :=
  if mode = spiModeCpolLCpha1 then spiSoftRwBytePhase0
  else if mode = spiModeCpolLCpha2 then spiSoftRwBytePhase1
  else if mode = spiModeCpolHCpha1 then spiSoftRwBytePhase2
  else if mode = spiModeCpolHCpha2 then spiSoftRwBytePhase3
  else spiSoftRwBytePhase0

/-- The loops of `spi_soft_rw_byte` with `n` bytes to go; what the phase
returns is stored if there is a buffer. -/
def rwLoop (f : Byte → SpiWire → Byte × SpiWire) (wdata : Buf) :
    ℕ → ℕ → Option Buf → SpiWire → Option Buf × SpiWire
  | _, 0, rdata, w => (rdata, w)
  | index, n + 1, rdata, w =>
    let (b, w) := f (wdata index) w
    rwLoop f wdata (index + 1) n (rdata.map (Function.update · index b)) w

def spiSoftRwByte (softSpiNum' : Byte) (wdata rdata : Option Buf) (size : Byte) (s : SoftSpi) :
    (SpiStatus × Option Buf) × SoftSpi :=
  if softSpiNum ≤ softSpiNum' then ((.error, rdata), s)
  else if !s.isSpiInit softSpiNum' then ((.error, rdata), s)
  else
    let f := pfunc (s.spiList softSpiNum').mode
    let run (out : Buf) : (SpiStatus × Option Buf) × SoftSpi :=
      let (rdata, w) := rwLoop f out 0 size.toNat rdata (s.wire softSpiNum')
      ((.ok, rdata), s.setWire softSpiNum' w)
    match wdata, rdata with
    | none, none => ((.error, none), s)
    | some wdata, _ => run wdata
    | none, some _ => run fun _ => 0xFF

/-! ### A byte -/

/-- The mode a number in `SOFT_SPI_INFO` stands for; the driver takes every
unknown one for the first. -/
def wireMode (mode : Byte) : SpiMode where
  cpol := mode = spiModeCpolHCpha1 ∨ mode = spiModeCpolHCpha2
  cpha2 := mode = spiModeCpolLCpha2 ∨ mode = spiModeCpolHCpha2

/-- **The four phases** are one, at the levels of the mode. -/
theorem pfunc_eq (mode : Byte) :
    pfunc mode = rwPhase (wireMode mode).first (wireMode mode).cpol := by
  unfold pfunc
  split
  · next h => rw [h]; rfl
  · next h0 =>
    split
    · next h => rw [h]; rfl
    · next h3 =>
      split
      · next h => rw [h]; rfl
      · next h1 =>
        split
        · next h => rw [h]; rfl
        · next h2 => simp [wireMode, SpiMode.first, h1, h2, h3, spiSoftRwBytePhase0]

theorem rwBits_succ (first : Bool) (n : ℕ) (data rdata : Byte) (w : SpiWire) :
    rwBits first (n + 1) data rdata w =
      rwBits first n (data <<< 1) (shiftIn rdata (w.pulse first (data.getLsbD 7)).slave.miso)
        (w.pulse first (data.getLsbD 7)) := by
  rw [rwBits]
  by_cases h : data.getLsbD 7 = true
  · rw [if_pos ((and_top_ne_zero data).2 h), h]
    rfl
  · rw [if_neg (mt (and_top_ne_zero data).1 h), Bool.eq_false_iff.2 h]
    rfl

theorem rwBits_rounds {mode : SpiMode} (n : ℕ) (data rdata : Byte) {w : SpiWire}
    (hmode : w.slave.mode = mode) (hw : w.Between) :
    (rwBits mode.first n data rdata w).1 = (w.rested.outs (topBits n data)).foldl shiftIn rdata ∧
      (rwBits mode.first n data rdata w).2.rested =
        (topBits n data).foldl SpiSlave.round w.rested := by
  induction n generalizing data rdata w with
  | zero => exact ⟨rfl, rfl⟩
  | succ n ih =>
    subst hmode
    obtain ⟨hmiso, hrested, hbetween⟩ := SpiWire.rested_pulse hw (data.getLsbD 7)
    have hmode : (w.pulse w.slave.mode.first (data.getLsbD 7)).slave.mode = w.slave.mode := by
      rw [← SpiWire.rested_mode, hrested, SpiSlave.round_mode, SpiWire.rested_mode]
    obtain ⟨hbyte, hwire⟩ := ih (data <<< 1)
      (shiftIn rdata (w.pulse w.slave.mode.first (data.getLsbD 7)).slave.miso) hmode hbetween
    rw [rwBits_succ]
    refine ⟨?_, ?_⟩
    · rw [hbyte, hrested, hmiso]
      rfl
    · rw [hwire, hrested]
      rfl

/-- **A byte**: the slave gets the master's and the master the slave's. -/
theorem rwPhase_byte {w : SpiWire} {mode : SpiMode} {v : Byte} {tx : List Bool} {rx : List Byte}
    {pulses : ℕ} (hsck : w.sck = mode.cpol)
    (hslave : w.slave.Idle mode (msbBits v ++ tx) rx pulses) (b : Byte) :
    (rwPhase mode.first mode.cpol b w).1 = v ∧
      (rwPhase mode.first mode.cpol b w).2.sck = mode.cpol ∧
      (rwPhase mode.first mode.cpol b w).2.slave.Idle mode tx (rx ++ [b]) (pulses + 8) := by
  have hrest : w.sck = w.slave.mode.cpol := by rw [hsck, hslave.mode_eq]
  obtain ⟨hbyte, hwire⟩ := rwBits_rounds 8 b 0 hslave.mode_eq (fun _ => hrest)
  obtain ⟨houts, hidle⟩ := hslave.byte b
  rw [topBits_eight, SpiWire.rested_of_sck hrest] at hbyte hwire
  rw [houts] at hbyte
  have hmode : (rwBits mode.first 8 b 0 w).2.slave.mode = mode := by
    rw [← SpiWire.rested_mode, hwire]
    exact hidle.mode_eq
  refine ⟨?_, rfl, ?_⟩
  · show (rwBits mode.first 8 b 0 w).1 = v
    rw [hbyte]
    exact bitsToByte_msbBits v
  · show ((rwBits mode.first 8 b 0 w).2.setSck mode.cpol).slave.Idle mode tx (rx ++ [b]) (pulses + 8)
    rw [← hwire, SpiWire.rested, hmode] at hidle
    exact hidle

/-! ### A buffer -/

theorem rwLoop_bytes {mode : SpiMode} (wdata : Buf) {vs : List Byte} {tx : List Bool}
    {rx : List Byte} {pulses : ℕ} {w : SpiWire} (index : ℕ) (rdata : Option Buf)
    (hsck : w.sck = mode.cpol)
    (hslave : w.slave.Idle mode (vs.flatMap msbBits ++ tx) rx pulses) :
    (rwLoop (rwPhase mode.first mode.cpol) wdata index vs.length rdata w).1 =
        rdata.map (·.fill index vs) ∧
      (rwLoop (rwPhase mode.first mode.cpol) wdata index vs.length rdata w).2.sck = mode.cpol ∧
      (rwLoop (rwPhase mode.first mode.cpol) wdata index vs.length rdata w).2.slave.Idle mode tx
        (rx ++ (List.range' index vs.length).map wdata) (pulses + 8 * vs.length) := by
  induction vs generalizing index rdata w rx pulses with
  | nil =>
    refine ⟨?_, hsck, ?_⟩
    · simp [rwLoop, Buf.fill]
    · simpa [rwLoop] using hslave
  | cons v vs ih =>
    rw [List.flatMap_cons, List.append_assoc] at hslave
    obtain ⟨hbyte, hsck', hidle⟩ := rwPhase_byte hsck hslave (wdata index)
    obtain ⟨hbuf, hsck'', hidle'⟩ := ih (index + 1)
      (rdata.map (Function.update · index (rwPhase mode.first mode.cpol (wdata index) w).1))
      hsck' hidle
    refine ⟨?_, hsck'', ?_⟩
    · show (rwLoop (rwPhase mode.first mode.cpol) wdata (index + 1) vs.length
        (rdata.map (Function.update · index (rwPhase mode.first mode.cpol (wdata index) w).1))
        (rwPhase mode.first mode.cpol (wdata index) w).2).1 = _
      rw [hbuf, hbyte, Option.map_map]
      rfl
    · rw [List.append_assoc, List.singleton_append] at hidle'
      rw [show pulses + 8 * (v :: vs).length = pulses + 8 + 8 * vs.length by
        rw [List.length_cons]; omega]
      exact hidle'

/-! ### Runs -/

inductive Act where
  | init (num : Byte) (info : SoftSpiInfo)
  | rw (num : Byte) (wdata rdata : Option Buf) (size : Byte)
  /-- another device is put on the wires -/
  | select (num : Byte) (slave : SpiSlave)

def step (s : SoftSpi) : Act → Option SoftSpi
  | .init num info => some (spiSoftInit num info s).2
  | .rw num wdata rdata size => some (spiSoftRwByte num wdata rdata size s).2
  | .select num slave => some (s.setWire num { s.wire num with slave })

/-- What `spi_soft_init` sets up and every transfer leaves. -/
structure Channel (s : SoftSpi) (num : Byte) : Prop where
  num_lt : num < softSpiNum
  sck_idle : (s.wire num).sck = (wireMode (s.spiList num).mode).cpol

def Inv (s : SoftSpi) : Prop := ∀ num, s.isSpiInit num = true → Channel s num

theorem spiSoftInit_inv (num : Byte) (info : SoftSpiInfo) {s : SoftSpi} (hs : Inv s) :
    Inv (spiSoftInit num info s).2 := by
  unfold spiSoftInit
  split
  · exact hs
  · next hnum =>
    split
    · exact hs
    · intro n hn
      by_cases h : n = num
      · subst h
        refine ⟨BitVec.not_le.1 hnum, ?_⟩
        simp only [Function.update_self, wireMode]
        split <;> simp [*]
      · simp only [Function.update_of_ne h] at hn
        obtain ⟨hlt, hsck⟩ := hs n hn
        exact ⟨hlt, by simpa only [Function.update_of_ne h] using hsck⟩

theorem rwLoop_sck {first last : Bool} (wdata : Buf) (n index : ℕ) (rdata : Option Buf) {w : SpiWire}
    (h : w.sck = last) : (rwLoop (rwPhase first last) wdata index n rdata w).2.sck = last := by
  induction n generalizing index rdata w with
  | zero => exact h
  | succ n ih => exact ih _ _ rfl

/-- A transfer is refused, or it is the loop on the channel's wire. -/
theorem spiSoftRwByte_cases (num : Byte) (wdata rdata : Option Buf) (size : Byte) (s : SoftSpi) :
    spiSoftRwByte num wdata rdata size s = ((.error, rdata), s) ∨
      s.isSpiInit num = true ∧ ∃ out,
        spiSoftRwByte num wdata rdata size s =
          let m := wireMode (s.spiList num).mode
          let r := rwLoop (rwPhase m.first m.cpol) out 0 size.toNat rdata (s.wire num)
          ((.ok, r.1), s.setWire num r.2) := by
  unfold spiSoftRwByte
  split
  · exact .inl rfl
  · split
    · exact .inl rfl
    · next hinit =>
      rw [pfunc_eq]
      split
      · exact .inl rfl
      · next out => exact .inr ⟨by simpa using hinit, out, rfl⟩
      · exact .inr ⟨by simpa using hinit, fun _ => 0xFF, rfl⟩

/-- A channel may change its wire as long as its clock ends at the idle level. -/
theorem Inv.setWire {s : SoftSpi} (hs : Inv s) {num : Byte} {w : SpiWire}
    (h : (s.wire num).sck = (wireMode (s.spiList num).mode).cpol →
      w.sck = (wireMode (s.spiList num).mode).cpol) : Inv (s.setWire num w) := by
  intro n hn
  obtain ⟨hlt, hsck⟩ := hs n hn
  refine ⟨hlt, ?_⟩
  by_cases hnum : n = num
  · subst hnum
    rw [SoftSpi.setWire_wire]
    exact h hsck
  · rwa [SoftSpi.setWire_wire_ne hnum]

theorem spiSoftRwByte_inv (num : Byte) (wdata rdata : Option Buf) (size : Byte) {s : SoftSpi}
    (hs : Inv s) : Inv (spiSoftRwByte num wdata rdata size s).2 := by
  rcases spiSoftRwByte_cases num wdata rdata size s with h | ⟨hinit, out, h⟩
  · rw [h]
    exact hs
  · rw [h]
    exact hs.setWire fun hsck => rwLoop_sck out _ _ _ hsck

theorem step_inv (s : SoftSpi) (a : Act) (s' : SoftSpi) (hs : Inv s) (h : step s a = some s') :
    Inv s' := by
  cases a with
  | init num info =>
    cases h
    exact spiSoftInit_inv num info hs
  | rw num wdata rdata size =>
    cases h
    exact spiSoftRwByte_inv num wdata rdata size hs
  | select num slave =>
    cases h
    exact hs.setWire id

/-! ### Transfers one after the other -/

/-- The arguments of one call, and the bytes the slave has for it. -/
structure Transfer where
  wdata : Option Buf
  rdata : Option Buf
  size : Byte
  bytes : List Byte
  has_buffer : wdata.isSome ∨ rdata.isSome
  bytes_length : bytes.length = size.toNat

namespace Transfer

/-- What the slave is to receive. -/
def sent (t : Transfer) : List Byte :=
  (List.range t.size.toNat).map (t.wdata.getD fun _ => 0xFF)

/-- What the caller is to find in `rdata`. -/
def received (t : Transfer) : Option Buf := t.rdata.map fun r i => t.bytes.getD i (r i)

end Transfer

def rwAll (num : Byte) : List Transfer → SoftSpi → List (SpiStatus × Option Buf) × SoftSpi
  | [], s => ([], s)
  | t :: ts, s =>
    let (r, s) := spiSoftRwByte num t.wdata t.rdata t.size s
    let (rs, s) := rwAll num ts s
    (r :: rs, s)

theorem spiSoftRwByte_transfer {s : SoftSpi} {num : Byte} (t : Transfer) (hc : Channel s num)
    (hinit : s.isSpiInit num = true) :
    spiSoftRwByte num t.wdata t.rdata t.size s =
      let m := wireMode (s.spiList num).mode
      let r := rwLoop (rwPhase m.first m.cpol) (t.wdata.getD fun _ => 0xFF) 0 t.bytes.length t.rdata
        (s.wire num)
      ((.ok, r.1), s.setWire num r.2) := by
  unfold spiSoftRwByte
  rw [if_neg (BitVec.not_le.2 hc.num_lt), if_neg (by simp [hinit]), pfunc_eq, t.bytes_length]
  have hbuffer := t.has_buffer
  split
  · next hw hr => simp [hw, hr] at hbuffer
  · next hw =>
    rw [hw]
    rfl
  · next hw hr =>
    rw [hw, hr]
    rfl

theorem Transfer.sent_eq (t : Transfer) :
    (List.range' 0 t.bytes.length).map (t.wdata.getD fun _ => 0xFF) = t.sent := by
  rw [sent, List.range_eq_range', t.bytes_length]

theorem Transfer.fill_bytes (t : Transfer) : t.rdata.map (·.fill 0 t.bytes) = t.received := by
  unfold received
  congr 1
  funext r i
  rw [Buf.fill_apply, if_neg (Nat.not_lt_zero i), Nat.sub_zero]

theorem rwAll_transfers {mode : SpiMode} {num : Byte} (ts : List Transfer) {rest : List Bool}
    {rx : List Byte} {pulses : ℕ} {s : SoftSpi} (hc : Channel s num)
    (hinit : s.isSpiInit num = true) (hmode : wireMode (s.spiList num).mode = mode)
    (hslave : (s.wire num).slave.Idle mode
      (ts.flatMap (fun t => t.bytes.flatMap msbBits) ++ rest) rx pulses) :
    (rwAll num ts s).1 = ts.map (fun t => (.ok, t.received)) ∧
      ((rwAll num ts s).2.wire num).sck = mode.cpol ∧
      ((rwAll num ts s).2.wire num).slave.Idle mode rest (rx ++ ts.flatMap Transfer.sent)
        (pulses + 8 * (ts.map fun t => t.size.toNat).sum) := by
  induction ts generalizing s rx pulses with
  | nil =>
    refine ⟨rfl, hmode ▸ hc.sck_idle, ?_⟩
    simpa [rwAll] using hslave
  | cons t ts ih =>
    rw [List.flatMap_cons, List.append_assoc] at hslave
    have hsck : (s.wire num).sck = mode.cpol := hmode ▸ hc.sck_idle
    obtain ⟨hbuf, hsck', hidle⟩ := rwLoop_bytes (t.wdata.getD fun _ => 0xFF) 0 t.rdata hsck hslave
    have hcall := spiSoftRwByte_transfer t hc hinit
    rw [hmode] at hcall
    simp only [rwAll, hcall]
    generalize rwLoop (rwPhase mode.first mode.cpol) (t.wdata.getD fun _ => 0xFF) 0 t.bytes.length
      t.rdata (s.wire num) = r at hbuf hsck' hidle ⊢
    have hc' : Channel (s.setWire num r.2) num :=
      ⟨hc.num_lt, by rw [SoftSpi.setWire_wire, SoftSpi.setWire_spiList, hmode, hsck']⟩
    obtain ⟨hres, hsck'', hidle'⟩ := ih hc' hinit hmode (by rwa [SoftSpi.setWire_wire])
    refine ⟨?_, hsck'', ?_⟩
    · rw [hres, hbuf, t.fill_bytes]
      rfl
    · rw [List.append_assoc, t.sent_eq] at hidle'
      rw [List.flatMap_cons, List.map_cons, List.sum_cons, Nat.mul_add, ← Nat.add_assoc, ← t.bytes_length]
      exact hidle'

/-- **The exchange**: after any run of inits, transfers and changes of device,
transfers over a channel that is set up, with a slave of the channel's mode at
rest, give the slave exactly the bytes sent and the callers exactly the slave's,
in eight pulses a byte, and leave the clock and the slave at rest again. -/
theorem rw_exchanges {s₀ s : SoftSpi} {acts : List Act} (hfresh : ∀ n, s₀.isSpiInit n = false)
    (hrun : exec step s₀ acts = some s) {num : Byte} (hinit : s.isSpiInit num = true)
    (ts : List Transfer) {rest : List Bool} {rx : List Byte} {pulses : ℕ}
    (hslave : (s.wire num).slave.Idle (wireMode (s.spiList num).mode)
      (ts.flatMap (fun t => t.bytes.flatMap msbBits) ++ rest) rx pulses) :
    (rwAll num ts s).1 = ts.map (fun t => (.ok, t.received)) ∧
      ((rwAll num ts s).2.wire num).sck = (wireMode (s.spiList num).mode).cpol ∧
      ((rwAll num ts s).2.wire num).slave.Idle (wireMode (s.spiList num).mode) rest
        (rx ++ ts.flatMap Transfer.sent) (pulses + 8 * (ts.map fun t => t.size.toNat).sum) := by
  have hinv : Inv s := exec_inv_all step_inv (fun n hn => by simp [hfresh] at hn) hrun
  exact rwAll_transfers ts (hinv num hinit) hinit rfl hslave

/-- A channel of the second clock phase, a transfer both ways and one that only
reads. -/
theorem rw_exchanges_read_on :
    let info : SoftSpiInfo := ⟨spiModeCpolLCpha2, 0, 1, 2, 3, 4, 5, 6⟩
    let slave : SpiSlave :=
      ⟨⟨false, true⟩, msbBits 0x12 ++ (msbBits 0x34 ++ msbBits 0x56), true, [], [], 0⟩
    let w : SpiWire := ⟨true, false, { slave with pulses := 7 }⟩
    let s₀ : SoftSpi := ⟨fun _ => false, fun _ => ⟨0, 0, 0, 0, 0, 0, 0, 0⟩, fun _ => w⟩
    let s := (spiSoftInit 5 info s₀).2.setWire 5 ⟨false, true, slave⟩
    let ts : List Transfer :=
      [⟨some fun _ => 0xA5, some fun _ => 0, 1, [0x12], .inl rfl, rfl⟩,
        ⟨none, some fun _ => 0, 2, [0x34, 0x56], .inr rfl, rfl⟩]
    ((rwAll 5 ts s).2.wire 5).slave.Idle ⟨false, true⟩ [] [0xA5, 0xFF, 0xFF] 24 := by
  intro info slave w s₀ s ts
  have hfresh : ∀ n, s₀.isSpiInit n = false := fun _ => rfl
  have hrun : exec step s₀ [.init 5 info, .select 5 slave] = some s := rfl
  have hready : slave.Ready (ts.flatMap (fun t => t.bytes.flatMap msbBits) ++ []) := by
    rw [SpiSlave.Ready, if_pos rfl]
    rfl
  have hslave : (s.wire 5).slave.Idle (wireMode (s.spiList 5).mode)
      (ts.flatMap (fun t => t.bytes.flatMap msbBits) ++ []) [] 0 := ⟨rfl, hready, rfl, rfl, rfl⟩
  exact (rw_exchanges hfresh hrun rfl ts hslave).2.2

end Stm32Handler.Spi.Soft
