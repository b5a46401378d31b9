import Stm32Handler.Lib.Run
import Stm32Handler.Lib.Simulate
import Stm32Handler.Spi.SoftSpi
import Stm32Handler.Spi.W25q

/-!
# The W25Q driver over the software SPI

`drv_spi.c` in its third variant: `spi_rw_byte` shifts its byte through the pins
of `SOFT_SPI5`, bit by bit. The chip sits behind a shift register: it takes a
byte in after eight pulses, has its next one ready then, and starts anew when
its select line changes. A software channel on other pins does not reach any of
this; one on a pin of the flash may leave anything.

Functions that only use a `WqBus` simulate one another over buses that do
(`BusSim`); the software bus simulates the bus of `Spi.W25q` on which every
exchange succeeds (`softBus_sim`).
-/

namespace Stm32Handler.Spi

/-! ## Any two buses -/

section Buses

variable {σ τ : Type}

structure BusSim (abs : σ → τ) (I : σ → Prop) (bus : WqBus (StateM σ)) (bus' : WqBus (StateM τ)) : Prop where
  csOn : Simulates abs I bus.csOn bus'.csOn
  csOff : Simulates abs I bus.csOff bus'.csOff
  spiRwByte : ∀ b, Simulates abs I (bus.spiRwByte b) (bus'.spiRwByte b)

namespace BusSim

variable {abs : σ → τ} {I : σ → Prop} {bus : WqBus (StateM σ)} {bus' : WqBus (StateM τ)}

theorem wqReadStatus (h : BusSim abs I bus bus') : Simulates abs I bus.wqReadStatus bus'.wqReadStatus := by
  unfold WqBus.wqReadStatus
  refine h.csOn.bind fun _ => (h.spiRwByte _).bind fun _ => (h.spiRwByte _).bind fun _ => ?_
  exact h.csOff.bind fun _ => .pure _

theorem wqWaitLoop (h : BusSim abs I bus bus') (n : ℕ) :
    Simulates abs I (bus.wqWaitLoop n) (bus'.wqWaitLoop n) := by
  induction n with
  | zero => exact .pure _
  | succ n ih =>
    unfold WqBus.wqWaitLoop
    exact h.wqReadStatus.bind fun _ => .ite (.pure _) ih

theorem wqWaitBusy (h : BusSim abs I bus bus') (mode : Byte) :
    Simulates abs I (bus.wqWaitBusy mode) (bus'.wqWaitBusy mode) := h.wqWaitLoop _

theorem wqWriteEnable (h : BusSim abs I bus bus') : Simulates abs I bus.wqWriteEnable bus'.wqWriteEnable := by
  unfold WqBus.wqWriteEnable
  exact h.csOn.bind fun _ => (h.spiRwByte _).bind fun _ => h.csOff

theorem spiSend (h : BusSim abs I bus bus') (bs : List Byte) :
    Simulates abs I (bus.spiSend bs) (bus'.spiSend bs) := by
  induction bs with
  | nil => exact .pure _
  | cons b bs ih =>
    unfold WqBus.spiSend
    exact (h.spiRwByte b).bind fun _ => ih

theorem spiReceive (h : BusSim abs I bus bus') (n : ℕ) :
    Simulates abs I (bus.spiReceive n) (bus'.spiReceive n) := by
  induction n with
  | zero => exact .pure _
  | succ n ih =>
    unfold WqBus.spiReceive
    exact (h.spiRwByte _).bind fun _ => ih.bind fun _ => .pure _

/-- The end of the operations that change the chip. -/
theorem finish (h : BusSim abs I bus bus') (mode : Byte) (status : Bool) :
    Simulates abs I
      (do
        bus.csOff
        if (← bus.wqWaitBusy mode) ≠ .ok then return WqOpStatus.timeoutErr
        if !status then return .comErr
        return .ok)
      (do
        bus'.csOff
        if (← bus'.wqWaitBusy mode) ≠ .ok then return WqOpStatus.timeoutErr
        if !status then return .comErr
        return .ok) :=
  h.csOff.bind fun _ => (h.wqWaitBusy mode).bind fun _ => .ite (.pure _) (.ite (.pure _) (.pure _))

theorem wqErase (h : BusSim abs I bus bus') (id : BitVec 32) (instruct : Byte) (size : BitVec 32) (mode : Byte)
    (addr : BitVec 32) :
    Simulates abs I (bus.wqErase id instruct size mode addr) (bus'.wqErase id instruct size mode addr) := by
  unfold WqBus.wqErase
  apply Simulates.ite
  · exact .pure _
  · refine h.wqWriteEnable.bind fun _ => (h.wqWaitBusy 0).bind fun _ => .ite (.pure _) ?_
    apply h.csOn.bind
    intro _
    apply (h.spiRwByte instruct).bind
    rintro ⟨-, status⟩
    exact .ite ((h.spiSend _).bind fun _ => h.finish mode status) (h.finish mode status)

theorem wqChipErase (h : BusSim abs I bus bus') (id : BitVec 32) :
    Simulates abs I (bus.wqChipErase id) (bus'.wqChipErase id) := by
  unfold WqBus.wqChipErase
  apply Simulates.ite
  · exact .pure _
  · refine h.wqWriteEnable.bind fun _ => (h.wqWaitBusy 0).bind fun _ => .ite (.pure _) ?_
    apply h.csOn.bind
    intro _
    apply (h.spiRwByte w25xChipErase).bind
    rintro ⟨-, status⟩
    exact h.finish 1 status

theorem wqMemoryRead (h : BusSim abs I bus bus') (id addr : BitVec 32) (num : ℕ) :
    Simulates abs I (bus.wqMemoryRead id addr num) (bus'.wqMemoryRead id addr num) := by
  have hend : ∀ (status : Bool) (pbuffer : List Byte), Simulates abs I
      (do
        bus.csOff
        if !status then return (WqOpStatus.comErr, pbuffer)
        return (.ok, pbuffer))
      (do
        bus'.csOff
        if !status then return (WqOpStatus.comErr, pbuffer)
        return (.ok, pbuffer)) :=
    fun status pbuffer => h.csOff.bind fun _ => .ite (.pure _) (.pure _)
  unfold WqBus.wqMemoryRead
  apply Simulates.ite
  · exact .pure _
  · apply h.csOn.bind
    intro _
    apply (h.spiRwByte w25xInstruRead).bind
    rintro ⟨-, status⟩
    refine .ite (((h.spiSend _).bind fun _ => h.spiReceive num).bind (hend status)) ?_
    exact (Simulates.pure _).bind (hend status)

theorem wqMemoryWrite (h : BusSim abs I bus bus') (id addr : BitVec 32) (pbuffer : List Byte) :
    Simulates abs I (bus.wqMemoryWrite id addr pbuffer) (bus'.wqMemoryWrite id addr pbuffer) := by
  unfold WqBus.wqMemoryWrite
  apply Simulates.ite
  · exact .pure _
  · refine (h.wqWaitBusy 0).bind fun _ => .ite (.pure _) (h.wqWriteEnable.bind fun _ => ?_)
    apply h.csOn.bind
    intro _
    apply (h.spiRwByte w25xPageProgram).bind
    rintro ⟨-, status⟩
    refine .ite ((h.spiSend _).bind fun _ => (h.spiSend _).bind fun _ => h.finish 0 status) ?_
    exact h.finish 0 status

end BusSim

end Buses

/-- A call of the driver. -/
inductive WqRequest where
  | wqSectorErase (addr : BitVec 32)
  | wqBlockErase (addr : BitVec 32)
  | wqChipErase
  | wqMemoryRead (addr : BitVec 32) (num : ℕ)
  | wqMemoryWrite (addr : BitVec 32) (pbuffer : List Byte)
  deriving DecidableEq

/-- What it returns, and the bytes it has read. -/
abbrev WqReply := WqOpStatus × List Byte

namespace WqBus

variable {m : Type → Type} [Monad m] (bus : WqBus m)

def call (id : BitVec 32) : WqRequest → m WqReply
  | .wqSectorErase addr => do return (← bus.wqSectorErase id addr, [])
  | .wqBlockErase addr => do return (← bus.wqBlockErase id addr, [])
  | .wqChipErase => do return (← bus.wqChipErase id, [])
  | .wqMemoryRead addr num => bus.wqMemoryRead id addr num
  | .wqMemoryWrite addr pbuffer => do return (← bus.wqMemoryWrite id addr pbuffer, [])

def calls (id : BitVec 32) : List WqRequest → m (List WqReply)
  | [] => return []
  | c :: cs => do
    let r ← bus.call id c
    let rs ← calls id cs
    return r :: rs

end WqBus

theorem BusSim.call {σ τ : Type} {abs : σ → τ} {I : σ → Prop} {bus : WqBus (StateM σ)} {bus' : WqBus (StateM τ)}
    (h : BusSim abs I bus bus') (id : BitVec 32) (c : WqRequest) :
    Simulates abs I (bus.call id c) (bus'.call id c) := by
  cases c with
  | wqSectorErase addr => exact (h.wqErase id _ _ _ addr).bind fun _ => .pure _
  | wqBlockErase addr => exact (h.wqErase id _ _ _ addr).bind fun _ => .pure _
  | wqChipErase => exact (h.wqChipErase id).bind fun _ => .pure _
  | wqMemoryRead addr num => exact h.wqMemoryRead id addr num
  | wqMemoryWrite addr pbuffer => exact (h.wqMemoryWrite id addr pbuffer).bind fun _ => .pure _

/-! ## The pins -/

def softSpi5 : Byte := 4

def gpiof : BitVec 32 := 0x40021400

/-- `spi_info` in `spi_driver_init` -/
def spiInfo : Soft.SoftSpiInfo where
  mode := Soft.spiModeCpolHCpha2
  padding := 0
  sckPin := 0x0080
  sckPort := gpiof
  mosiPin := 0x0200
  mosiPort := gpiof
  misoPin := 0x0100
  misoPort := gpiof

/-- A port and the bits of some of its pins. -/
abbrev Pin := BitVec 32 × BitVec 32

def Apart (ps qs : List Pin) : Prop := ∀ p ∈ ps, ∀ q ∈ qs, p.1 = q.1 → p.2 &&& q.2 = 0

instance (ps qs : List Pin) : Decidable (Apart ps qs) :=
  decidable_of_iff (ps.all (fun p => qs.all fun q => decide (p.1 = q.1 → p.2 &&& q.2 = 0)) = true)
    (by simp only [List.all_eq_true, decide_eq_true_eq]; rfl)

def Soft.SoftSpiInfo.pins (info : Soft.SoftSpiInfo) : List Pin :=
  [(info.sckPort, info.sckPin), (info.mosiPort, info.mosiPin), (info.misoPort, info.misoPin)]

/-- The flash: the pins of its channel, and the one of `WQ25_CS_ON`. -/
def wqPins : List Pin := (gpiof, 0x0040) :: spiInfo.pins

/-- The software channels, and the chip behind the pins of `SOFT_SPI5`. -/
structure SoftBus where
  spi : Soft.SoftSpi
  chip : NorChip

abbrev SoftWqM := StateM SoftBus

section SoftBus

variable (g : NorGeometry)

/-- The chip changes, and has its next byte ready for the master. -/
def SoftBus.latch (f : NorChip → NorChip) (s : SoftBus) : SoftBus :=
  let w := s.spi.wire softSpi5
  let chip := f s.chip
  { spi := s.spi.setWire softSpi5 { w with slave := w.slave.load (msbBits (chip.exchange g 0).1) }, chip }

/-- The chip takes in what has come. -/
def SoftBus.byteDone (s : SoftBus) : SoftBus :=
  s.latch g fun chip => (s.spi.wire softSpi5).slave.rx.foldl (fun c b => (c.exchange g b).2) chip

/-- `WQ25_CS_ON` -/
def softCsOn : SoftWqM Unit := modify (SoftBus.latch g NorChip.select)

/-- `WQ25_CS_OFF` -/
def softCsOff : SoftWqM Unit := modify (SoftBus.latch g (NorChip.deselect g))

/-- `spi_driver_init`, `true` for `pdPASS`; the select line goes up at the end. -/
def spiDriverInit (s : SoftBus) : Bool × SoftBus :=
  match Soft.spiSoftInit softSpi5 spiInfo s.spi with
  | (.ok, spi) => (true, { s with spi }.latch g (NorChip.deselect g))
  | (.error, spi) => (false, { s with spi })

/-- `spi_rw_byte` -/
def softRwByte (data : Byte) : SoftWqM (Byte × Bool) :=
  modifyGet fun s =>
    let ((spiStatus, rdata), spi) :=
      Soft.spiSoftRwByte softSpi5 (some fun _ => data) (some fun _ => 0xFF) 1 s.spi
    (((rdata.getD fun _ => 0xFF) 0, spiStatus = .ok), { s with spi }.byteDone g)

def softBus : WqBus SoftWqM where
  csOn := softCsOn g
  csOff := softCsOff g
  spiRwByte := softRwByte g

/-- The other channels that are set up have other pins than the flash. -/
def PinsApart (s : Soft.SoftSpi) : Prop :=
  ∀ n, n ≠ softSpi5 → s.isSpiInit n = true → Apart (s.spiList n).pins wqPins

/-- The channel is set up and has its pins to itself, its clock is idle, and the
chip is ready for a byte. -/
structure Wired (s : SoftBus) : Prop where
  isInit : s.spi.isSpiInit softSpi5 = true
  info : s.spi.spiList softSpi5 = spiInfo
  apart : PinsApart s.spi
  sck : (s.spi.wire softSpi5).sck = true
  slave : ∃ pulses, (s.spi.wire softSpi5).slave.Idle ⟨true, true⟩ (msbBits (s.chip.exchange g 0).1) [] pulses

variable {g}

/-- What the chip sends does not depend on what it gets meanwhile. -/
theorem exchange_fst (c : NorChip) (b : Byte) : (c.exchange g b).1 = (c.exchange g 0).1 := by
  unfold NorChip.exchange
  cases c.frame <;> rfl

theorem latch_wired {s : SoftBus} (hinit : s.spi.isSpiInit softSpi5 = true)
    (hinfo : s.spi.spiList softSpi5 = spiInfo) (hapart : PinsApart s.spi)
    (hsck : (s.spi.wire softSpi5).sck = true)
    (hmode : (s.spi.wire softSpi5).slave.mode = ⟨true, true⟩) (f : NorChip → NorChip) :
    Wired g (s.latch g f) := by
  refine ⟨hinit, hinfo, hapart, ?_, (s.spi.wire softSpi5).slave.pulses, ?_⟩
  · unfold SoftBus.latch
    rw [Soft.SoftSpi.setWire_wire]
    exact hsck
  · unfold SoftBus.latch
    rw [Soft.SoftSpi.setWire_wire, ← hmode]
    exact SpiSlave.load_idle ..

theorem Wired.latch {s : SoftBus} (h : Wired g s) (f : NorChip → NorChip) : Wired g (s.latch g f) := by
  obtain ⟨pulses, hidle⟩ := h.slave
  exact latch_wired h.isInit h.info h.apart h.sck hidle.mode_eq f

/-- **`spi_rw_byte`** over the pins is one exchange with the chip. -/
theorem softRwByte_exchange {s : SoftBus} (h : Wired g s) (data : Byte) :
    ∃ s', (softRwByte g data).run s = (((s.chip.exchange g data).1, true), s') ∧
      s'.chip = (s.chip.exchange g data).2 ∧ Wired g s' := by
  obtain ⟨pulses, hidle⟩ := h.slave
  have hmode : Soft.wireMode (s.spi.spiList softSpi5).mode = ⟨true, true⟩ := by
    rw [h.info]
    rfl
  have hchannel : Soft.Channel s.spi softSpi5 := ⟨by decide, by rw [hmode, h.sck]⟩
  -- the chip's byte is the whole transfer
  let t : Soft.Transfer :=
    ⟨some fun _ => data, some fun _ => 0xFF, 1, [(s.chip.exchange g 0).1], .inl rfl, rfl⟩
  have hcall : Soft.spiSoftRwByte softSpi5 (some fun _ => data) (some fun _ => 0xFF) 1 s.spi = _ :=
    Soft.spiSoftRwByte_transfer t hchannel h.isInit
  have hidle' : (s.spi.wire softSpi5).slave.Idle ⟨true, true⟩ (t.bytes.flatMap msbBits ++ []) [] pulses := by
    rw [List.append_nil]
    exact hidle
  obtain ⟨hbuf, hsck, hdone⟩ := Soft.rwLoop_bytes (t.wdata.getD fun _ => 0xFF) 0 t.rdata h.sck hidle'
  rw [hmode] at hcall
  dsimp only at hcall
  generalize Soft.rwLoop (Soft.rwPhase (SpiMode.first ⟨true, true⟩) true) (t.wdata.getD fun _ => 0xFF) 0
    t.bytes.length t.rdata (s.spi.wire softSpi5) = r at hcall hbuf hsck hdone
  have hrx : r.2.slave.rx = [data] := hdone.rx_eq
  have hread : (r.1.getD fun _ => 0xFF) 0 = (s.chip.exchange g data).1 := by
    rw [hbuf, exchange_fst]
    rfl
  refine ⟨({ s with spi := s.spi.setWire softSpi5 r.2 } : SoftBus).byteDone g, ?_, ?_, ?_⟩
  · rw [← hread]
    show (((Soft.spiSoftRwByte softSpi5 (some fun _ => data) (some fun _ => 0xFF) 1 s.spi).1.2.getD
        (fun _ => 0xFF) 0,
      decide ((Soft.spiSoftRwByte softSpi5 (some fun _ => data) (some fun _ => 0xFF) 1 s.spi).1.1 = .ok)),
      SoftBus.byteDone g { s with
        spi := (Soft.spiSoftRwByte softSpi5 (some fun _ => data) (some fun _ => 0xFF) 1 s.spi).2 }) = _
    rw [hcall]
    rfl
  · unfold SoftBus.byteDone SoftBus.latch
    simp only [Soft.SoftSpi.setWire_wire, hrx]
    rfl
  · refine @latch_wired g { s with spi := s.spi.setWire softSpi5 r.2 } h.isInit h.info h.apart ?_ ?_ _
    · show ((s.spi.setWire softSpi5 r.2).wire softSpi5).sck = true
      rw [Soft.SoftSpi.setWire_wire, hsck]
    · show ((s.spi.setWire softSpi5 r.2).wire softSpi5).slave.mode = _
      rw [Soft.SoftSpi.setWire_wire, hdone.mode_eq]

/-- The bus of `Spi.W25q` with the chip, on which no exchange fails. -/
def SoftBus.abs (s : SoftBus) : SpiBus := ⟨s.chip, []⟩

/-- **The software bus simulates the bus of bytes.** -/
theorem softBus_sim : BusSim SoftBus.abs (Wired g) (softBus g) (chipBus g) where
  csOn := .modify fun _ h => ⟨rfl, h.latch _⟩
  csOff := .modify fun _ h => ⟨rfl, h.latch _⟩
  spiRwByte := fun b s h => by
    obtain ⟨s', hcall, hchip, hwired⟩ := softRwByte_exchange h b
    have hrun : ((softBus g).spiRwByte b).run s = (((s.chip.exchange g b).1, true), s') := hcall
    rw [hrun]
    refine ⟨rfl, ?_, hwired⟩
    show (⟨s'.chip, []⟩ : SpiBus) = ⟨(s.chip.exchange g b).2, []⟩
    rw [hchip]

end SoftBus

/-! ## Runs -/

namespace Soft

/-- The channel an act is about. -/
def Act.num : Act → Byte
  | .init num _ => num
  | .rw num _ _ _ => num
  | .select num _ => num

/-- The channels do not touch one another. -/
theorem step_other (s : SoftSpi) (a : Act) {n : Byte} (h : a.num ≠ n) :
    ∃ s', step s a = some s' ∧ s'.isSpiInit n = s.isSpiInit n ∧ s'.spiList n = s.spiList n ∧
      s'.wire n = s.wire n := by
  cases a with
  | init num info =>
    refine ⟨_, rfl, ?_⟩
    unfold spiSoftInit
    split
    · exact ⟨rfl, rfl, rfl⟩
    · split
      · exact ⟨rfl, rfl, rfl⟩
      · exact ⟨Function.update_of_ne h.symm .., Function.update_of_ne h.symm .., Function.update_of_ne h.symm ..⟩
  | rw num wdata rdata size =>
    refine ⟨_, rfl, ?_⟩
    rcases spiSoftRwByte_cases num wdata rdata size s with hcall | ⟨-, out, hcall⟩
    · rw [hcall]
      exact ⟨rfl, rfl, rfl⟩
    · rw [hcall]
      exact ⟨rfl, rfl, SoftSpi.setWire_wire_ne h.symm⟩
  | select num slave => exact ⟨_, rfl, rfl, rfl, SoftSpi.setWire_wire_ne h.symm⟩

def SoftSpi.pins (s : SoftSpi) (num : Byte) : List Pin := if s.isSpiInit num then (s.spiList num).pins else []

/-- The pins an act reaches. -/
def Act.pins (s : SoftSpi) : Act → List Pin
  | .init num info => if softSpiNum ≤ num ∨ s.isSpiInit num then [] else info.pins
  | .rw num _ _ _ => s.pins num
  | .select num _ => s.pins num

/-- An act on another channel, set up on other pins than the flash if at all. -/
structure Act.Elsewhere (a : Act) : Prop where
  num_ne : a.num ≠ softSpi5
  apart : ∀ num info, a = .init num info → Apart info.pins wqPins

theorem SoftSpi.pins_apart {s : SoftSpi} (hs : PinsApart s) {num : Byte} (h : num ≠ softSpi5) :
    Apart (s.pins num) wqPins := by
  unfold SoftSpi.pins
  split
  · next hinit => exact hs num h hinit
  · exact fun p hp => absurd hp List.not_mem_nil

theorem Act.Elsewhere.pins {s : SoftSpi} (hs : PinsApart s) {a : Act} (h : a.Elsewhere) :
    Apart (a.pins s) wqPins := by
  cases a with
  | init num info =>
    rw [Act.pins]
    split
    · exact fun p hp => absurd hp List.not_mem_nil
    · exact h.apart num info rfl
  | rw num wdata rdata size => exact SoftSpi.pins_apart hs h.num_ne
  | select num slave => exact SoftSpi.pins_apart hs h.num_ne

theorem Act.Elsewhere.step {s s' : SoftSpi} (hs : PinsApart s) {a : Act} (h : a.Elsewhere)
    (hstep : step s a = some s') : PinsApart s' := by
  cases a with
  | init num info =>
    cases hstep
    unfold spiSoftInit
    split
    · exact hs
    · split
      · exact hs
      · intro n hn hinit
        by_cases hnum : n = num
        · subst hnum
          simpa only [Function.update_self] using h.apart n info rfl
        · simp only [Function.update_of_ne hnum] at hinit ⊢
          exact hs n hn hinit
  | rw num wdata rdata size =>
    cases hstep
    rcases spiSoftRwByte_cases num wdata rdata size s with hcall | ⟨-, out, hcall⟩
    · rw [hcall]
      exact hs
    · rw [hcall]
      exact hs
  | select num slave =>
    cases hstep
    exact hs

end Soft

/-- A call of the driver, or something on a software channel. -/
inductive SoftAct where
  | call (c : WqRequest)
  /-- with what it leaves if it reaches a pin of the flash -/
  | other (a : Soft.Act) (spoilt : SoftBus)

def SoftAct.call? : SoftAct → Option WqRequest
  | .call c => some c
  | .other _ _ => none

structure SoftSys where
  bus : SoftBus
  replies : List WqReply

def softStep (g : NorGeometry) (id : BitVec 32) (s : SoftSys) : SoftAct → Option SoftSys
  | .call c =>
    let (r, bus) := ((softBus g).call id c).run s.bus
    some ⟨bus, s.replies ++ [r]⟩
  | .other a spoilt =>
    (Soft.step s.bus.spi a).map fun spi =>
      { s with bus := if Apart (a.pins s.bus.spi) wqPins then { s.bus with spi } else spoilt }

/-- The channel is not set up and no other has its pins, its slave is a chip of
the mode `spi_info` has, and the chip is not selected. -/
structure WqPowerUp (s : SoftBus) : Prop where
  isInit : s.spi.isSpiInit softSpi5 = false
  apart : PinsApart s.spi
  mode : (s.spi.wire softSpi5).slave.mode = ⟨true, true⟩
  released : s.chip.frame = none

variable {g : NorGeometry} {id : BitVec 32}

theorem spiDriverInit_wired {s : SoftBus} (h : WqPowerUp s) :
    (spiDriverInit g s).1 = true ∧ Wired g (spiDriverInit g s).2 ∧ (spiDriverInit g s).2.chip = s.chip := by
  obtain ⟨spi, hsoft, hinit, hinfo, hapart, hwire⟩ :
      ∃ spi, Soft.spiSoftInit softSpi5 spiInfo s.spi = (.ok, spi) ∧
      spi.isSpiInit softSpi5 = true ∧ spi.spiList softSpi5 = spiInfo ∧ PinsApart spi ∧
      spi.wire softSpi5 = ((s.spi.wire softSpi5).setMosi true).setSck true := by
    unfold Soft.spiSoftInit
    rw [if_neg (by decide), h.isInit]
    refine ⟨_, rfl, ?_, ?_, ?_, ?_⟩
    · simp only [Function.update_self]
    · simp only [Function.update_self]
    · intro n hn hinit
      simp only [Function.update_of_ne hn] at hinit ⊢
      exact h.apart n hn hinit
    · simp only [Function.update_self]
      exact if_pos (.inr rfl)
  have hchip : s.chip.deselect g = s.chip := by
    unfold NorChip.deselect
    rw [h.released]
  have hmode : (spi.wire softSpi5).slave.mode = ⟨true, true⟩ := by
    rw [hwire, SpiWire.setSck_mode]
    exact h.mode
  unfold spiDriverInit
  rw [hsoft]
  exact ⟨rfl, @latch_wired g { s with spi } hinit hinfo hapart (by rw [hwire]; rfl) hmode _, hchip⟩

/-- The driver over the pins, and other channels meanwhile. -/
theorem softStep_run {s : SoftSys} (h : Wired g s.bus) (acts : List SoftAct)
    (hother : ∀ a spoilt, SoftAct.other a spoilt ∈ acts → a.Elsewhere) :
    ∃ s', exec (softStep g id) s acts = some s' ∧ Wired g s'.bus ∧
      s'.replies = s.replies ++ (((chipBus g).calls id (acts.filterMap SoftAct.call?)).run s.bus.abs).1 ∧
      s'.bus.abs = (((chipBus g).calls id (acts.filterMap SoftAct.call?)).run s.bus.abs).2 := by
  induction acts generalizing s with
  | nil => exact ⟨s, rfl, h, (List.append_nil _).symm, rfl⟩
  | cons a acts ih =>
    have hrest : ∀ a spoilt, SoftAct.other a spoilt ∈ acts → a.Elsewhere :=
      fun a spoilt ha => hother a spoilt (List.mem_cons_of_mem _ ha)
    cases a with
    | call c =>
      obtain ⟨hval, habs, hwired⟩ := softBus_sim.call id c s.bus h
      obtain ⟨s', hrun, hwired', hreplies, hbus⟩ := @ih
        ⟨(((softBus g).call id c).run s.bus).2, s.replies ++ [(((softBus g).call id c).run s.bus).1]⟩ hwired hrest
      refine ⟨s', exec_cons.2 ⟨_, rfl, hrun⟩, hwired', ?_, ?_⟩
      · rw [hreplies, hval, habs, List.append_assoc]
        rfl
      · rw [hbus, habs]
        rfl
    | other a spoilt =>
      have helse : a.Elsewhere := hother a spoilt List.mem_cons_self
      obtain ⟨spi, hstep, hinit, hinfo, hwire⟩ := Soft.step_other s.bus.spi a helse.num_ne
      have hwired : Wired g { s.bus with spi } :=
        ⟨hinit.trans h.isInit, hinfo.trans h.info, helse.step h.apart hstep, hwire ▸ h.sck, hwire ▸ h.slave⟩
      obtain ⟨s', hrun, hrest'⟩ := @ih { s with bus := { s.bus with spi } } hwired hrest
      refine ⟨s', exec_cons.2 ⟨{ s with bus := { s.bus with spi } }, ?_, hrun⟩, hrest'⟩
      simp only [softStep, hstep, Option.map_some, if_pos (helse.pins h.apart)]

/-- **The driver does not see the pins**: after `spi_driver_init`, whatever
calls the driver gets and whatever goes on on software channels that are set up
on other pins, every call over the pins returns what it returns on the bus of
bytes when no exchange fails, and the chip is left the same. -/
theorem soft_wq_refines (g : NorGeometry) (id : BitVec 32) (s : SoftBus) (hpower : WqPowerUp s)
    (acts : List SoftAct) (hother : ∀ a spoilt, SoftAct.other a spoilt ∈ acts → a.Elsewhere) :
    (spiDriverInit g s).1 = true ∧
      ∃ s', exec (softStep g id) ⟨(spiDriverInit g s).2, []⟩ acts = some s' ∧
        (s'.replies, (⟨s'.bus.chip, []⟩ : SpiBus)) =
          ((chipBus g).calls id (acts.filterMap SoftAct.call?)).run ⟨s.chip, []⟩ ∧
        (s'.bus.spi.wire softSpi5).sck = true := by
  obtain ⟨hpass, hwired, hchip⟩ := @spiDriverInit_wired g s hpower
  obtain ⟨s', hrun, hwired', hreplies, hbus⟩ :=
    @softStep_run g id ⟨(spiDriverInit g s).2, []⟩ hwired acts hother
  have habs : (spiDriverInit g s).2.abs = ⟨s.chip, []⟩ := by
    rw [SoftBus.abs, hchip]
  rw [habs] at hreplies hbus
  exact ⟨hpass, s', hrun, Prod.ext hreplies hbus, hwired'.sck⟩

/-- A chip that goes through one program, another channel set up on three pins of
the port that are free, and a byte read back. -/
theorem soft_wq_refines_program :
    let g : NorGeometry := ⟨16777216, false, by decide, by decide, by decide⟩
    let slave : SpiSlave := ⟨⟨true, true⟩, [], false, [true], [7], 3⟩
    let s : SoftBus := ⟨⟨fun _ => false, fun _ => ⟨0, 0, 0, 0, 0, 0, 0, 0⟩, fun _ => ⟨false, false, slave⟩⟩,
      ⟨fun _ => 0xFF, false, 0, none, [1]⟩⟩
    let acts : List SoftAct :=
      [.call (.wqMemoryWrite 5 [0xA7]), .other (.init 1 ⟨0, 0, 0x0400, gpiof, 0x0800, gpiof, 0x1000, gpiof⟩) s,
        .call (.wqMemoryRead 5 1)]
    (spiDriverInit g s).1 = true ∧
      ∃ s', exec (softStep g 0xEF17) ⟨(spiDriverInit g s).2, []⟩ acts = some s' ∧
        (s'.replies, (⟨s'.bus.chip, []⟩ : SpiBus)) =
          ((chipBus g).calls 0xEF17 (acts.filterMap SoftAct.call?)).run ⟨s.chip, []⟩ ∧
        (s'.bus.spi.wire softSpi5).sck = true := by
  intro g slave s acts
  have hpower : WqPowerUp s := ⟨rfl, fun n _ hinit => absurd hinit Bool.false_ne_true, rfl, rfl⟩
  have hother : ∀ a spoilt, SoftAct.other a spoilt ∈ acts → a.Elsewhere := by
    intro a spoilt ha
    simp only [acts, List.mem_cons, reduceCtorEq, false_or, or_false, SoftAct.other.injEq, List.not_mem_nil] at ha
    obtain ⟨rfl, -⟩ := ha
    refine ⟨by decide, fun num info h => ?_⟩
    obtain ⟨-, rfl⟩ := Soft.Act.init.inj h
    decide
  exact soft_wq_refines g 0xEF17 s hpower acts hother

end Stm32Handler.Spi
