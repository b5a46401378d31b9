import Stm32Handler.Lib.MsbFirst

/-!
# An SPI slave on its wires

The slave watches the clock. An edge away from the idle level is leading, an
edge back trailing; with CPHA 1 the slave samples MOSI on the leading edge and
presents its next bit on the trailing one, the first bit being there before any
edge, with CPHA 2 it presents on the leading edge and samples on the trailing
one. Eight samples make a byte.

`SpiWire.rested` is the slave as the idle clock leaves it. Seen there a pulse
is the same in every mode: a bit in, a bit out (`SpiSlave.round`,
`SpiWire.rested_pulse`).
-/

namespace Stm32Handler

structure SpiMode where
  /-- the idle level of the clock -/
  cpol : Bool
  /-- sampling on the second edge -/
  cpha2 : Bool
  deriving DecidableEq

/-- The level a pulse starts from: the bits change on the edge to it. -/
def SpiMode.first (m : SpiMode) : Bool := if m.cpha2 then !m.cpol else m.cpol

structure SpiSlave where
  mode : SpiMode
  /-- bits not yet presented -/
  tx : List Bool
  miso : Bool
  /-- bits of the byte being received -/
  shift : List Bool
  rx : List Byte
  pulses : ℕ
  deriving DecidableEq

namespace SpiSlave

def present (s : SpiSlave) : SpiSlave := { s with miso := s.tx.headD true, tx := s.tx.tail }

def sample (s : SpiSlave) (bit : Bool) : SpiSlave :=
  { s with
    shift := if s.shift.length = 7 then [] else s.shift ++ [bit]
    rx := if s.shift.length = 7 then s.rx ++ [bitsToByte (s.shift ++ [bit])] else s.rx }

def leading (s : SpiSlave) (mosi : Bool) : SpiSlave :=
  if s.mode.cpha2 then s.present else s.sample mosi

/-- The trailing edge completes a pulse. -/
def trailing (s : SpiSlave) (mosi : Bool) : SpiSlave :=
  let s := { s with pulses := s.pulses + 1 }
  if s.mode.cpha2 then s.sample mosi else s.present

@[simp] theorem leading_mode (s : SpiSlave) (mosi : Bool) : (s.leading mosi).mode = s.mode := by
  unfold leading
  split <;> rfl

@[simp] theorem trailing_mode (s : SpiSlave) (mosi : Bool) : (s.trailing mosi).mode = s.mode := by
  simp only [trailing]
  split <;> rfl

/-- The slave is about to send `tx`, the first bit of it presented already with
CPHA 1. -/
def Ready (s : SpiSlave) (tx : List Bool) : Prop :=
  if s.mode.cpha2 then s.tx = tx else s.miso = tx.headD true ∧ s.tx = tx.tail

/-- The bit the master reads in the next pulse. -/
def out (s : SpiSlave) : Bool := if s.mode.cpha2 then s.tx.headD true else s.miso

/-- A whole pulse, with `bit` on MOSI. -/
def round (s : SpiSlave) (bit : Bool) : SpiSlave :=
  { (s.sample bit).present with pulses := s.pulses + 1 }

@[simp] theorem round_mode (s : SpiSlave) (bit : Bool) : (s.round bit).mode = s.mode := rfl

theorem Ready.out {s : SpiSlave} {tx : List Bool} (h : s.Ready tx) : s.out = tx.headD true := by
  unfold Ready at h
  unfold SpiSlave.out
  split
  · next hc =>
    rw [if_pos hc] at h
    rw [h]
  · next hc =>
    rw [if_neg hc] at h
    exact h.1

theorem Ready.round {s : SpiSlave} {tx : List Bool} (h : s.Ready tx) (bit : Bool) :
    (s.round bit).Ready tx.tail := by
  unfold Ready at h ⊢
  rw [round_mode]
  split
  · next hc =>
    rw [if_pos hc] at h
    show s.tx.tail = tx.tail
    rw [h]
  · next hc =>
    rw [if_neg hc] at h
    exact ⟨congrArg (·.headD true) h.2, congrArg List.tail h.2⟩

/-- The bits the master reads while it sends `bits`. -/
def outs (s : SpiSlave) : List Bool → List Bool
  | [] => []
  | bit :: bits => s.out :: (s.round bit).outs bits

theorem Ready.rounds {s : SpiSlave} {tx rest : List Bool} (bits : List Bool)
    (h : s.Ready (tx ++ rest)) (hlen : tx.length = bits.length) :
    s.outs bits = tx ∧ (bits.foldl SpiSlave.round s).Ready rest := by
  induction bits generalizing s tx with
  | nil =>
    obtain rfl := List.length_eq_zero_iff.1 hlen
    exact ⟨rfl, h⟩
  | cons bit bits ih =>
    obtain ⟨t, tx, rfl⟩ := List.exists_cons_of_length_eq_add_one hlen
    obtain ⟨houts, hready⟩ := ih (h.round bit) (Nat.succ.inj hlen)
    refine ⟨?_, hready⟩
    rw [outs, houts, h.out]
    rfl

theorem rounds_mode (s : SpiSlave) (bits : List Bool) :
    (bits.foldl SpiSlave.round s).mode = s.mode := by
  induction bits generalizing s with
  | nil => rfl
  | cons bit bits ih => exact ih (s.round bit)

theorem rounds_pulses (s : SpiSlave) (bits : List Bool) :
    (bits.foldl SpiSlave.round s).pulses = s.pulses + bits.length := by
  induction bits generalizing s with
  | nil => rfl
  | cons bit bits ih =>
    rw [List.foldl_cons, ih, List.length_cons, Nat.add_comm bits.length, ← Nat.add_assoc]
    rfl

/-- Fewer than eight bits wait in the shift register. -/
theorem rounds_shift {s : SpiSlave} {bits : List Bool} (h : s.shift.length + bits.length ≤ 7) :
    (bits.foldl SpiSlave.round s).shift = s.shift ++ bits ∧
      (bits.foldl SpiSlave.round s).rx = s.rx := by
  induction bits generalizing s with
  | nil => exact ⟨(List.append_nil _).symm, rfl⟩
  | cons bit bits ih =>
    rw [List.length_cons] at h
    have hne : s.shift.length ≠ 7 := by omega
    have hshift : (s.round bit).shift = s.shift ++ [bit] := if_neg hne
    have hrx : (s.round bit).rx = s.rx := if_neg hne
    have hlen : (s.round bit).shift.length + bits.length ≤ 7 := by
      rw [hshift, List.length_append, List.length_singleton]
      omega
    obtain ⟨hs, hr⟩ := ih hlen
    rw [List.foldl_cons, hs, hr, hshift, hrx, List.append_assoc]
    exact ⟨rfl, rfl⟩

/-- The eighth bit completes the byte. -/
theorem round_full {s : SpiSlave} (h : s.shift.length = 7) (bit : Bool) :
    (s.round bit).shift = [] ∧ (s.round bit).rx = s.rx ++ [bitsToByte (s.shift ++ [bit])] :=
  ⟨if_pos h, if_pos h⟩

/-- Between two bytes. -/
structure Idle (s : SpiSlave) (mode : SpiMode) (tx : List Bool) (rx : List Byte) (pulses : ℕ) :
    Prop where
  mode_eq : s.mode = mode
  ready : s.Ready tx
  shift_eq : s.shift = []
  rx_eq : s.rx = rx
  pulses_eq : s.pulses = pulses

/-- The shift register is filled anew: `tx` is to be sent, nothing has come in. -/
def load (s : SpiSlave) (tx : List Bool) : SpiSlave :=
  if s.mode.cpha2 then { s with tx := tx, shift := [], rx := [] }
  else { s with miso := tx.headD true, tx := tx.tail, shift := [], rx := [] }

theorem load_idle (s : SpiSlave) (tx : List Bool) : (s.load tx).Idle s.mode tx [] s.pulses := by
  unfold load
  split
  · next h => exact ⟨rfl, by simp [Ready, h], rfl, rfl, rfl⟩
  · next h => exact ⟨rfl, by simp [Ready, h], rfl, rfl, rfl⟩

/-- Eight pulses are a byte in and a byte out. -/
theorem Idle.byte {s : SpiSlave} {mode : SpiMode} {v : Byte} {tx : List Bool} {rx : List Byte}
    {pulses : ℕ} (h : s.Idle mode (msbBits v ++ tx) rx pulses) (b : Byte) :
    s.outs (msbBits b) = msbBits v ∧
      ((msbBits b).foldl SpiSlave.round s).Idle mode tx (rx ++ [b]) (pulses + 8) := by
  obtain ⟨houts, hready⟩ := h.ready.rounds (msbBits b) rfl
  have hbits : (msbBits b).dropLast ++ [b.getLsbD 0] = msbBits b := rfl
  -- seven bits wait, and the last one completes the byte
  have hseven : s.shift.length + (msbBits b).dropLast.length ≤ 7 := by
    rw [h.shift_eq]
    exact Nat.le_refl 7
  obtain ⟨hshift, hrx⟩ := rounds_shift hseven
  rw [h.shift_eq, List.nil_append] at hshift
  rw [h.rx_eq] at hrx
  obtain ⟨hempty, hbyte⟩ := round_full (congrArg List.length hshift) (b.getLsbD 0)
  rw [hshift, hrx, hbits, bitsToByte_msbBits] at hbyte
  rw [← List.foldl_concat SpiSlave.round, hbits] at hempty hbyte
  exact ⟨houts, (rounds_mode s _).trans h.mode_eq, hready, hempty, hbyte,
    (rounds_pulses s _).trans (congrArg (· + 8) h.pulses_eq)⟩

end SpiSlave

/-- The two lines the master drives, and the slave on them. -/
structure SpiWire where
  sck : Bool
  mosi : Bool
  slave : SpiSlave
  deriving DecidableEq

namespace SpiWire

/-- Setting the clock is an edge only if it changes the level. -/
def setSck (w : SpiWire) (v : Bool) : SpiWire :=
  { w with
    sck := v
    slave :=
      if v = w.sck then w.slave
      else if v = w.slave.mode.cpol then w.slave.trailing w.mosi
      else w.slave.leading w.mosi }

def setMosi (w : SpiWire) (v : Bool) : SpiWire := { w with mosi := v }

/-- The slave once the clock is back at its idle level. -/
def rested (w : SpiWire) : SpiSlave := (w.setSck w.slave.mode.cpol).slave

/-- What a master keeps between two pulses: with CPHA 2 the clock is idle, with
CPHA 1 the trailing edge may be still to come. -/
def Between (w : SpiWire) : Prop := w.slave.mode.cpha2 = true → w.sck = w.slave.mode.cpol

def pulse (w : SpiWire) (first bit : Bool) : SpiWire :=
  ((w.setSck first).setMosi bit).setSck !first

@[simp] theorem setSck_sck (w : SpiWire) (v : Bool) : (w.setSck v).sck = v := rfl

@[simp] theorem setSck_mode (w : SpiWire) (v : Bool) : (w.setSck v).slave.mode = w.slave.mode := by
  simp only [setSck]
  split
  · rfl
  · split <;> simp

@[simp] theorem rested_mode (w : SpiWire) : w.rested.mode = w.slave.mode := by
  simp only [rested, setSck]
  split
  · rfl
  · simp

theorem rested_of_sck {w : SpiWire} (h : w.sck = w.slave.mode.cpol) : w.rested = w.slave := by
  simp [rested, setSck, h]

/-- **A pulse**: at the second edge MISO has the slave's bit, and the slave has
the master's. -/
theorem rested_pulse {w : SpiWire} (h : w.Between) (bit : Bool) :
    (w.pulse w.slave.mode.first bit).slave.miso = w.rested.out ∧
      (w.pulse w.slave.mode.first bit).rested = w.rested.round bit ∧
      (w.pulse w.slave.mode.first bit).Between := by
  obtain ⟨sck, mosi, ⟨⟨cpol, cpha2⟩, tx, miso, shift, rx, pulses⟩⟩ := w
  cases cpha2 with
  | false =>
    -- the clock may still be at the other level
    cases sck <;> cases cpol <;>
      simp [pulse, rested, setSck, setMosi, SpiMode.first, SpiSlave.out, SpiSlave.round,
        SpiSlave.trailing, SpiSlave.leading, SpiSlave.sample, SpiSlave.present, Between]
  | true =>
    obtain rfl : sck = cpol := h rfl
    cases sck <;>
      simp [pulse, rested, setSck, setMosi, SpiMode.first, SpiSlave.out, SpiSlave.round,
        SpiSlave.trailing, SpiSlave.leading, SpiSlave.sample, SpiSlave.present, Between]

end SpiWire

end Stm32Handler
