import Mathlib.Data.List.Perm.Basic
import Stm32Handler.Lib.MsbFirst

/-!
# Glyphs on the LCD

`lcd_showchar` of `drv_lcd.c`, with the points it draws. A glyph is stored
column by column, each column in whole bytes with the top bit first. The return
at the bottom of the screen stands before the end of the column, so a glyph
that touches the bottom edge is left after its first column.

A glyph that ends below row 65535, on a screen that goes on there, never meets
the end of a column at all: `y` wraps.
-/

namespace Stm32Handler.Lcd

/-- What the functions below read of `LCD_INFO`. -/
structure LcdInfo where
  lcdWidth : BitVec 32
  lcdHeight : BitVec 32

structure Pixel where
  x : ℕ
  y : ℕ
  color : BitVec 32
  deriving DecidableEq

def pointColor : BitVec 32 := 0xFF000000
def backColor : BitVec 32 := 0xFFFFFFFF

/-- `lcd_fast_drawpoint` -/
def lcdFastDrawpoint (x y : BitVec 16) (color : BitVec 32) : Pixel := ⟨x.toNat, y.toNat, color⟩

/-- The tables of `font.h`, by the number of the character and of the byte. -/
structure Fonts where
  asc2_1206 : ℕ → ℕ → Byte
  asc2_1608 : ℕ → ℕ → Byte
  asc2_2412 : ℕ → ℕ → Byte
  asc2_3216 : ℕ → ℕ → Byte

/-- The `switch` over the size. -/
def Fonts.table (fonts : Fonts) (size : Byte) : Option (ℕ → ℕ → Byte) :=
  if size = 12 then some fonts.asc2_1206
  else if size = 16 then some fonts.asc2_1608
  else if size = 24 then some fonts.asc2_2412
  else if size = 32 then some fonts.asc2_3216
  else none

section Showchar

variable (info : LcdInfo) (size mode : Byte) (y0 : BitVec 16)

/-- The loop over `t1` with `n` bits left: what it draws, and where it goes on
if the function does not return. -/
def showBits : ℕ → Byte → BitVec 16 → BitVec 16 → List Pixel × Option (BitVec 16 × BitVec 16)
  | 0, _, x, y => ([], some (x, y))
  | n + 1, temp, x, y =>
    let drawn :=
      if temp &&& 0x80 ≠ 0 then [lcdFastDrawpoint x y pointColor]
      else if mode = 0 then [lcdFastDrawpoint x y backColor]
      else []
    let temp := temp <<< 1
    let y := y + 1
    if y.toNat ≥ info.lcdHeight.toNat then (drawn, none)
    else if y.toNat = y0.toNat + size.toNat then
      let y := y0
      let x := x + 1
      if x.toNat ≥ info.lcdWidth.toNat then (drawn, none) else (drawn, some (x, y))
    else
      let (rest, goesOn) := showBits n temp x y
      (drawn ++ rest, goesOn)

/-- The loop over `t` with `n` bytes left. -/
def showBytes (glyph : ℕ → Byte) : ℕ → ℕ → BitVec 16 → BitVec 16 → List Pixel
  | 0, _, _, _ => []
  | n + 1, t, x, y =>
    match showBits info size mode y0 8 (glyph t) x y with
    | (drawn, none) => drawn
    | (drawn, some (x, y)) => drawn ++ showBytes glyph n (t + 1) x y

end Showchar

/-- `lcd_showchar`, with the points it draws. -/
def lcdShowchar (info : LcdInfo) (fonts : Fonts) (x y : BitVec 16) (num size mode : Byte) : List Pixel :=
  let csize := BitVec.ofNat 8 ((size.toNat / 8 + if size.toNat % 8 ≠ 0 then 1 else 0) * (size.toNat / 2))
  match fonts.table size with
  | none => []
  | some asc2 => showBytes info size mode y (asc2 (num - 0x20).toNat) csize.toNat 0 x y

/-! ## The glyph -/

def bytesPerColumn (size : Byte) : ℕ := (size.toNat + 7) / 8

/-- Bit `j` of the bytes of a character, each from the top. -/
def glyphBit (glyph : ℕ → Byte) (j : ℕ) : Bool := (glyph (j / 8)).getMsbD (j % 8)

/-- The bytes of a character. -/
def Fonts.glyph (fonts : Fonts) (size num : Byte) (t : ℕ) : Byte :=
  ((fonts.table size).getD fun _ _ => 0) (num - 0x20).toNat t

/-- Bit `r` of column `c`. -/
def Fonts.bit (fonts : Fonts) (size num : Byte) (c r : ℕ) : Bool :=
  glyphBit (fonts.glyph size num) (8 * bytesPerColumn size * c + r)

/-- A bit at a place: foreground if it is set, and otherwise background in
mode 0. -/
def bitPixels (mode : Byte) (b : Bool) (x y : ℕ) : List Pixel :=
  if b then [⟨x, y, pointColor⟩] else if mode = 0 then [⟨x, y, backColor⟩] else []

/-- The whole glyph at its place. -/
def glyphPixels (fonts : Fonts) (x y : BitVec 16) (num size mode : Byte) : List Pixel :=
  (List.range (size.toNat / 2)).flatMap fun c => (List.range size.toNat).flatMap fun r =>
    bitPixels mode (fonts.bit size num c r) (x.toNat + c) (y.toNat + r)

/-- Something is drawn for the bit. -/
def Shown (mode : Byte) (b : Bool) : Prop := b = true ∨ mode = 0

/-! ## The loops -/

/-- `m` bits from number `o` on, drawn one below the other. -/
def bitRun (mode : Byte) (glyph : ℕ → Byte) (o m : ℕ) (x y : BitVec 16) : List Pixel :=
  (List.range m).flatMap fun i =>
    bitPixels mode (glyphBit glyph (o + i)) x.toNat (y + BitVec.ofNat 16 i).toNat

theorem bitRun_add (mode : Byte) (glyph : ℕ → Byte) (o m n : ℕ) (x y : BitVec 16) :
    bitRun mode glyph o (m + n) x y =
      bitRun mode glyph o m x y ++ bitRun mode glyph (o + m) n x (y + BitVec.ofNat 16 m) := by
  unfold bitRun
  rw [List.range_add, List.flatMap_append, List.flatMap_map]
  simp only [BitVec.ofNat_add, Nat.add_assoc, BitVec.add_assoc]

theorem bitRun_one (mode : Byte) (glyph : ℕ → Byte) (o : ℕ) (x y : BitVec 16) :
    bitRun mode glyph o 1 x y = bitPixels mode (glyphBit glyph o) x.toNat y.toNat := by
  unfold bitRun
  rw [List.range_one, List.flatMap_singleton, Nat.add_zero]
  exact congrArg (fun v : BitVec 16 => bitPixels mode (glyphBit glyph o) x.toNat v.toNat) (BitVec.add_zero y)

variable {info : LcdInfo} {size mode : Byte} {y0 : BitVec 16} {glyph : ℕ → Byte}

/-- The loops go on at row `y`: neither the bottom nor the end of the column. -/
def GoesOn (info : LcdInfo) (size : Byte) (y0 y : BitVec 16) : Prop :=
  y.toNat < info.lcdHeight.toNat ∧ y.toNat ≠ y0.toNat + size.toNat

/-- The byte of bit `o`, shifted up to it. -/
def HoldsBits (glyph : ℕ → Byte) (o n : ℕ) (temp : Byte) : Prop :=
  ∀ i < n, temp.getMsbD i = glyphBit glyph (o + i)

theorem holdsBits_glyph (t : ℕ) : HoldsBits glyph (8 * t) 8 (glyph t) := by
  intro i hi
  unfold glyphBit
  rw [Nat.mul_add_div (by decide), Nat.div_eq_of_lt hi, Nat.add_zero, Nat.mul_add_mod,
    Nat.mod_eq_of_lt hi]

theorem HoldsBits.shift {o n : ℕ} {temp : Byte} (h : HoldsBits glyph o (n + 1) temp) :
    HoldsBits glyph (o + 1) n (temp <<< 1) := by
  intro i hi
  rw [BitVec.getMsbD_shiftLeft, h (i + 1) (by omega), Nat.add_assoc, Nat.add_comm 1]

/-- The loop over the bits from number `o` on, by their numbers. -/
def bitLoop (info : LcdInfo) (size mode : Byte) (y0 : BitVec 16) (glyph : ℕ → Byte) :
    ℕ → ℕ → BitVec 16 → BitVec 16 → List Pixel × Option (BitVec 16 × BitVec 16)
  | 0, _, x, y => ([], some (x, y))
  | n + 1, o, x, y =>
    if (y + 1).toNat ≥ info.lcdHeight.toNat then (bitRun mode glyph o 1 x y, none)
    else if (y + 1).toNat = y0.toNat + size.toNat then
      (bitRun mode glyph o 1 x y,
        if (x + 1).toNat ≥ info.lcdWidth.toNat then none else some (x + 1, y0))
    else
      (bitRun mode glyph o 1 x y ++ (bitLoop info size mode y0 glyph n (o + 1) x (y + 1)).1,
        (bitLoop info size mode y0 glyph n (o + 1) x (y + 1)).2)

theorem showBits_eq {o n : ℕ} {temp : Byte} (h : HoldsBits glyph o n temp) (x y : BitVec 16) :
    showBits info size mode y0 n temp x y = bitLoop info size mode y0 glyph n o x y := by
  induction n generalizing o temp y with
  | zero => rfl
  | succ n ih =>
    have hdrawn : (if temp &&& 0x80 ≠ 0 then [lcdFastDrawpoint x y pointColor]
        else if mode = 0 then [lcdFastDrawpoint x y backColor] else []) = bitRun mode glyph o 1 x y := by
      have hbit : temp &&& 0x80 ≠ 0 ↔ glyphBit glyph o = true := by
        rw [and_top_ne_zero, show temp.getLsbD 7 = temp.getMsbD 0 from rfl, h 0 (Nat.zero_lt_succ n)]
        rfl
      rw [bitRun_one]
      exact if_congr hbit rfl rfl
    rw [showBits, hdrawn, bitLoop, ← ih h.shift]
    refine if_congr Iff.rfl rfl (if_congr Iff.rfl ?_ rfl)
    exact (apply_ite (Prod.mk (bitRun mode glyph o 1 x y)) _ _ _).symm

theorem add_one_ofNat (y : BitVec 16) (i : ℕ) :
    y + 1 + BitVec.ofNat 16 i = y + BitVec.ofNat 16 (i + 1) := by
  rw [BitVec.ofNat_add, BitVec.add_assoc, BitVec.add_comm (BitVec.ofNat 16 i)]
  rfl

theorem add_ofNat_ofNat (y : BitVec 16) (m n : ℕ) :
    y + BitVec.ofNat 16 m + BitVec.ofNat 16 n = y + BitVec.ofNat 16 (m + n) := by
  rw [BitVec.add_assoc, BitVec.ofNat_add]

theorem toNat_add_ofNat (y : BitVec 16) (i : ℕ) :
    (y + BitVec.ofNat 16 i).toNat = (y.toNat + i) % 65536 := by
  rw [BitVec.toNat_add, BitVec.toNat_ofNat, Nat.add_mod_mod]

theorem toNat_add_ofNat_of_lt {y : BitVec 16} {i : ℕ} (h : y.toNat + i < 65536) :
    (y + BitVec.ofNat 16 i).toNat = y.toNat + i := by
  rw [toNat_add_ofNat, Nat.mod_eq_of_lt h]

/-- Bits that meet neither the bottom nor the end of the column. -/
theorem bitLoop_run (m n o : ℕ) {x y : BitVec 16}
    (hrun : ∀ i < m, GoesOn info size y0 (y + BitVec.ofNat 16 (i + 1))) :
    bitLoop info size mode y0 glyph (m + n) o x y =
      (bitRun mode glyph o m x y ++
          (bitLoop info size mode y0 glyph n (o + m) x (y + BitVec.ofNat 16 m)).1,
        (bitLoop info size mode y0 glyph n (o + m) x (y + BitVec.ofNat 16 m)).2) := by
  induction m generalizing o y with
  | zero =>
    rw [show y + BitVec.ofNat 16 0 = y from BitVec.add_zero y, Nat.zero_add]
    rfl
  | succ m ih =>
    have hfirst : GoesOn info size y0 (y + 1) := hrun 0 (Nat.zero_lt_succ m)
    have hrest := ih (o + 1) (y := y + 1) fun i hi => by
      rw [add_one_ofNat]
      exact hrun (i + 1) (by omega)
    have hrun_succ : bitRun mode glyph o (m + 1) x y =
        bitRun mode glyph o 1 x y ++ bitRun mode glyph (o + 1) m x (y + 1) := by
      rw [Nat.add_comm m 1, bitRun_add]
      rfl
    rw [add_one_ofNat] at hrest
    rw [show m + 1 + n = m + n + 1 by omega, bitLoop, if_neg (Nat.not_le.2 hfirst.1), if_neg hfirst.2, hrest,
      hrun_succ, show o + 1 + m = o + (m + 1) by omega, List.append_assoc]

/-- The last bit of a column. -/
theorem bitLoop_end (m n o : ℕ) {x y : BitVec 16}
    (hrun : ∀ i < m, GoesOn info size y0 (y + BitVec.ofNat 16 (i + 1)))
    (hlt : (y + BitVec.ofNat 16 (m + 1)).toNat < info.lcdHeight.toNat)
    (hend : (y + BitVec.ofNat 16 (m + 1)).toNat = y0.toNat + size.toNat) :
    bitLoop info size mode y0 glyph (m + (n + 1)) o x y = (bitRun mode glyph o (m + 1) x y,
      if (x + 1).toNat ≥ info.lcdWidth.toNat then none else some (x + 1, y0)) := by
  have hnext : y + BitVec.ofNat 16 m + 1 = y + BitVec.ofNat 16 (m + 1) := add_ofNat_ofNat y m 1
  rw [bitLoop_run m (n + 1) o hrun, bitLoop, hnext, if_neg (Nat.not_le.2 hlt), if_pos hend, bitRun_add]

/-- The last row of the screen. -/
theorem bitLoop_bottom (m n o : ℕ) {x y : BitVec 16}
    (hrun : ∀ i < m, GoesOn info size y0 (y + BitVec.ofNat 16 (i + 1)))
    (hge : (y + BitVec.ofNat 16 (m + 1)).toNat ≥ info.lcdHeight.toNat) :
    bitLoop info size mode y0 glyph (m + (n + 1)) o x y = (bitRun mode glyph o (m + 1) x y, none) := by
  have hnext : y + BitVec.ofNat 16 m + 1 = y + BitVec.ofNat 16 (m + 1) := add_ofNat_ofNat y m 1
  rw [bitLoop_run m (n + 1) o hrun, bitLoop, hnext, if_pos hge, bitRun_add]

/-- Where the loop over the bytes goes on, if it does. -/
def showFrom (info : LcdInfo) (size mode : Byte) (y0 : BitVec 16) (glyph : ℕ → Byte) (n t : ℕ) :
    Option (BitVec 16 × BitVec 16) → List Pixel
  | none => []
  | some (x, y) => showBytes info size mode y0 glyph n t x y

theorem showBytes_succ (n t : ℕ) (x y : BitVec 16) :
    showBytes info size mode y0 glyph (n + 1) t x y =
      (bitLoop info size mode y0 glyph 8 (8 * t) x y).1 ++
        showFrom info size mode y0 glyph n (t + 1) (bitLoop info size mode y0 glyph 8 (8 * t) x y).2 := by
  rw [showBytes, showBits_eq (holdsBits_glyph t)]
  rcases bitLoop info size mode y0 glyph 8 (8 * t) x y with ⟨drawn, none | ⟨x', y'⟩⟩
  · exact (List.append_nil drawn).symm
  · rfl

/-- Whole bytes that meet neither event. -/
theorem showBytes_run (q n t : ℕ) {x y : BitVec 16}
    (hrun : ∀ i < 8 * q, GoesOn info size y0 (y + BitVec.ofNat 16 (i + 1))) :
    showBytes info size mode y0 glyph (q + n) t x y = bitRun mode glyph (8 * t) (8 * q) x y ++
      showBytes info size mode y0 glyph n (t + q) x (y + BitVec.ofNat 16 (8 * q)) := by
  induction q generalizing t y with
  | zero =>
    rw [show y + BitVec.ofNat 16 (8 * 0) = y from BitVec.add_zero y, Nat.zero_add]
    rfl
  | succ q ih =>
    have hbyte : bitLoop info size mode y0 glyph 8 (8 * t) x y =
        (bitRun mode glyph (8 * t) 8 x y ++ [], some (x, y + BitVec.ofNat 16 8)) :=
      bitLoop_run 8 0 (8 * t) fun i hi => hrun i (by omega)
    have hrest := ih (t + 1) (y := y + BitVec.ofNat 16 8) fun i hi => by
      rw [add_ofNat_ofNat]
      exact hrun (8 + i) (by omega)
    rw [show q + 1 + n = q + n + 1 by omega, showBytes_succ, hbyte, List.append_nil]
    show _ ++ showBytes info size mode y0 glyph (q + n) (t + 1) x (y + BitVec.ofNat 16 8) = _
    rw [hrest, add_ofNat_ofNat, show 8 * (q + 1) = 8 + 8 * q by omega, bitRun_add, List.append_assoc,
      show 8 * t + 8 = 8 * (t + 1) by omega, show t + 1 + q = t + (q + 1) by omega]

section Column

variable (q m : ℕ) (hm : m < 8) (hsize : 8 * q + m + 1 = size.toNat)
  (hrun : ∀ i < 8 * q + m, GoesOn info size y0 (y0 + BitVec.ofNat 16 (i + 1)))
include hm hsize hrun

/-- The whole bytes of a column, and the one it ends in. -/
theorem showBytes_last (n t : ℕ) (x : BitVec 16) {goesOn : Option (BitVec 16 × BitVec 16)}
    (hlast : (∀ i < m, GoesOn info size y0 (y0 + BitVec.ofNat 16 (8 * q) + BitVec.ofNat 16 (i + 1))) →
      bitLoop info size mode y0 glyph (m + (7 - m + 1)) (8 * (t + q)) x (y0 + BitVec.ofNat 16 (8 * q)) =
        (bitRun mode glyph (8 * (t + q)) (m + 1) x (y0 + BitVec.ofNat 16 (8 * q)), goesOn)) :
    showBytes info size mode y0 glyph (q + 1 + n) t x y0 =
      bitRun mode glyph (8 * t) size.toNat x y0 ++
        showFrom info size mode y0 glyph n (t + (q + 1)) goesOn := by
  have hbits := hlast fun i hi => by
    rw [add_ofNat_ofNat]
    exact hrun (8 * q + i) (by omega)
  rw [show m + (7 - m + 1) = 8 by omega] at hbits
  rw [show q + 1 + n = q + (n + 1) by omega, showBytes_run q (n + 1) t fun i hi => hrun i (by omega),
    showBytes_succ, hbits, ← hsize, Nat.add_assoc (8 * q), bitRun_add mode glyph (8 * t) (8 * q),
    List.append_assoc, show 8 * t + 8 * q = 8 * (t + q) by omega]
  rfl

/-- A column above the bottom of the screen. -/
theorem showBytes_column (n t : ℕ) (x : BitVec 16)
    (hend : (y0 + BitVec.ofNat 16 size.toNat).toNat = y0.toNat + size.toNat)
    (hlt : y0.toNat + size.toNat < info.lcdHeight.toNat) :
    showBytes info size mode y0 glyph (q + 1 + n) t x y0 =
      bitRun mode glyph (8 * t) size.toNat x y0 ++
        if (x + 1).toNat ≥ info.lcdWidth.toNat then []
        else showBytes info size mode y0 glyph n (t + (q + 1)) (x + 1) y0 := by
  have hplace : (y0 + BitVec.ofNat 16 (8 * q) + BitVec.ofNat 16 (m + 1)).toNat =
      y0.toNat + size.toNat := by
    rw [add_ofNat_ofNat, ← Nat.add_assoc, hsize, hend]
  rw [showBytes_last q m hm hsize hrun n t x fun hbits =>
    bitLoop_end m (7 - m) (8 * (t + q)) hbits (hplace.trans_lt hlt) hplace]
  split <;> rfl

/-- A column at the bottom of the screen. -/
theorem showBytes_bottom (n t : ℕ) (x : BitVec 16)
    (hge : (y0 + BitVec.ofNat 16 size.toNat).toNat ≥ info.lcdHeight.toNat) :
    showBytes info size mode y0 glyph (q + 1 + n) t x y0 = bitRun mode glyph (8 * t) size.toNat x y0 := by
  have hplace : y0 + BitVec.ofNat 16 (8 * q) + BitVec.ofNat 16 (m + 1) =
      y0 + BitVec.ofNat 16 size.toNat := by
    rw [add_ofNat_ofNat, ← hsize, Nat.add_assoc]
  rw [showBytes_last q m hm hsize hrun n t x fun hbits =>
    bitLoop_bottom m (7 - m) (8 * (t + q)) hbits (hplace ▸ hge)]
  exact List.append_nil _

end Column

/-! ## The points -/

theorem mem_bitPixels {b : Bool} {x y : ℕ} {p : Pixel} (h : p ∈ bitPixels mode b x y) :
    p.x = x ∧ p.y = y ∧ Shown mode b := by
  unfold bitPixels at h
  split at h
  · obtain rfl := List.mem_singleton.1 h
    exact ⟨rfl, rfl, .inl ‹_›⟩
  · split at h
    · obtain rfl := List.mem_singleton.1 h
      exact ⟨rfl, rfl, .inr ‹_›⟩
    · cases h

theorem Shown.exists_mem {b : Bool} (h : Shown mode b) (x y : ℕ) :
    ∃ p ∈ bitPixels mode b x y, p.x = x ∧ p.y = y := by
  unfold bitPixels
  split
  · exact ⟨_, List.mem_singleton_self _, rfl, rfl⟩
  · rw [if_pos (h.resolve_left ‹_›)]
    exact ⟨_, List.mem_singleton_self _, rfl, rfl⟩

/-- The place only matters if something is drawn. -/
theorem bitPixels_congr {b : Bool} {x y x' y' : ℕ} (h : Shown mode b → x = x' ∧ y = y') :
    bitPixels mode b x y = bitPixels mode b x' y' := by
  by_cases hshown : Shown mode b
  · obtain ⟨rfl, rfl⟩ := h hshown
    rfl
  · obtain ⟨hbit, hmode⟩ := not_or.1 hshown
    unfold bitPixels
    rw [if_neg hbit, if_neg hmode, if_neg hbit, if_neg hmode]

theorem bitPixels_eq_nil {b : Bool} (h : ¬ Shown mode b) (x y : ℕ) : bitPixels mode b x y = [] := by
  obtain ⟨hbit, hmode⟩ := not_or.1 h
  unfold bitPixels
  rw [if_neg hbit, if_neg hmode]

theorem mem_bitRun {o m : ℕ} {x y : BitVec 16} {p : Pixel} (h : p ∈ bitRun mode glyph o m x y) :
    ∃ i < m, p.x = x.toNat ∧ p.y = (y + BitVec.ofNat 16 i).toNat ∧ Shown mode (glyphBit glyph (o + i)) := by
  obtain ⟨i, hi, hp⟩ := List.mem_flatMap.1 h
  exact ⟨i, List.mem_range.1 hi, mem_bitPixels hp⟩

/-- A shown bit is among the points of its run. -/
theorem Shown.mem_bitRun {o m i : ℕ} (h : Shown mode (glyphBit glyph (o + i))) (hi : i < m)
    (x y : BitVec 16) :
    ∃ p ∈ bitRun mode glyph o m x y, p.x = x.toNat ∧ p.y = (y + BitVec.ofNat 16 i).toNat := by
  obtain ⟨p, hp, hplace⟩ := h.exists_mem x.toNat (y + BitVec.ofNat 16 i).toNat
  exact ⟨p, List.mem_flatMap.2 ⟨i, List.mem_range.2 hi, hp⟩, hplace⟩

/-- A run of bits that are not drawn, or drawn where they belong. -/
theorem bitRun_eq {o m : ℕ} {x y : BitVec 16}
    (h : ∀ i < m, Shown mode (glyphBit glyph (o + i)) → y.toNat + i < 65536) (px : ℕ)
    (hx : ∀ i < m, Shown mode (glyphBit glyph (o + i)) → x.toNat = px) :
    bitRun mode glyph o m x y =
      (List.range m).flatMap fun r => bitPixels mode (glyphBit glyph (o + r)) px (y.toNat + r) := by
  refine List.flatMap_congr fun i hi => bitPixels_congr fun hshown => ?_
  have hi := List.mem_range.1 hi
  exact ⟨hx i hi hshown, toNat_add_ofNat_of_lt (h i hi hshown)⟩

/-! ## The three cases -/

def supportedSizes : List Byte := [12, 16, 24, 32]

theorem supportedSizes_bounds (hsize : size ∈ supportedSizes) :
    2 ≤ size.toNat / 2 ∧ 8 * (bytesPerColumn size * (size.toNat / 2)) ≤ 512 := by
  revert size
  decide

theorem lcdShowchar_eq (hsize : size ∈ supportedSizes) (fonts : Fonts) (x y : BitVec 16) (num : Byte) :
    lcdShowchar info fonts x y num size mode =
      showBytes info size mode y (fonts.glyph size num) (bytesPerColumn size * (size.toNat / 2)) 0 x y := by
  simp only [supportedSizes, List.mem_cons, List.not_mem_nil, or_false] at hsize
  rcases hsize with rfl | rfl | rfl | rfl <;> rfl

theorem bytesPerColumn_eq (hpos : 0 < size.toNat) :
    bytesPerColumn size = (size.toNat - 1) / 8 + 1 := by
  unfold bytesPerColumn
  omega

/-- The rows of a glyph above its last one. -/
theorem goesOn_column {i : ℕ} (hend : y0.toNat + size.toNat < 65536)
    (hle : y0.toNat + size.toNat ≤ info.lcdHeight.toNat) (hi : i + 1 < size.toNat) :
    GoesOn info size y0 (y0 + BitVec.ofNat 16 (i + 1)) := by
  rw [GoesOn, toNat_add_ofNat_of_lt (by omega)]
  omega

/-- Column after column. -/
theorem showBytes_columns (k t : ℕ) (x : BitVec 16) (hpos : 0 < size.toNat)
    (hend : y0.toNat + size.toNat < 65536) (hlt : y0.toNat + size.toNat < info.lcdHeight.toNat)
    (hwidth : x.toNat + k ≤ info.lcdWidth.toNat) :
    showBytes info size mode y0 glyph (bytesPerColumn size * k) t x y0 =
      (List.range k).flatMap fun c =>
        bitRun mode glyph (8 * (t + bytesPerColumn size * c)) size.toNat (x + BitVec.ofNat 16 c) y0 := by
  have hrun : ∀ i < 8 * ((size.toNat - 1) / 8) + (size.toNat - 1) % 8,
      GoesOn info size y0 (y0 + BitVec.ofNat 16 (i + 1)) :=
    fun i hi => goesOn_column hend hlt.le (by omega)
  rw [bytesPerColumn_eq hpos]
  induction k generalizing t x with
  | zero => rfl
  | succ k ih =>
    rw [Nat.mul_succ, Nat.add_comm, showBytes_column ((size.toNat - 1) / 8) ((size.toNat - 1) % 8)
      (Nat.mod_lt _ (by decide)) (by omega) hrun _ t x (toNat_add_ofNat_of_lt hend) hlt,
      List.range_succ_eq_map, List.flatMap_cons, List.flatMap_map,
      show x + BitVec.ofNat 16 0 = x from BitVec.add_zero x]
    refine congrArg (bitRun mode glyph (8 * t) size.toNat x y0 ++ ·) ?_
    have hstep : (x + 1).toNat ≤ x.toNat + 1 := by
      rw [BitVec.toNat_add]
      exact Nat.mod_le _ _
    cases k with
    | zero => exact ite_self _
    | succ k =>
      rw [if_neg (by omega), ih (t + ((size.toNat - 1) / 8 + 1)) (x + 1) (by omega)]
      refine List.flatMap_congr fun c _ => ?_
      rw [add_one_ofNat, Nat.mul_succ, Nat.add_assoc t, Nat.add_comm (_ * c)]

/-- Every bit that is drawn has its place below 65536 and, unless it is in the
first column, the glyph ends above the bottom edge; and where the rows wrap, the
bits behind the ends of the columns are clear. -/
structure GlyphReached (info : LcdInfo) (fonts : Fonts) (x y : BitVec 16) (num size mode : Byte) : Prop where
  shown : ∀ c < size.toNat / 2, ∀ r < size.toNat, Shown mode (fonts.bit size num c r) →
    x.toNat + c < 65536 ∧ y.toNat + r < 65536 ∧
      (c = 0 ∨ y.toNat + size.toNat < info.lcdHeight.toNat ∧ y.toNat + size.toNat < 65536)
  padding : 65536 ≤ y.toNat + size.toNat → ∀ c < size.toNat / 2, ∀ r < 8 * bytesPerColumn size,
    size.toNat ≤ r → fonts.bit size num c r = false

section Cases

variable {fonts : Fonts} {x y : BitVec 16} {num : Byte} (hsize : size ∈ supportedSizes)
  (hx : x.toNat + size.toNat / 2 ≤ info.lcdWidth.toNat)
  (hy : y.toNat + size.toNat ≤ info.lcdHeight.toNat)

theorem mem_glyphPixels {p : Pixel} : p ∈ glyphPixels fonts x y num size mode ↔
    ∃ c < size.toNat / 2, ∃ r < size.toNat,
      p ∈ bitPixels mode (fonts.bit size num c r) (x.toNat + c) (y.toNat + r) := by
  simp only [glyphPixels, List.mem_flatMap, List.mem_range]

/-- A shown bit is among the points of the glyph. -/
theorem Shown.mem_glyphPixels {c r : ℕ} (hc : c < size.toNat / 2) (hr : r < size.toNat)
    (h : Shown mode (fonts.bit size num c r)) :
    ∃ p ∈ glyphPixels fonts x y num size mode, p.x = x.toNat + c ∧ p.y = y.toNat + r := by
  obtain ⟨p, hp, hplace⟩ := h.exists_mem (x.toNat + c) (y.toNat + r)
  exact ⟨p, Lcd.mem_glyphPixels.2 ⟨c, hc, r, hr, hp⟩, hplace⟩

theorem fonts_bit_eq (c r : ℕ) : fonts.bit size num c r =
    glyphBit (fonts.glyph size num) (8 * (0 + bytesPerColumn size * c) + r) := by
  rw [Fonts.bit, Nat.zero_add, Nat.mul_assoc]

/-- With nothing shown behind it, the glyph is its first column. -/
theorem glyphPixels_column (hpos : 0 < size.toNat / 2)
    (h : ∀ c < size.toNat / 2, ∀ r < size.toNat, Shown mode (fonts.bit size num c r) → c = 0) :
    glyphPixels fonts x y num size mode = (List.range size.toNat).flatMap fun r =>
      bitPixels mode (glyphBit (fonts.glyph size num) (0 + r)) x.toNat (y.toNat + r) := by
  obtain ⟨n, hn⟩ := Nat.exists_eq_succ_of_ne_zero hpos.ne'
  rw [glyphPixels, hn, List.range_succ_eq_map, List.flatMap_cons, List.flatMap_map]
  have hrest : (List.range n).flatMap (fun c => (List.range size.toNat).flatMap fun r =>
      bitPixels mode (fonts.bit size num c.succ r) (x.toNat + c.succ) (y.toNat + r)) = [] := by
    refine List.flatMap_eq_nil_iff.2 fun c hc => List.flatMap_eq_nil_iff.2 fun r hr => ?_
    refine bitPixels_eq_nil (fun hshown => ?_) _ _
    have hzero := h c.succ (by have := List.mem_range.1 hc; omega) r (List.mem_range.1 hr) hshown
    exact absurd hzero (Nat.succ_ne_zero c)
  rw [hrest, List.append_nil]
  refine List.flatMap_congr fun r _ => ?_
  rw [fonts_bit_eq, Nat.mul_zero]
  rfl

include hsize hx in
theorem lcdShowchar_columns (hlt : y.toNat + size.toNat < info.lcdHeight.toNat)
    (hrows : y.toNat + size.toNat < 65536) :
    lcdShowchar info fonts x y num size mode = (List.range (size.toNat / 2)).flatMap fun c =>
      bitRun mode (fonts.glyph size num) (8 * (0 + bytesPerColumn size * c)) size.toNat
        (x + BitVec.ofNat 16 c) y := by
  have hcolumns := (supportedSizes_bounds hsize).1
  rw [lcdShowchar_eq hsize, showBytes_columns _ _ _ (by omega) hrows hlt hx]

include hsize hx in
/-- Above the bottom edge, and with columns that do not wrap, the points are those
of the glyph. -/
theorem lcdShowchar_glyph (hlt : y.toNat + size.toNat < info.lcdHeight.toNat)
    (hrows : y.toNat + size.toNat < 65536)
    (h : ∀ c < size.toNat / 2, ∀ r < size.toNat, Shown mode (fonts.bit size num c r) →
      x.toNat + c < 65536) :
    lcdShowchar info fonts x y num size mode = glyphPixels fonts x y num size mode := by
  rw [lcdShowchar_columns hsize hx hlt hrows]
  refine List.flatMap_congr fun c hc => ?_
  have hc := List.mem_range.1 hc
  rw [bitRun_eq (fun i hi _ => by omega) (x.toNat + c) fun i hi hshown => ?_]
  · exact List.flatMap_congr fun r _ => by rw [fonts_bit_eq]
  · rw [← fonts_bit_eq] at hshown
    exact toNat_add_ofNat_of_lt (h c hc i hi hshown)

include hsize hx in
/-- Above the bottom edge. -/
theorem lcdShowchar_above (hlt : y.toNat + size.toNat < info.lcdHeight.toNat)
    (hrows : y.toNat + size.toNat < 65536) :
    (lcdShowchar info fonts x y num size mode).Perm (glyphPixels fonts x y num size mode) ↔
      ∀ c < size.toNat / 2, ∀ r < size.toNat, Shown mode (fonts.bit size num c r) →
        x.toNat + c < 65536 := by
  refine ⟨fun hperm c hc r hr hshown => ?_, fun h => .of_eq (lcdShowchar_glyph hsize hx hlt hrows h)⟩
  rw [lcdShowchar_columns hsize hx hlt hrows] at hperm
  by_contra hover
  rw [fonts_bit_eq] at hshown
  obtain ⟨p, hp, hpx, -⟩ := hshown.mem_bitRun hr (x + BitVec.ofNat 16 c) y
  obtain ⟨c', -, r', -, hp'⟩ := mem_glyphPixels.1
    (hperm.subset (List.mem_flatMap.2 ⟨c, List.mem_range.2 hc, hp⟩))
  have hpx' := (mem_bitPixels hp').1
  rw [hpx, toNat_add_ofNat] at hpx'
  have hxlt := x.isLt
  omega

include hsize in
/-- At the bottom edge: the first column. -/
theorem lcdShowchar_bottom (heq : y.toNat + size.toNat = info.lcdHeight.toNat)
    (hrows : y.toNat + size.toNat < 65536) :
    (lcdShowchar info fonts x y num size mode).Perm (glyphPixels fonts x y num size mode) ↔
      ∀ c < size.toNat / 2, ∀ r < size.toNat, Shown mode (fonts.bit size num c r) → c = 0 := by
  obtain ⟨hcolumns, -⟩ := supportedSizes_bounds hsize
  have hdrawn : lcdShowchar info fonts x y num size mode =
      bitRun mode (fonts.glyph size num) 0 size.toNat x y := by
    obtain ⟨n, hn⟩ := Nat.exists_eq_succ_of_ne_zero (by omega : size.toNat / 2 ≠ 0)
    rw [lcdShowchar_eq hsize, hn, Nat.mul_succ, Nat.add_comm, bytesPerColumn_eq (by omega)]
    refine showBytes_bottom _ ((size.toNat - 1) % 8) (Nat.mod_lt _ (by decide)) (by omega)
      (fun i hi => goesOn_column hrows heq.le (by omega)) _ 0 x ?_
    rw [toNat_add_ofNat_of_lt hrows]
    exact heq.ge
  rw [hdrawn]
  constructor
  · intro hperm c hc r hr hshown
    obtain ⟨p, hp, hpx, -⟩ := hshown.mem_glyphPixels (x := x) (y := y) hc hr
    obtain ⟨-, -, hpx', -⟩ := mem_bitRun (hperm.symm.subset hp)
    omega
  · intro h
    rw [glyphPixels_column (by omega) h]
    exact .of_eq (bitRun_eq (fun i hi _ => by omega) _ fun _ _ _ => rfl)

include hsize in
theorem size_le_bytes : size.toNat ≤ 8 * (bytesPerColumn size * (size.toNat / 2)) := by
  have hpos : 0 < size.toNat / 2 := by
    have := supportedSizes_bounds hsize
    omega
  have hbytes : size.toNat ≤ 8 * bytesPerColumn size := by
    unfold bytesPerColumn
    omega
  exact hbytes.trans (Nat.mul_le_mul_left 8 (Nat.le_mul_of_pos_right _ hpos))

include hsize hy in
/-- Rows that wrap: all bits in one column. -/
theorem lcdShowchar_wrap_eq (hrows : 65536 ≤ y.toNat + size.toNat) :
    lcdShowchar info fonts x y num size mode =
      bitRun mode (fonts.glyph size num) 0 (8 * (bytesPerColumn size * (size.toNat / 2))) x y := by
  have hbits := (supportedSizes_bounds hsize).2
  have hylt := y.isLt
  rw [lcdShowchar_eq hsize]
  refine (showBytes_run _ 0 0 fun i _ => ?_).trans (List.append_nil _)
  have hlt := (y + BitVec.ofNat 16 (i + 1)).isLt
  exact ⟨by omega, by omega⟩

include hsize in
/-- In one column a shown bit behind the end of a column is out of place. -/
theorem padding_clear (hrows : 65536 ≤ y.toNat + size.toNat)
    (hsub : bitRun mode (fonts.glyph size num) 0 (8 * (bytesPerColumn size * (size.toNat / 2))) x y ⊆
      glyphPixels fonts x y num size mode) {c r : ℕ} (hc : c < size.toNat / 2)
    (hr : r < 8 * bytesPerColumn size) (hpadding : size.toNat ≤ r) :
    fonts.bit size num c r = false := by
  have hbits := (supportedSizes_bounds hsize).2
  have hylt := y.isLt
  by_contra hset
  have hbit : Shown mode (fonts.bit size num c r) := .inl (Bool.eq_true_of_not_eq_false hset)
  have hcell : bytesPerColumn size * (c + 1) ≤ bytesPerColumn size * (size.toNat / 2) :=
    Nat.mul_le_mul_left _ hc
  rw [Nat.mul_succ] at hcell
  rw [fonts_bit_eq, Nat.zero_add, ← Nat.zero_add (8 * _ + r)] at hbit
  obtain ⟨p, hp, -, hpy⟩ := hbit.mem_bitRun
    (m := 8 * (bytesPerColumn size * (size.toNat / 2))) (by omega) x y
  obtain ⟨c', -, r', -, hp'⟩ := mem_glyphPixels.1 (hsub hp)
  have hpy' := (mem_bitPixels hp').2.1
  rw [hpy, toNat_add_ofNat] at hpy'
  omega

include hsize in
/-- With the bits of the first column only and clear ends of the columns, nothing
behind the first column is shown. -/
theorem not_shown_behind
    (hshown : ∀ c < size.toNat / 2, ∀ r < size.toNat, Shown mode (fonts.bit size num c r) → c = 0)
    (hpadding : ∀ c < size.toNat / 2, ∀ r < 8 * bytesPerColumn size, size.toNat ≤ r →
      fonts.bit size num c r = false) {j : ℕ} (hj : size.toNat ≤ j)
    (hlt : j < 8 * (bytesPerColumn size * (size.toNat / 2))) :
    ¬ Shown mode (glyphBit (fonts.glyph size num) j) := by
  intro hbit
  have hcolumns := (supportedSizes_bounds hsize).1
  have hpos : 0 < 8 * bytesPerColumn size := by
    unfold bytesPerColumn
    omega
  have hc : j / (8 * bytesPerColumn size) < size.toNat / 2 :=
    Nat.div_lt_of_lt_mul (by rwa [Nat.mul_assoc])
  have hr : j % (8 * bytesPerColumn size) < 8 * bytesPerColumn size := Nat.mod_lt _ hpos
  have hj' : glyphBit (fonts.glyph size num) j = fonts.bit size num (j / (8 * bytesPerColumn size))
      (j % (8 * bytesPerColumn size)) := by
    rw [Fonts.bit, Nat.div_add_mod]
  rw [hj'] at hbit
  by_cases hin : j % (8 * bytesPerColumn size) < size.toNat
  · have hzero := hshown _ hc _ hin hbit
    rw [Nat.mod_eq_of_lt ((Nat.div_eq_zero_iff_lt hpos).1 hzero)] at hin
    omega
  · rw [hpadding _ hc _ hr (Nat.not_lt.1 hin)] at hbit
    -- in mode 0 the second column would be drawn
    have hsecond := hshown 1 (by omega) 0 (by omega) (.inr (hbit.resolve_left nofun))
    omega

include hsize hy in
theorem lcdShowchar_wrap (hrows : 65536 ≤ y.toNat + size.toNat) :
    (lcdShowchar info fonts x y num size mode).Perm (glyphPixels fonts x y num size mode) ↔
      (∀ c < size.toNat / 2, ∀ r < size.toNat, Shown mode (fonts.bit size num c r) →
        c = 0 ∧ y.toNat + r < 65536) ∧
      ∀ c < size.toNat / 2, ∀ r < 8 * bytesPerColumn size, size.toNat ≤ r →
        fonts.bit size num c r = false := by
  have hcolumns := (supportedSizes_bounds hsize).1
  rw [lcdShowchar_wrap_eq hsize hy hrows]
  constructor
  · intro hperm
    refine ⟨fun c hc r hr hshown => ?_, fun c hc r hr hend =>
      padding_clear hsize hrows hperm.subset hc hr hend⟩
    obtain ⟨p, hp, hpx, hpy⟩ := hshown.mem_glyphPixels (x := x) (y := y) hc hr
    obtain ⟨i, -, hpx', hpy', -⟩ := mem_bitRun (hperm.symm.subset hp)
    have hlt := (y + BitVec.ofNat 16 i).isLt
    omega
  · rintro ⟨hshown, hpadding⟩
    have hcolumn := fun c hc r hr hbit => (hshown c hc r hr hbit).1
    have hfirst : bitRun mode (fonts.glyph size num) 0 size.toNat x y =
        glyphPixels fonts x y num size mode := by
      rw [glyphPixels_column (by omega) hcolumn]
      refine bitRun_eq (fun i hi hbit => ?_) x.toNat fun _ _ _ => rfl
      refine (hshown 0 (by omega) i hi ?_).2
      rw [fonts_bit_eq]
      exact hbit
    obtain ⟨n, hn⟩ := Nat.exists_eq_add_of_le (size_le_bytes hsize)
    have hrest : bitRun mode (fonts.glyph size num) (0 + size.toNat) n x
        (y + BitVec.ofNat 16 size.toNat) = [] := by
      refine List.flatMap_eq_nil_iff.2 fun i hi => bitPixels_eq_nil ?_ _ _
      have hi := List.mem_range.1 hi
      exact not_shown_behind hsize hcolumn hpadding (by omega) (by omega)
    rw [hn, bitRun_add, hfirst, hrest, List.append_nil]

end Cases

/-- **A glyph on the screen is drawn completely exactly when** its bits reach
their places. -/
theorem showchar_complete_iff (info : LcdInfo) (fonts : Fonts) (x y : BitVec 16) (num size mode : Byte)
    (hsize : size ∈ supportedSizes) (hx : x.toNat + size.toNat / 2 ≤ info.lcdWidth.toNat)
    (hy : y.toNat + size.toNat ≤ info.lcdHeight.toNat) :
    (lcdShowchar info fonts x y num size mode).Perm (glyphPixels fonts x y num size mode) ↔
      GlyphReached info fonts x y num size mode := by
  have hplace : ∀ c, c = 0 → x.toNat + c < 65536 := by
    rintro c rfl
    exact x.isLt
  by_cases hrows : y.toNat + size.toNat < 65536
  · rcases Nat.lt_or_eq_of_le hy with hlt | heq
    · rw [lcdShowchar_above hsize hx hlt hrows]
      constructor
      · intro h
        exact ⟨fun c hc r hr hshown => ⟨h c hc r hr hshown, by omega, .inr ⟨hlt, hrows⟩⟩,
          fun hwrap => absurd hrows (Nat.not_lt.2 hwrap)⟩
      · exact fun h c hc r hr hshown => (h.shown c hc r hr hshown).1
    · rw [lcdShowchar_bottom hsize heq hrows]
      constructor
      · intro h
        refine ⟨fun c hc r hr hshown => ?_, fun hwrap => absurd hrows (Nat.not_lt.2 hwrap)⟩
        exact ⟨hplace c (h c hc r hr hshown), by omega, .inl (h c hc r hr hshown)⟩
      · intro h c hc r hr hshown
        exact (h.shown c hc r hr hshown).2.2.resolve_right fun hlt => hlt.1.ne heq
  · rw [lcdShowchar_wrap hsize hy (Nat.not_lt.1 hrows)]
    constructor
    · rintro ⟨hshown, hpadding⟩
      refine ⟨fun c hc r hr hbit => ?_, fun _ => hpadding⟩
      obtain ⟨hzero, hrow⟩ := hshown c hc r hr hbit
      exact ⟨hplace c hzero, hrow, .inl hzero⟩
    · intro h
      refine ⟨fun c hc r hr hbit => ?_, h.padding (Nat.not_lt.1 hrows)⟩
      obtain ⟨-, hrow, hcolumn⟩ := h.shown c hc r hr hbit
      exact ⟨hcolumn.resolve_right fun hlt => hrows hlt.2, hrow⟩

/-- The 'A' of `asc2_1206`. -/
def letterFonts : Fonts where
  asc2_1206 num t := if num = 33 then
    [0x00, 0x40, 0x07, 0xC0, 0x39, 0x00, 0x0F, 0x00, 0x01, 0xC0, 0x00, 0x40].getD t 0 else 0
  asc2_1608 _ _ := 0
  asc2_2412 _ _ := 0
  asc2_3216 _ _ := 0

theorem showchar_complete_letter :
    (lcdShowchar ⟨480, 800⟩ letterFonts 468 787 0x41 12 1).Perm
      (glyphPixels letterFonts 468 787 0x41 12 1) := by
  refine (showchar_complete_iff ⟨480, 800⟩ letterFonts 468 787 0x41 12 1 (by decide) (by decide)
    (by decide)).2 ⟨fun c hc r hr _ => ?_, fun hwrap => absurd hwrap (by decide)⟩
  have hc : c < 6 := hc
  have hr : r < 12 := hr
  exact ⟨by show 468 + c < _; omega, by show 787 + r < _; omega, .inr (by decide)⟩

/-- One row lower it touches the bottom edge. -/
theorem showchar_bottom_edge : ¬ ∀ (info : LcdInfo) (fonts : Fonts) (x y : BitVec 16) (num size mode : Byte),
    0x20 ≤ num → num ≤ 0x7E → size ∈ supportedSizes → mode = 0 ∨ mode = 1 →
    x.toNat + size.toNat / 2 ≤ info.lcdWidth.toNat → y.toNat + size.toNat ≤ info.lcdHeight.toNat →
    (lcdShowchar info fonts x y num size mode).Perm (glyphPixels fonts x y num size mode) := by
  intro h
  have hperm := h ⟨480, 800⟩ letterFonts 468 788 0x41 12 0 (by decide) (by decide) (by decide)
    (.inl rfl) (by decide) (by decide)
  exact absurd hperm.length_eq (by decide +kernel)

end Stm32Handler.Lcd
