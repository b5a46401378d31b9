import Mathlib.Data.Set.Function
import Stm32Handler.Lcd.ShowChar
import Stm32Handler.Lib.Raster
import Stm32Handler.Lib.Run

/-!
# The panel behind the driver

The driver reaches the NT35510 through two addresses: a store to `LCD_REG`
selects a register, a store to `LCD_RAM` goes to the selected one. The panel
keeps its registers; the store of `2C00h` starts a memory write at the start of
the window (`2A00h`..`2A03h` by `2B00h`..`2B03h`), and each pixel then moves the
write pointer on. Where a place of the window is in the frame memory depends on
register `3600h`; a `Placement` is any such map that is a bijection onto the
480 by 800 cells, rows and columns exchanged with bit 5. `nt35510` is the
controller's own.

What the calls say is a `Picture`, which knows of the directions by their names
and of a character by the bits of its glyph. `PortInv` ties the driver's
`LCD_INFO` to the panel's registers; under it the bus writes of a call do to the
frame memory what the call does to the picture, in every direction
(`panel_shows`).
-/

namespace Stm32Handler.Lcd

/-- A store to `LCD->LCD_REG` or `LCD->LCD_RAM`. -/
inductive BusWrite where
  | reg (v : BitVec 16)
  | ram (v : BitVec 16)

/-! ## The panel -/

/-- Bit 5 of `3600h`: rows and columns are exchanged. -/
def exchanged (mode : BitVec 16) : Bool := mode.getLsbD 5

def columns (mode : BitVec 16) : ℕ := if exchanged mode then 800 else 480

def rows (mode : BitVec 16) : ℕ := if exchanged mode then 480 else 800

/-- The cells of the frame memory. -/
def frameCells : Set (ℕ × ℕ) := {q | q.1 < 480 ∧ q.2 < 800}

/-- Where the places of the window are in the frame memory. -/
structure Placement where
  place : BitVec 16 → ℕ × ℕ → ℕ × ℕ
  bijOn : ∀ mode, Set.BijOn (place mode) {p | p.1 < columns mode ∧ p.2 < rows mode} frameCells

structure Panel where
  /-- the selected register -/
  selected : BitVec 16
  registers : BitVec 16 → BitVec 16
  pointer : ℕ × ℕ
  memory : ℕ × ℕ → BitVec 16

namespace Panel

/-- Two registers of eight bits. -/
def number (p : Panel) (r : BitVec 16) : ℕ :=
  (p.registers r).toNat % 256 * 256 + (p.registers (r + 1)).toNat % 256

def mode (p : Panel) : BitVec 16 := p.registers 0x3600

/-- A store to one of the two addresses. -/
def write (pl : Placement) (p : Panel) : BusWrite → Panel
  | .reg v =>
    { p with
      selected := v
      pointer := if v = 0x2C00 then (p.number 0x2A00, p.number 0x2B00) else p.pointer }
  | .ram v =>
    if p.selected = 0x2C00 then
      { p with
        memory := Function.update p.memory (pl.place p.mode p.pointer) v
        pointer := Raster.advance (p.number 0x2A00) (p.number 0x2A02) (p.number 0x2B00) (p.number 0x2B02)
          p.pointer }
    else { p with registers := Function.update p.registers p.selected v }

def run (pl : Placement) (p : Panel) (ws : List BusWrite) : Panel := ws.foldl (write pl) p

end Panel

/-! ## `drv_lcd.c` -/

/-- `LCD_INFO` without the identification. -/
structure LcdPort extends LcdInfo where
  lcdDir : BitVec 16
  wramcmd : BitVec 16
  setxcmd : BitVec 16
  setycmd : BitVec 16

def lcdWrReg (regval : BitVec 16) : List BusWrite := [.reg regval]

def lcdWrData (data : BitVec 16) : List BusWrite := [.ram data]

def lcdWrRegData (reg data : BitVec 16) : List BusWrite := [.reg reg, .ram data]

def lcdSetcursor (info : LcdPort) (xpos ypos : BitVec 16) : List BusWrite :=
  lcdWrReg info.setxcmd ++ lcdWrData (xpos >>> 8) ++ lcdWrReg (info.setxcmd + 1) ++ lcdWrData (xpos &&& 0xFF) ++
    lcdWrReg info.setycmd ++ lcdWrData (ypos >>> 8) ++ lcdWrReg (info.setycmd + 1) ++ lcdWrData (ypos &&& 0xFF)

def lcdWriteRamPrepare (info : LcdPort) : List BusWrite := [.reg info.wramcmd]

/-- `lcd_driver_clear`; the store to `LCD_RAM` keeps the low half of `color`. -/
def lcdDriverClear (info : LcdPort) (color : BitVec 32) : List BusWrite :=
  let totalpoint := info.lcdWidth * info.lcdHeight
  lcdSetcursor info 0 0 ++ lcdWriteRamPrepare info ++
    List.replicate totalpoint.toNat (.ram (color.setWidth 16))

/-- The stores of `lcd_fast_drawpoint`. -/
def fastDrawpoint (info : LcdPort) (x y : BitVec 16) (color : BitVec 32) : List BusWrite :=
  lcdWrReg info.setxcmd ++ lcdWrData (x >>> 8) ++ lcdWrReg (info.setxcmd + 1) ++ lcdWrData (x &&& 0xFF) ++
    lcdWrReg info.setycmd ++ lcdWrData (y >>> 8) ++ lcdWrReg (info.setycmd + 1) ++ lcdWrData (y &&& 0xFF) ++
    [.reg info.wramcmd, .ram (color.setWidth 16)]

/-- The `switch` of `lcd_scan_dir`. -/
def scanRegval (dir : BitVec 8) : BitVec 16 :=
  match dir.toNat with
  | 0 => 0 <<< 7 ||| 0 <<< 6 ||| 0 <<< 5
  | 1 => 1 <<< 7 ||| 0 <<< 6 ||| 0 <<< 5
  | 2 => 0 <<< 7 ||| 1 <<< 6 ||| 0 <<< 5
  | 3 => 1 <<< 7 ||| 1 <<< 6 ||| 0 <<< 5
  | 4 => 0 <<< 7 ||| 0 <<< 6 ||| 1 <<< 5
  | 5 => 0 <<< 7 ||| 1 <<< 6 ||| 1 <<< 5
  | 6 => 1 <<< 7 ||| 0 <<< 6 ||| 1 <<< 5
  | 7 => 1 <<< 7 ||| 1 <<< 6 ||| 1 <<< 5
  | _ => 0

/-- The exchange of width and height, through the 16-bit `temp`. -/
def LcdPort.swap (info : LcdPort) : LcdPort :=
  let temp : BitVec 16 := info.lcdWidth.setWidth 16
  { info with lcdWidth := info.lcdHeight, lcdHeight := temp.setWidth 32 }

/-- The end of `lcd_scan_dir`: the screen region. -/
def scanRegion (info : LcdPort) : List BusWrite :=
  lcdWrReg info.setxcmd ++ lcdWrData 0 ++ lcdWrReg (info.setxcmd + 1) ++ lcdWrData 0 ++
    lcdWrReg (info.setxcmd + 2) ++ lcdWrData (((info.lcdWidth - 1) >>> 8).setWidth 16) ++
    lcdWrReg (info.setxcmd + 3) ++ lcdWrData (((info.lcdWidth - 1) &&& 0xFF).setWidth 16) ++
    lcdWrReg info.setycmd ++ lcdWrData 0 ++ lcdWrReg (info.setycmd + 1) ++ lcdWrData 0 ++
    lcdWrReg (info.setycmd + 2) ++ lcdWrData (((info.lcdHeight - 1) >>> 8).setWidth 16) ++
    lcdWrReg (info.setycmd + 3) ++ lcdWrData (((info.lcdHeight - 1) &&& 0xFF).setWidth 16)

/-- `lcd_scan_dir` -/
def lcdScanDir (info : LcdPort) (dir : BitVec 8) : LcdPort × List BusWrite :=
  let regval := scanRegval dir
  let info' :=
    if regval &&& 0x20 ≠ 0 then
      if info.lcdWidth.toNat < info.lcdHeight.toNat then info.swap else info
    else if info.lcdWidth.toNat > info.lcdHeight.toNat then info.swap else info
  (info', lcdWrRegData 0x3600 regval ++ scanRegion info')

/-- `lcd_display_dir`, which scans in `DFT_SCAN_DIR` whatever `dir` is. -/
def lcdDisplayDir (info : LcdPort) (dir : BitVec 8) : LcdPort × List BusWrite :=
  let info : LcdPort :=
    { info with
      lcdDir := dir.setWidth 16
      wramcmd := 0x2C00
      setxcmd := 0x2A00
      setycmd := 0x2B00
      lcdWidth := if dir = 0 then 480 else 800
      lcdHeight := if dir = 0 then 800 else 480 }
  lcdScanDir info 0

/-! ## Runs of calls -/

inductive LcdCall where
  | clear (color : BitVec 32)
  | showchar (x y : BitVec 16) (num size mode : Byte)
  | scanDir (dir : BitVec 8)
  | displayDir (dir : BitVec 8)

/-- A call: the new `LCD_INFO` and the stores on the bus. -/
def LcdPort.call (info : LcdPort) (fonts : Fonts) : LcdCall → LcdPort × List BusWrite
  | .clear color => (info, lcdDriverClear info color)
  | .showchar x y num size mode =>
    (info, (lcdShowchar info.toLcdInfo fonts x y num size mode).flatMap fun p =>
      fastDrawpoint info (BitVec.ofNat 16 p.x) (BitVec.ofNat 16 p.y) p.color)
  | .scanDir dir => lcdScanDir info dir
  | .displayDir dir => lcdDisplayDir info dir

def lcdStep (pl : Placement) (fonts : Fonts) (s : LcdPort × Panel) (c : LcdCall) :
    Option (LcdPort × Panel) :=
  some ((s.1.call fonts c).1, s.2.run pl (s.1.call fonts c).2)

/-! ## What the calls say -/

/-- The directions of `drv_lcd.h`: how the points of a line follow each other,
and how the lines do. -/
inductive ScanDir where
  | l2rU2d
  | l2rD2u
  | r2lU2d
  | r2lD2u
  | u2dL2r
  | u2dR2l
  | d2uL2r
  | d2uR2l

namespace ScanDir

/-- Other numbers mean the first direction. -/
def ofNat : ℕ → ScanDir
  | 1 => .l2rD2u
  | 2 => .r2lU2d
  | 3 => .r2lD2u
  | 4 => .u2dL2r
  | 5 => .u2dR2l
  | 6 => .d2uL2r
  | 7 => .d2uR2l
  | _ => .l2rU2d

/-- Points in a line. -/
def width : ScanDir → ℕ
  | .l2rU2d | .l2rD2u | .r2lU2d | .r2lD2u => 480
  | .u2dL2r | .u2dR2l | .d2uL2r | .d2uR2l => 800

/-- Lines. -/
def height : ScanDir → ℕ
  | .l2rU2d | .l2rD2u | .r2lU2d | .r2lD2u => 800
  | .u2dL2r | .u2dR2l | .d2uL2r | .d2uR2l => 480

/-- The column and row, from the top left corner of the panel, of a point and
its line. -/
def cell : ScanDir → ℕ × ℕ → ℕ × ℕ
  | .l2rU2d, (x, y) => (x, y)
  | .l2rD2u, (x, y) => (x, 799 - y)
  | .r2lU2d, (x, y) => (479 - x, y)
  | .r2lD2u, (x, y) => (479 - x, 799 - y)
  | .u2dL2r, (x, y) => (y, x)
  | .u2dR2l, (x, y) => (479 - y, x)
  | .d2uL2r, (x, y) => (y, 799 - x)
  | .d2uR2l, (x, y) => (479 - y, 799 - x)

end ScanDir

/-- The cells of the panel, and the direction of what is drawn next. -/
structure Picture where
  dir : ScanDir
  cells : ℕ × ℕ → BitVec 16

namespace Picture

/-- A point, with the low half of its colour. -/
def point (pic : Picture) (q : Pixel) : Picture :=
  { pic with cells := Function.update pic.cells (pic.dir.cell (q.x, q.y)) (q.color.setWidth 16) }

/-- `lcd_display_dir` ends in the first direction, whatever it is called with. -/
def call (fonts : Fonts) (pic : Picture) : LcdCall → Picture
  | .clear color =>
    { pic with cells := fun q => if q.1 < 480 ∧ q.2 < 800 then color.setWidth 16 else pic.cells q }
  | .showchar x y num size mode => (glyphPixels fonts x y num size mode).foldl point pic
  | .scanDir dir => { pic with dir := .ofNat dir.toNat }
  | .displayDir _ => { pic with dir := .l2rU2d }

/-- A character is one of the fonts', and its glyph ends above the last line. -/
def Fits (pic : Picture) : LcdCall → Prop
  | .showchar x y num size _ => (0x20 ≤ num ∧ num ≤ 0x7E) ∧ size ∈ supportedSizes ∧
      x.toNat + size.toNat / 2 ≤ pic.dir.width ∧ y.toNat + size.toNat < pic.dir.height
  | .clear _ | .scanDir _ | .displayDir _ => True

def step (fonts : Fonts) (pic : Picture) (c : LcdCall) : Option Picture := some (pic.call fonts c)

end Picture

/-! ## The driver's numbers -/

/-- The frame memory and register `3600h`, which says how it is written. -/
structure Canvas where
  mode : BitVec 16
  memory : ℕ × ℕ → BitVec 16

/-- The size of the screen in a scan direction. -/
def screenInfo (mode : BitVec 16) : LcdInfo :=
  ⟨BitVec.ofNat 32 (columns mode), BitVec.ofNat 32 (rows mode)⟩

/-- A point on the canvas, with the low half of its colour. -/
def Canvas.point (pl : Placement) (c : Canvas) (p : Pixel) : Canvas :=
  { c with memory := Function.update c.memory (pl.place c.mode (p.x, p.y)) (p.color.setWidth 16) }

/-- What the panel shows. -/
def Panel.canvas (p : Panel) : Canvas := ⟨p.mode, p.memory⟩

/-- The driver's numbers fit the panel's registers. -/
structure PortInv (info : LcdPort) (p : Panel) : Prop where
  wramcmd : info.wramcmd = 0x2C00
  setxcmd : info.setxcmd = 0x2A00
  setycmd : info.setycmd = 0x2B00
  size : info.toLcdInfo = screenInfo p.mode
  xEnd : p.number 0x2A02 = columns p.mode - 1
  yEnd : p.number 0x2B02 = rows p.mode - 1

theorem size_cases (mode : BitVec 16) :
    columns mode = 480 ∧ rows mode = 800 ∨ columns mode = 800 ∧ rows mode = 480 := by
  unfold columns rows
  split
  · exact .inr ⟨rfl, rfl⟩
  · exact .inl ⟨rfl, rfl⟩

/-! ### The window -/

/-- A number in its two registers. -/
theorem number_halves (x : BitVec 16) :
    (x >>> 8).toNat % 256 * 256 + (x &&& 0xFF).toNat % 256 = x.toNat := by
  have hx := x.isLt
  have hand : x.toNat &&& 255 = x.toNat % 256 := Nat.and_two_pow_sub_one_eq_mod x.toNat 8
  rw [BitVec.toNat_ushiftRight, BitVec.toNat_and, Nat.shiftRight_eq_div_pow]
  show x.toNat / 2 ^ 8 % 256 * 256 + (x.toNat &&& 255) % 256 = x.toNat
  omega

section Port

variable {pl : Placement} {info : LcdPort} {p : Panel}

theorem run_append (ws vs : List BusWrite) : p.run pl (ws ++ vs) = (p.run pl ws).run pl vs :=
  List.foldl_append

/-- The stores of `lcd_setcursor` change the start of the window and nothing else. -/
theorem run_setcursor (h : PortInv info p) (x y : BitVec 16) :
    (p.run pl (lcdSetcursor info x y)).canvas = p.canvas ∧
      PortInv info (p.run pl (lcdSetcursor info x y)) ∧
      (p.run pl (lcdSetcursor info x y)).number 0x2A00 = x.toNat ∧
      (p.run pl (lcdSetcursor info x y)).number 0x2B00 = y.toNat := by
  obtain ⟨hw, hx, hy, hsize, hxe, hye⟩ := h
  have hrun : p.run pl (lcdSetcursor info x y) =
      { p with
        selected := 0x2B01
        registers := Function.update (Function.update (Function.update (Function.update p.registers
          0x2A00 (x >>> 8)) 0x2A01 (x &&& 0xFF)) 0x2B00 (y >>> 8)) 0x2B01 (y &&& 0xFF) } := by
    simp [Panel.run, lcdSetcursor, lcdWrReg, lcdWrData, Panel.write, hx, hy]
  rw [hrun]
  refine ⟨by simp [Panel.canvas, Panel.mode],
    ⟨hw, hx, hy, ?_, ?_, ?_⟩, ?_, ?_⟩
  · simpa [Panel.mode, Function.update_apply] using hsize
  · simpa [Panel.number, Panel.mode, Function.update_apply] using hxe
  · simpa [Panel.number, Panel.mode, Function.update_apply] using hye
  · simpa [Panel.number, Function.update_apply] using number_halves x
  · simpa [Panel.number, Function.update_apply] using number_halves y

/-- A store to `LCD_RAM` while the memory is written. -/
theorem write_ram (hsel : p.selected = 0x2C00) (v : BitVec 16) :
    p.write pl (.ram v) =
      { p with
        memory := Function.update p.memory (pl.place p.mode p.pointer) v
        pointer := Raster.advance (p.number 0x2A00) (p.number 0x2A02) (p.number 0x2B00) (p.number 0x2B02)
          p.pointer } :=
  if_pos hsel

/-- The invariant does not look at the pointer, the selection or the memory. -/
theorem PortInv.congr (h : PortInv info p) {p' : Panel} (hregs : p'.registers = p.registers) :
    PortInv info p' := by
  have hmode : p'.mode = p.mode := congrFun hregs _
  have hnumber : ∀ r, p'.number r = p.number r := fun r => by
    unfold Panel.number
    rw [hregs]
  refine ⟨h.wramcmd, h.setxcmd, h.setycmd, ?_, ?_, ?_⟩
  · rw [hmode, h.size]
  · rw [hnumber, hmode, h.xEnd]
  · rw [hnumber, hmode, h.yEnd]

/-- **A point**: one cell of the frame memory changes. -/
theorem run_fastDrawpoint (h : PortInv info p) (x y : BitVec 16) (color : BitVec 32) :
    PortInv info (p.run pl (fastDrawpoint info x y color)) ∧
      (p.run pl (fastDrawpoint info x y color)).canvas = p.canvas.point pl ⟨x.toNat, y.toNat, color⟩ := by
  have hcut : fastDrawpoint info x y color =
      lcdSetcursor info x y ++ [.reg info.wramcmd, .ram (color.setWidth 16)] := rfl
  obtain ⟨hcanvas, hinv, hxs, hys⟩ := @run_setcursor pl _ _ h x y
  rw [hcut, run_append]
  generalize p.run pl (lcdSetcursor info x y) = p1 at hcanvas hinv hxs hys
  have hprepare : p1.write pl (.reg info.wramcmd) =
      { p1 with selected := 0x2C00, pointer := (x.toNat, y.toNat) } := by
    simp only [Panel.write, hinv.wramcmd, hxs, hys, if_true]
  show PortInv info ((p1.write pl (.reg info.wramcmd)).write pl (.ram (color.setWidth 16))) ∧
    ((p1.write pl (.reg info.wramcmd)).write pl (.ram (color.setWidth 16))).canvas = _
  rw [hprepare, write_ram rfl]
  refine ⟨hinv.congr rfl, ?_⟩
  have hmode : p1.mode = p.mode := congrArg Canvas.mode hcanvas
  have hmemory : p1.memory = p.memory := congrArg Canvas.memory hcanvas
  show (⟨p1.mode, Function.update p1.memory (pl.place p1.mode (x.toNat, y.toNat)) _⟩ : Canvas) = _
  rw [hmode, hmemory]
  rfl

/-! ### The calls -/

/-- Points drawn one after the other. -/
theorem run_points (h : PortInv info p) (ps : List Pixel)
    (hps : ∀ q ∈ ps, q.x < 65536 ∧ q.y < 65536) :
    PortInv info (p.run pl (ps.flatMap fun q =>
        fastDrawpoint info (BitVec.ofNat 16 q.x) (BitVec.ofNat 16 q.y) q.color)) ∧
      (p.run pl (ps.flatMap fun q =>
        fastDrawpoint info (BitVec.ofNat 16 q.x) (BitVec.ofNat 16 q.y) q.color)).canvas =
        ps.foldl (Canvas.point pl) p.canvas := by
  induction ps generalizing p with
  | nil => exact ⟨h, rfl⟩
  | cons q ps ih =>
    obtain ⟨hq, hps⟩ := List.forall_mem_cons.1 hps
    obtain ⟨hinv, hcanvas⟩ := @run_fastDrawpoint pl _ _ h (BitVec.ofNat 16 q.x) (BitVec.ofNat 16 q.y) q.color
    rw [BitVec.toNat_ofNat, BitVec.toNat_ofNat, Nat.mod_eq_of_lt hq.1, Nat.mod_eq_of_lt hq.2] at hcanvas
    rw [List.flatMap_cons, run_append, List.foldl_cons, ← hcanvas]
    exact ih hinv hps

/-- The stores of the sweep, from its place `k` on. -/
theorem run_sweep (hsel : p.selected = 0x2C00) (hx0 : p.number 0x2A00 = 0) (hy0 : p.number 0x2B00 = 0)
    (h : PortInv info p) (v : BitVec 16) (n k : ℕ) (hk : k + n ≤ columns p.mode * rows p.mode)
    (hat : 0 < n → p.pointer = (k % columns p.mode, k / columns p.mode)) :
    (p.run pl (List.replicate n (.ram v))).registers = p.registers ∧
      (p.run pl (List.replicate n (.ram v))).memory =
        Raster.fill p.memory v ((List.range n).map fun j =>
          pl.place p.mode ((k + j) % columns p.mode, (k + j) / columns p.mode)) := by
  induction n generalizing p k with
  | zero => exact ⟨rfl, rfl⟩
  | succ n ih =>
    have hnext := @write_ram pl _ hsel v
    rw [hx0, hy0, h.xEnd, h.yEnd, hat (Nat.zero_lt_succ n)] at hnext
    have hrest := ih (p := p.write pl (.ram v)) (by rw [hnext]; exact hsel) (by rw [hnext]; exact hx0)
      (by rw [hnext]; exact hy0) (by rw [hnext]; exact h.congr rfl) (k + 1)
      (by rw [hnext]; show k + 1 + n ≤ columns p.mode * rows p.mode; omega)
      (fun hpos => by rw [hnext]; exact Raster.advance_sweep (by omega))
    rw [hnext] at hrest
    obtain ⟨hregs, hmemory⟩ := hrest
    rw [List.replicate_succ]
    show ((p.write pl (.ram v)).run pl _).registers = _ ∧ ((p.write pl (.ram v)).run pl _).memory = _
    rw [hnext, hregs, hmemory, List.range_succ_eq_map, List.map_cons, List.map_map]
    refine ⟨rfl, ?_⟩
    show Raster.fill (Function.update p.memory (pl.place p.mode (k % _, k / _)) v) v _ = _
    have hplaces : ((List.range n).map fun j =>
          pl.place p.mode ((k + 1 + j) % columns p.mode, (k + 1 + j) / columns p.mode)) =
        (List.range n).map ((fun j =>
          pl.place p.mode ((k + j) % columns p.mode, (k + j) / columns p.mode)) ∘ Nat.succ) := by
      refine List.map_congr_left fun j _ => ?_
      show pl.place p.mode ((k + 1 + j) % _, (k + 1 + j) / _) = pl.place p.mode ((k + (j + 1)) % _, (k + (j + 1)) / _)
      rw [Nat.add_right_comm k 1 j, Nat.add_assoc k j 1]
    show Raster.fill _ v ((List.range n).map fun j =>
      pl.place p.mode ((k + 1 + j) % columns p.mode, (k + 1 + j) / columns p.mode)) = _
    rw [hplaces]
    rfl

/-- **`lcd_driver_clear`**: every cell of the frame memory, in every direction. -/
theorem run_clear (h : PortInv info p) (color : BitVec 32) :
    PortInv info (p.run pl (lcdDriverClear info color)) ∧
      (p.run pl (lcdDriverClear info color)).canvas =
        { p.canvas with memory := fun q =>
            if q.1 < 480 ∧ q.2 < 800 then color.setWidth 16 else p.memory q } := by
  have htotal : (info.lcdWidth * info.lcdHeight).toNat = columns p.mode * rows p.mode := by
    have hw : info.lcdWidth = BitVec.ofNat 32 (columns p.mode) := congrArg LcdInfo.lcdWidth h.size
    have hh : info.lcdHeight = BitVec.ofNat 32 (rows p.mode) := congrArg LcdInfo.lcdHeight h.size
    rw [hw, hh]
    obtain ⟨hc, hr⟩ | ⟨hc, hr⟩ := size_cases p.mode <;> rw [hc, hr] <;> rfl
  obtain ⟨hcanvas, hinv, hxs, hys⟩ := @run_setcursor pl _ _ h 0 0
  unfold lcdDriverClear lcdWriteRamPrepare
  rw [run_append, run_append]
  simp only [htotal]
  generalize p.run pl (lcdSetcursor info 0 0) = p1 at hcanvas hinv hxs hys
  have hmode : p1.mode = p.mode := congrArg Canvas.mode hcanvas
  have hmemory : p1.memory = p.memory := congrArg Canvas.memory hcanvas
  have hprepare : p1.run pl [.reg info.wramcmd] = { p1 with selected := 0x2C00, pointer := (0, 0) } := by
    show p1.write pl (.reg info.wramcmd) = _
    simp only [Panel.write, hinv.wramcmd, hxs, hys, if_true]
    rfl
  rw [hprepare]
  obtain ⟨hregs, hmem⟩ := @run_sweep pl info
    { p1 with selected := 0x2C00, pointer := (0, 0) } rfl hxs hys (hinv.congr rfl)
    (color.setWidth 16) (columns p.mode * rows p.mode) 0 (by rw [Nat.zero_add, ← hmode]; exact le_rfl)
    (fun _ => by rw [Nat.zero_mod, Nat.zero_div])
  generalize ({ p1 with selected := 0x2C00, pointer := (0, 0) } : Panel).run pl
    (List.replicate (columns p.mode * rows p.mode) (.ram (color.setWidth 16))) = p2 at hregs hmem
  refine ⟨hinv.congr hregs, ?_⟩
  have hcells : ∀ q : ℕ × ℕ, q ∈ (Raster.sweep (columns p.mode) (columns p.mode * rows p.mode)).map
      (pl.place p.mode) ↔ q.1 < 480 ∧ q.2 < 800 := by
    intro q
    have himage : q ∈ pl.place p.mode '' {r | r.1 < columns p.mode ∧ r.2 < rows p.mode} ↔
        q ∈ frameCells := by
      rw [(pl.bijOn p.mode).image_eq]
    rw [List.mem_map]
    simp only [Raster.mem_sweep_iff]
    exact himage
  have hmode2 : p2.mode = p.mode := (congrFun hregs 0x3600).trans hmode
  have hall : p2.memory = fun q => if q.1 < 480 ∧ q.2 < 800 then color.setWidth 16 else p.memory q := by
    have hplaces : p2.memory = Raster.fill p1.memory (color.setWidth 16)
        ((Raster.sweep (columns p.mode) (columns p.mode * rows p.mode)).map (pl.place p.mode)) := by
      rw [hmem, Raster.sweep, List.map_map, ← hmode]
      simp only [Nat.zero_add]
      rfl
    funext q
    rw [hplaces, Raster.fill_apply, hmemory]
    by_cases hq : q.1 < 480 ∧ q.2 < 800
    · rw [if_pos ((hcells q).2 hq), if_pos hq]
    · rw [if_neg (mt (hcells q).1 hq), if_neg hq]
  show (⟨p2.mode, p2.memory⟩ : Canvas) = _
  rw [hmode2, hall]
  rfl

theorem scanRegval_exchanged (dir : BitVec 8) : scanRegval dir &&& 0x20 ≠ 0 ↔ exchanged (scanRegval dir) = true := by
  revert dir
  decide

/-- The size follows the direction. -/
theorem scanDir_info (hsize : info.toLcdInfo = ⟨480, 800⟩ ∨ info.toLcdInfo = ⟨800, 480⟩) (dir : BitVec 8) :
    (lcdScanDir info dir).1 = { info with toLcdInfo := screenInfo (scanRegval dir) } := by
  obtain ⟨⟨w, h⟩, lcdDir, wramcmd, setxcmd, setycmd⟩ := info
  unfold lcdScanDir screenInfo columns rows
  by_cases hx : exchanged (scanRegval dir) = true
  · simp only [if_pos ((scanRegval_exchanged dir).2 hx), if_pos hx]
    obtain hsize | hsize := hsize <;> cases hsize <;> rfl
  · simp only [if_neg (mt (scanRegval_exchanged dir).1 hx), if_neg hx]
    obtain hsize | hsize := hsize <;> cases hsize <;> rfl

/-- **`lcd_scan_dir`**: the direction changes, the frame memory does not. -/
theorem run_scanDir (hw : info.wramcmd = 0x2C00) (hx : info.setxcmd = 0x2A00) (hy : info.setycmd = 0x2B00)
    (hsize : info.toLcdInfo = ⟨480, 800⟩ ∨ info.toLcdInfo = ⟨800, 480⟩) (dir : BitVec 8) :
    PortInv (lcdScanDir info dir).1 (p.run pl (lcdScanDir info dir).2) ∧
      (p.run pl (lcdScanDir info dir).2).canvas = { p.canvas with mode := scanRegval dir } := by
  have hinfo := scanDir_info hsize dir
  have hwrites : (lcdScanDir info dir).2 =
      lcdWrRegData 0x3600 (scanRegval dir) ++ scanRegion (lcdScanDir info dir).1 := rfl
  rw [hwrites, hinfo]
  generalize scanRegval dir = mode
  have hrun : p.run pl (lcdWrRegData 0x3600 mode ++ scanRegion { info with toLcdInfo := screenInfo mode }) =
      { p with
        selected := 0x2B03
        registers := Function.update (Function.update (Function.update (Function.update
          (Function.update (Function.update (Function.update (Function.update
          (Function.update p.registers 0x3600 mode)
          0x2A00 0) 0x2A01 0) 0x2A02 ((((screenInfo mode).lcdWidth - 1) >>> 8).setWidth 16))
          0x2A03 ((((screenInfo mode).lcdWidth - 1) &&& 0xFF).setWidth 16))
          0x2B00 0) 0x2B01 0) 0x2B02 ((((screenInfo mode).lcdHeight - 1) >>> 8).setWidth 16))
          0x2B03 ((((screenInfo mode).lcdHeight - 1) &&& 0xFF).setWidth 16) } := by
    simp [Panel.run, scanRegion, lcdWrRegData, lcdWrReg, lcdWrData, Panel.write, hx, hy]
  rw [hrun]
  refine ⟨⟨hw, hx, hy, ?_, ?_, ?_⟩, ?_⟩
  · simp [Panel.mode]
  · obtain ⟨hc, hr⟩ | ⟨hc, hr⟩ := size_cases mode <;>
      simp [Panel.number, Panel.mode, screenInfo, hc, hr]
  · obtain ⟨hc, hr⟩ | ⟨hc, hr⟩ := size_cases mode <;>
      simp [Panel.number, Panel.mode, screenInfo, hc, hr]
  · simp [Panel.canvas, Panel.mode]

theorem PortInv.width (h : PortInv info p) :
    info.lcdWidth.toNat = columns p.mode ∧ info.lcdHeight.toNat = rows p.mode := by
  rw [show info.lcdWidth = BitVec.ofNat 32 (columns p.mode) from congrArg LcdInfo.lcdWidth h.size,
    show info.lcdHeight = BitVec.ofNat 32 (rows p.mode) from congrArg LcdInfo.lcdHeight h.size]
  obtain ⟨hc, hr⟩ | ⟨hc, hr⟩ := size_cases p.mode <;> rw [hc, hr] <;> exact ⟨rfl, rfl⟩

/-- **A character** whose glyph ends above the last line. -/
theorem run_showchar (h : PortInv info p) (fonts : Fonts) {x y : BitVec 16} (num : Byte) {size : Byte}
    (mode : Byte) (hsize : size ∈ supportedSizes) (hx : x.toNat + size.toNat / 2 ≤ columns p.mode)
    (hy : y.toNat + size.toNat < rows p.mode) :
    PortInv info (p.run pl (info.call fonts (.showchar x y num size mode)).2) ∧
      (p.run pl (info.call fonts (.showchar x y num size mode)).2).canvas =
        (glyphPixels fonts x y num size mode).foldl (Canvas.point pl) p.canvas := by
  obtain ⟨hwidth, hheight⟩ := h.width
  have hscreen : columns p.mode < 65536 ∧ rows p.mode < 65536 := by
    obtain hcases | hcases := size_cases p.mode <;> omega
  have hdrawn : lcdShowchar info.toLcdInfo fonts x y num size mode = glyphPixels fonts x y num size mode :=
    lcdShowchar_glyph hsize (by rw [hwidth]; exact hx) (by rw [hheight]; exact hy) (by omega)
      fun c hc _ _ _ => by omega
  simp only [LcdPort.call, hdrawn]
  refine run_points h _ fun q hq => ?_
  obtain ⟨c, hc, r, hr, hq⟩ := mem_glyphPixels.1 hq
  obtain ⟨hqx, hqy, -⟩ := mem_bitPixels hq
  omega

end Port

theorem screenInfo_cases (mode : BitVec 16) :
    screenInfo mode = ⟨480, 800⟩ ∨ screenInfo mode = ⟨800, 480⟩ := by
  unfold screenInfo
  obtain ⟨hc, hr⟩ | ⟨hc, hr⟩ := size_cases mode <;> rw [hc, hr]
  · exact .inl rfl
  · exact .inr rfl

/-! ## The controller's placement -/

/-- Bits 7 and 6 of `3600h` turn the row and the column round. -/
def mirror (mode : BitVec 16) (q : ℕ × ℕ) : ℕ × ℕ :=
  (if mode.getLsbD 6 then 479 - q.1 else q.1, if mode.getLsbD 7 then 799 - q.2 else q.2)

theorem mirror_mirror (mode : BitVec 16) {q : ℕ × ℕ} (hq : q ∈ frameCells) :
    mirror mode q ∈ frameCells ∧ mirror mode (mirror mode q) = q := by
  obtain ⟨h1, h2⟩ : q.1 < 480 ∧ q.2 < 800 := hq
  refine ⟨⟨?_, ?_⟩, Prod.ext ?_ ?_⟩ <;> simp only [mirror] <;> split <;> omega

theorem mem_window_iff (mode : BitVec 16) (q : ℕ × ℕ) :
    q ∈ {r : ℕ × ℕ | r.1 < columns mode ∧ r.2 < rows mode} ↔
      (if exchanged mode then q.swap else q) ∈ frameCells := by
  unfold columns rows frameCells
  split
  · exact And.comm
  · exact Iff.rfl

/-- The controller's own placement. -/
def nt35510 : Placement where
  place mode p := mirror mode (if exchanged mode then p.swap else p)
  bijOn mode := by
    refine ⟨fun r hr => (mirror_mirror mode ((mem_window_iff mode r).1 hr)).1, fun r hr r' hr' heq => ?_,
      fun q hq => ⟨if exchanged mode then (mirror mode q).swap else mirror mode q, ?_, ?_⟩⟩
    · have hcell := mirror_mirror mode ((mem_window_iff mode r).1 hr)
      have hcell' := mirror_mirror mode ((mem_window_iff mode r').1 hr')
      have hback := congrArg (mirror mode) heq
      simp only [hcell.2, hcell'.2] at hback
      split at hback
      · exact Prod.swap_injective hback
      · exact hback
    · rw [mem_window_iff]
      split <;> exact (mirror_mirror mode hq).1
    · show mirror mode _ = q
      split <;> exact (mirror_mirror mode hq).2

/-! ## Runs -/

/-- A direction's register value has its size and its cells. -/
theorem scanRegval_dir (dir : BitVec 8) :
    columns (scanRegval dir) = (ScanDir.ofNat dir.toNat).width ∧
      rows (scanRegval dir) = (ScanDir.ofNat dir.toNat).height ∧
      nt35510.place (scanRegval dir) = (ScanDir.ofNat dir.toNat).cell := by
  unfold scanRegval
  match dir.toNat with
  | 0 | 1 | 2 | 3 | 4 | 5 | 6 | 7 => exact ⟨rfl, rfl, rfl⟩
  | n + 8 =>
    have hdefault : ScanDir.ofNat (n + 8) = .l2rU2d := rfl
    rw [hdefault]
    show columns 0 = _ ∧ rows 0 = _ ∧ nt35510.place 0 = _
    exact ⟨rfl, rfl, rfl⟩

/-- The canvas has the cells of the picture, and is written in its direction. -/
structure Shows (c : Canvas) (pic : Picture) : Prop where
  memory : c.memory = pic.cells
  mode : ∃ dir : BitVec 8, c.mode = scanRegval dir ∧ pic.dir = .ofNat dir.toNat

/-- Points drawn on both. -/
theorem Shows.points {c : Canvas} {pic : Picture} (h : Shows c pic) (ps : List Pixel) :
    Shows (ps.foldl (Canvas.point nt35510) c) (ps.foldl Picture.point pic) := by
  induction ps generalizing c pic with
  | nil => exact h
  | cons q ps ih =>
    obtain ⟨hmemory, dir, hmode, hdir⟩ := h
    refine ih ⟨?_, dir, hmode, hdir⟩
    show Function.update c.memory (nt35510.place c.mode _) _ = Function.update pic.cells (pic.dir.cell _) _
    rw [hmemory, hmode, hdir, (scanRegval_dir dir).2.2]

section Run

variable {fonts : Fonts} {info : LcdPort} {p : Panel} {pic : Picture}

/-- `lcd_display_dir` needs nothing of what was before. -/
theorem run_displayDir (pl : Placement) (info : LcdPort) (p : Panel) (dir : BitVec 8) :
    PortInv (lcdDisplayDir info dir).1 (p.run pl (lcdDisplayDir info dir).2) ∧
      (p.run pl (lcdDisplayDir info dir).2).canvas = { p.canvas with mode := scanRegval 0 } := by
  refine run_scanDir rfl rfl rfl ?_ 0
  by_cases hdir : dir = 0
  · exact .inl (by simp only [if_pos hdir])
  · exact .inr (by simp only [if_neg hdir])

/-- Each call does to the frame memory what it does to the picture. -/
theorem call_shows (h : PortInv info p) (hshows : Shows p.canvas pic) {c : LcdCall} (hfits : pic.Fits c) :
    PortInv (info.call fonts c).1 (p.run nt35510 (info.call fonts c).2) ∧
      Shows (p.run nt35510 (info.call fonts c).2).canvas (pic.call fonts c) := by
  have hpanel := hshows
  obtain ⟨hmemory, dir, hmode, hdir⟩ := hpanel
  obtain ⟨hwidth, hheight, -⟩ := scanRegval_dir dir
  have hmode : p.mode = scanRegval dir := hmode
  have hmemory : p.memory = pic.cells := hmemory
  cases c with
  | clear color =>
    obtain ⟨hinv, hcanvas⟩ := @run_clear nt35510 _ _ h color
    refine ⟨hinv, ?_⟩
    simp only [LcdPort.call, hcanvas]
    refine ⟨?_, dir, hmode, hdir⟩
    simp only [Picture.call, hmemory]
  | showchar x y num size mode =>
    obtain ⟨-, hsize, hx, hy⟩ := hfits
    rw [hdir, ← hwidth, ← hmode] at hx
    rw [hdir, ← hheight, ← hmode] at hy
    obtain ⟨hinv, hcanvas⟩ := @run_showchar nt35510 _ _ h fonts x y num size mode hsize hx hy
    rw [hcanvas]
    exact ⟨hinv, hshows.points _⟩
  | scanDir dir' =>
    have hscreen : info.toLcdInfo = ⟨480, 800⟩ ∨ info.toLcdInfo = ⟨800, 480⟩ := by
      rw [h.size]
      exact screenInfo_cases p.mode
    obtain ⟨hinv, hcanvas⟩ := @run_scanDir nt35510 info p h.wramcmd h.setxcmd h.setycmd hscreen dir'
    refine ⟨hinv, ?_⟩
    simp only [LcdPort.call, hcanvas]
    exact ⟨hmemory, dir', rfl, rfl⟩
  | displayDir dir' =>
    obtain ⟨hinv, hcanvas⟩ := run_displayDir nt35510 info p dir'
    refine ⟨hinv, ?_⟩
    simp only [LcdPort.call, hcanvas]
    exact ⟨hmemory, 0, rfl, rfl⟩

/-- A run from a settled panel. -/
theorem exec_shows (h : PortInv info p) (hshows : Shows p.canvas pic) (cs : List LcdCall)
    (hfits : Along (Picture.step fonts) Picture.Fits pic cs) :
    ∃ s', exec (lcdStep nt35510 fonts) (info, p) cs = some s' ∧ PortInv s'.1 s'.2 ∧
      Shows s'.2.canvas (cs.foldl (Picture.call fonts) pic) := by
  induction cs generalizing info p pic with
  | nil => exact ⟨(info, p), rfl, h, hshows⟩
  | cons c cs ih =>
    obtain ⟨hinv, hshows'⟩ := @call_shows fonts _ _ _ h hshows _ hfits.1
    obtain ⟨s', hrun, hrest⟩ := ih hinv hshows' (hfits.2 _ rfl)
    exact ⟨s', exec_cons.2 ⟨_, rfl, hrun⟩, hrest⟩

/-- **The panel shows the picture**: whatever was in the panel and in
`LCD_INFO`, from `lcd_display_dir` on the bus writes of every run of calls whose
characters fit leave in the frame memory what the calls make of the picture
there. -/
theorem panel_shows (fonts : Fonts) (info : LcdPort) (p : Panel) (dir : BitVec 8) (cs : List LcdCall)
    (hfits : Along (Picture.step fonts) Picture.Fits ⟨.l2rU2d, p.memory⟩ cs) :
    ∃ s', exec (lcdStep nt35510 fonts) (info, p) (.displayDir dir :: cs) = some s' ∧
      s'.2.memory = (cs.foldl (Picture.call fonts) ⟨.l2rU2d, p.memory⟩).cells ∧ PortInv s'.1 s'.2 := by
  obtain ⟨hinv, hcanvas⟩ := run_displayDir nt35510 info p dir
  have hshows : Shows (p.run nt35510 (lcdDisplayDir info dir).2).canvas ⟨.l2rU2d, p.memory⟩ := by
    rw [hcanvas]
    exact ⟨rfl, 0, rfl, rfl⟩
  obtain ⟨s', hrun, hinv', hshows⟩ := exec_shows hinv hshows cs hfits
  exact ⟨s', exec_cons.2 ⟨_, rfl, hrun⟩, hshows.memory, hinv'⟩

end Run

/-- A white screen, turned, with the corner of a character: foreground at the
bottom right cell of the frame memory. -/
theorem panel_shows_turned :
    ∃ s', exec (lcdStep nt35510 ⟨fun _ _ => 0xFF, fun _ _ => 0xFF, fun _ _ => 0xFF, fun _ _ => 0xFF⟩)
        (⟨⟨0, 0⟩, 0, 0, 0, 0⟩, ⟨0, fun _ => 0, (0, 0), fun _ => 0⟩)
        [.displayDir 0, .clear 0xFFFF, .scanDir 3, .showchar 0 0 0x41 12 0] = some s' ∧
      s'.2.memory (479, 799) = 0 ∧ s'.2.memory (0, 0) = 0xFFFF := by
  obtain ⟨s', hrun, hmemory, -⟩ := panel_shows
    ⟨fun _ _ => 0xFF, fun _ _ => 0xFF, fun _ _ => 0xFF, fun _ _ => 0xFF⟩
    ⟨⟨0, 0⟩, 0, 0, 0, 0⟩ ⟨0, fun _ => 0, (0, 0), fun _ => 0⟩ 0
    [.clear 0xFFFF, .scanDir 3, .showchar 0 0 0x41 12 0]
    ((along_cons rfl).2 ⟨trivial, (along_cons rfl).2 ⟨trivial, (along_cons rfl).2
      ⟨by unfold Picture.Fits; decide, trivial⟩⟩⟩)
  refine ⟨s', hrun, (congrFun hmemory (479, 799)).trans ?_, (congrFun hmemory (0, 0)).trans ?_⟩
  · decide
  · decide

end Stm32Handler.Lcd
