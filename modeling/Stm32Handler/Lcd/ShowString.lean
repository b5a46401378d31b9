import Mathlib.Data.List.TakeWhile
import Stm32Handler.Lcd.ShowNum

/-!
# Text on the LCD

`lcd_driver_showstring` of `drv_lcd.c`, down to its calls of `lcd_showchar`, in
a box on the screen (`TextBox`). The text follows a grid of cells as long as it
stays on the first line. The start of a line is kept in 8 bits and the place of
the next character in 16: behind the first line a box that starts at column 256
or more is left, and so is one whose next line or column is past 65535.
-/

namespace Stm32Handler.Lcd

/-- The condition of the loop: between `' '` and `'~'`. -/
def Printable (c : Byte) : Prop := c ≤ 0x7E ∧ c ≥ 0x20

instance : DecidablePred Printable := fun _ => inferInstanceAs (Decidable (_ ∧ _))

/-- The loop of `lcd_driver_showstring`; `p` holds the bytes of the string. -/
def showstringLoop (x0 : Byte) (width height : BitVec 16) (size : Byte) :
    List Byte → BitVec 16 → BitVec 16 → List ShowcharCall
  | [], _, _ => []
  | c :: p, x, y =>
    if Printable c then
      let (x, y) := if x ≥ width then (x0.setWidth 16, y + size.setWidth 16) else (x, y)
      if y ≥ height then []
      else ⟨x, y, c, size, 0⟩ :: showstringLoop x0 width height size p
        (x + BitVec.ofNat 16 (size.toNat / 2)) y
    else []

def lcdDriverShowstring (x y width height : BitVec 16) (size : Byte) (p : List Byte) :
    List ShowcharCall :=
  showstringLoop (x.setWidth 8) (width + x) (height + y) size p x y

/-- A box on the screen and the size of its characters; it is wide enough for
the start of one. -/
structure TextBox where
  x : BitVec 16
  y : BitVec 16
  width : BitVec 16
  height : BitVec 16
  size : Byte
  right_le : x.toNat + width.toNat ≤ 65535
  bottom_le : y.toNat + height.toNat ≤ 65535
  width_pos : 0 < width.toNat
  size_mem : size ∈ supportedSizes

namespace TextBox

variable (b : TextBox)

def half : ℕ := b.size.toNat / 2

/-- The characters of a line that start before `x + width`. -/
def perLine : ℕ := (b.width.toNat + b.half - 1) / b.half

/-- The lines that start before `y + height`. -/
def rows : ℕ := (b.height.toNat + b.size.toNat - 1) / b.size.toNat

def penX (j : ℕ) : BitVec 16 := BitVec.ofNat 16 (b.x.toNat + j * b.half)

def penY (k : ℕ) : BitVec 16 := BitVec.ofNat 16 (b.y.toNat + k * b.size.toNat)

/-- Character `i` in its cell. -/
def gridCall (i : ℕ) (c : Byte) : ShowcharCall :=
  ⟨b.penX (i % b.perLine), b.penY (i / b.perLine), c, b.size, 0⟩

/-- The characters from number `i` on. -/
def gridCalls : ℕ → List Byte → List ShowcharCall
  | _, [] => []
  | i, c :: p => b.gridCall i c :: gridCalls (i + 1) p

end TextBox

/-- The string up to the first byte that is not printable. -/
def printed (p : List Byte) : List Byte := p.takeWhile (Printable ·)

/-! ## Places on an axis

`s`, `s + h`, `s + 2 * h` and so on in 16 bits, up to the end `e` at `s + w`. -/

section Places

variable {s h w n : ℕ} {e : BitVec 16}

/-- A division rounded up. -/
theorem lt_ceil_iff {a h : ℕ} (hpos : 0 < h) (j : ℕ) : j < (a + h - 1) / h ↔ j * h < a := by
  rw [Nat.lt_iff_add_one_le, Nat.le_div_iff_mul_le hpos, Nat.succ_mul]
  omega

theorem place_toNat (hin : s + n * h ≤ 65535) : (BitVec.ofNat 16 (s + n * h)).toNat = s + n * h := by
  rw [BitVec.toNat_ofNat]
  exact Nat.mod_eq_of_lt (by omega)

theorem place_lt (he : e.toNat = s + w) (hlt : n * h < w) : ¬ BitVec.ofNat 16 (s + n * h) ≥ e := by
  have hend := e.isLt
  rw [ge_iff_le, BitVec.le_def, he, place_toNat (by omega)]
  omega

theorem place_end (he : e.toNat = s + w) (hge : ¬ n * h < w) (hin : s + n * h ≤ 65535) :
    BitVec.ofNat 16 (s + n * h) ≥ e := by
  rw [ge_iff_le, BitVec.le_def, he, place_toNat hin]
  omega

/-- One step behind a place before the end, the value is not before the end only
if it has not wrapped. -/
theorem place_end_range (he : e.toNat = s + w) (hstep : h ≤ 65535) (hlast : n.pred * h < w)
    (hge : BitVec.ofNat 16 (s + n * h) ≥ e) : s + n * h ≤ 65535 := by
  have hend := e.isLt
  rw [ge_iff_le, BitVec.le_def, he, BitVec.toNat_ofNat] at hge
  cases n with
  | zero => omega
  | succ m =>
    rw [Nat.pred_succ] at hlast
    rw [Nat.succ_mul] at hge ⊢
    by_contra hover
    omega

end Places

namespace TextBox

variable (b : TextBox)

def showstring (p : List Byte) : List ShowcharCall :=
  lcdDriverShowstring b.x b.y b.width b.height b.size p

/-- The loop in this box. -/
def loop (p : List Byte) (x y : BitVec 16) : List ShowcharCall :=
  showstringLoop (b.x.setWidth 8) (b.width + b.x) (b.height + b.y) b.size p x y

theorem size_bounds : 6 ≤ b.half ∧ b.half ≤ b.size.toNat ∧ b.size.toNat ≤ 32 := by
  unfold half
  have hmem := b.size_mem
  revert hmem
  generalize b.size = size
  revert size
  decide

theorem lt_perLine_iff (j : ℕ) : j < b.perLine ↔ j * b.half < b.width.toNat :=
  lt_ceil_iff (by have := b.size_bounds; omega) j

theorem lt_rows_iff (k : ℕ) : k < b.rows ↔ k * b.size.toNat < b.height.toNat :=
  lt_ceil_iff (by have := b.size_bounds; omega) k

theorem perLine_pos : 0 < b.perLine := by
  rw [lt_perLine_iff, Nat.zero_mul]
  exact b.width_pos

theorem right_toNat : (b.width + b.x).toNat = b.x.toNat + b.width.toNat := by
  have hright := b.right_le
  rw [BitVec.toNat_add, Nat.add_comm b.width.toNat]
  exact Nat.mod_eq_of_lt (by omega)

theorem bottom_toNat : (b.height + b.y).toNat = b.y.toNat + b.height.toNat := by
  have hbottom := b.bottom_le
  rw [BitVec.toNat_add, Nat.add_comm b.height.toNat]
  exact Nat.mod_eq_of_lt (by omega)

theorem penY_toNat {k : ℕ} (h : b.y.toNat + k * b.size.toNat ≤ 65535) :
    (b.penY k).toNat = b.y.toNat + k * b.size.toNat := place_toNat h

theorem penX_succ (j : ℕ) : b.penX j + BitVec.ofNat 16 (b.size.toNat / 2) = b.penX (j + 1) := by
  rw [penX, penX, ← BitVec.ofNat_add, Nat.succ_mul, ← Nat.add_assoc]
  rfl

theorem penY_succ (k : ℕ) : b.penY k + b.size.setWidth 16 = b.penY (k + 1) := by
  rw [penY, penY, ← BitVec.ofNat_toNat, ← BitVec.ofNat_add, Nat.add_assoc, ← Nat.succ_mul]

theorem penX_zero : b.penX 0 = b.x := by
  rw [penX, Nat.zero_mul, Nat.add_zero, BitVec.ofNat_toNat, BitVec.setWidth_eq]

theorem penY_zero : b.penY 0 = b.y := by
  rw [penY, Nat.zero_mul, Nat.add_zero, BitVec.ofNat_toNat, BitVec.setWidth_eq]

/-- The column of a cell is left of the right edge. -/
theorem penX_lt {j : ℕ} (hj : j < b.perLine) : ¬ b.penX j ≥ b.width + b.x :=
  place_lt b.right_toNat ((b.lt_perLine_iff j).1 hj)

/-- Behind the last cell of a line. -/
theorem penX_end (h : b.x.toNat + b.perLine * b.half ≤ 65535) : b.penX b.perLine ≥ b.width + b.x :=
  place_end b.right_toNat (mt (b.lt_perLine_iff b.perLine).2 (Nat.lt_irrefl _)) h

theorem penY_lt {k : ℕ} (hk : k < b.rows) : ¬ b.penY k ≥ b.height + b.y :=
  place_lt b.bottom_toNat ((b.lt_rows_iff k).1 hk)

theorem penY_end (h : b.y.toNat + b.rows * b.size.toNat ≤ 65535) : b.penY b.rows ≥ b.height + b.y :=
  place_end b.bottom_toNat (mt (b.lt_rows_iff b.rows).2 (Nat.lt_irrefl _)) h

/-! ## The loop -/

variable {b}

/-- A character on the line. -/
theorem loop_inside {c : Byte} (hc : Printable c) (p : List Byte) {x : BitVec 16} {k : ℕ}
    (hx : ¬ x ≥ b.width + b.x) (hk : k < b.rows) : b.loop (c :: p) x (b.penY k) =
      ⟨x, b.penY k, c, b.size, 0⟩ ::
        b.loop p (x + BitVec.ofNat 16 (b.size.toNat / 2)) (b.penY k) := by
  rw [loop, showstringLoop, if_pos hc, if_neg hx]
  exact if_neg (b.penY_lt hk)

/-- A character behind the end of the line. -/
theorem loop_end {c : Byte} (hc : Printable c) (p : List Byte) {x : BitVec 16} (k : ℕ)
    (hx : x ≥ b.width + b.x) : b.loop (c :: p) x (b.penY k) =
      if b.penY (k + 1) ≥ b.height + b.y then []
      else ⟨(b.x.setWidth 8).setWidth 16, b.penY (k + 1), c, b.size, 0⟩ :: b.loop p
        ((b.x.setWidth 8).setWidth 16 + BitVec.ofNat 16 (b.size.toNat / 2)) (b.penY (k + 1)) := by
  rw [loop, showstringLoop, if_pos hc, if_pos hx]
  show (if b.penY k + b.size.setWidth 16 ≥ b.height + b.y then [] else _) = _
  rw [penY_succ]
  rfl

/-- The start of a line that was kept. -/
theorem lineStart (hx : b.x.toNat < 256) : (b.x.setWidth 8).setWidth 16 = b.penX 0 := by
  apply BitVec.eq_of_toNat_eq
  rw [penX_zero, BitVec.toNat_setWidth, BitVec.toNat_setWidth, Nat.mod_eq_of_lt hx,
    Nat.mod_eq_of_lt b.x.isLt]

theorem gridCall_eq {j k : ℕ} (hj : j < b.perLine) (c : Byte) :
    b.gridCall (k * b.perLine + j) c = ⟨b.penX j, b.penY k, c, b.size, 0⟩ := by
  rw [gridCall, Nat.add_comm, Nat.add_mul_mod_self_right, Nat.mod_eq_of_lt hj,
    Nat.add_mul_div_right _ _ b.perLine_pos, Nat.div_eq_of_lt hj, Nat.zero_add]

/-- Characters that stay in the box, from cell `j` of line `k` on. -/
theorem loop_append (p q : List Byte) (hp : ∀ c ∈ p, Printable c) {j k : ℕ} (hj : j ≤ b.perLine)
    (hroom : k * b.perLine + j + p.length ≤ b.rows * b.perLine)
    (hcross : j + p.length ≤ b.perLine ∨ b.x.toNat + b.perLine * b.half ≤ 65535 ∧ b.x.toNat < 256) :
    ∃ j' ≤ b.perLine, ∃ k', k' * b.perLine + j' = k * b.perLine + j + p.length ∧
      (0 < j + p.length → 0 < j') ∧ b.loop (p ++ q) (b.penX j) (b.penY k) =
        b.gridCalls (k * b.perLine + j) p ++ b.loop q (b.penX j') (b.penY k') := by
  induction p generalizing j k with
  | nil => exact ⟨j, hj, k, rfl, id, rfl⟩
  | cons c p ih =>
    have hc := hp c List.mem_cons_self
    have hp := fun c' hc' => hp c' (List.mem_cons_of_mem c hc')
    rw [List.length_cons] at hroom hcross
    rcases Nat.lt_or_eq_of_le hj with hlt | rfl
    · have hk : k < b.rows := Nat.lt_of_mul_lt_mul_right (by omega : k * b.perLine < b.rows * b.perLine)
      obtain ⟨j', hj', k', hindex, hpos, hloop⟩ := ih hp (j := j + 1) (k := k) hlt (by omega)
        (hcross.imp_left fun h => by omega)
      refine ⟨j', hj', k', by rw [List.length_cons]; omega, fun _ => hpos (by omega), ?_⟩
      rw [List.cons_append, loop_inside hc _ (b.penX_lt hlt) hk, penX_succ, hloop, gridCalls,
        gridCall_eq hlt, ← Nat.add_assoc]
      rfl
    · obtain ⟨hend, hx⟩ := hcross.resolve_left (by omega)
      have hnext : (k + 1) * b.perLine = k * b.perLine + b.perLine := Nat.succ_mul _ _
      have hk : k + 1 < b.rows := Nat.lt_of_mul_lt_mul_right (by omega : (k + 1) * b.perLine < b.rows * b.perLine)
      obtain ⟨j', hj', k', hindex, hpos, hloop⟩ := ih hp (j := 1) (k := k + 1) b.perLine_pos (by omega)
        (.inr ⟨hend, hx⟩)
      refine ⟨j', hj', k', by rw [List.length_cons]; omega, fun _ => hpos (by omega), ?_⟩
      rw [List.cons_append, loop_end hc _ k (b.penX_end hend), if_neg (b.penY_lt hk), lineStart hx, penX_succ,
        hloop, gridCalls, ← hnext, ← Nat.add_zero ((k + 1) * b.perLine), gridCall_eq b.perLine_pos]
      rfl

/-- Whole lines. -/
theorem loop_lines (p q : List Byte) (hp : ∀ c ∈ p, Printable c) {k : ℕ} (hk : k < b.rows)
    (hlen : p.length = (k + 1) * b.perLine)
    (hcross : k = 0 ∨ b.x.toNat + b.perLine * b.half ≤ 65535 ∧ b.x.toNat < 256) :
    b.loop (p ++ q) b.x b.y = b.gridCalls 0 p ++ b.loop q (b.penX b.perLine) (b.penY k) := by
  have hpos := b.perLine_pos
  have hroom : (k + 1) * b.perLine ≤ b.rows * b.perLine := Nat.mul_le_mul_right _ hk
  obtain ⟨j', hj', k', hindex, hzero, hloop⟩ := loop_append p q hp (j := 0) (k := 0) (Nat.zero_le b.perLine)
    (by omega) (hcross.imp_left fun h => by rw [hlen, h]; omega)
  rw [hlen, Nat.zero_mul, Nat.zero_add, Nat.succ_mul] at hindex
  rw [Nat.succ_mul] at hlen
  have hline : k' = k ∧ j' = b.perLine := by
    rcases Nat.lt_trichotomy k' k with hlt | rfl | hgt
    · have hless : (k' + 1) * b.perLine ≤ k * b.perLine := Nat.mul_le_mul_right _ hlt
      rw [Nat.succ_mul] at hless
      omega
    · exact ⟨rfl, by omega⟩
    · have hmore : (k + 1) * b.perLine ≤ k' * b.perLine := Nat.mul_le_mul_right _ hgt
      rw [Nat.succ_mul] at hmore
      omega
  rw [penX_zero, penY_zero, Nat.zero_mul] at hloop
  rw [hloop, hline.1, hline.2]

theorem loop_unprintable {c : Byte} (hc : ¬ Printable c) (p : List Byte) (x y : BitVec 16) :
    b.loop (c :: p) x y = [] := by
  rw [loop, showstringLoop, if_neg hc]

theorem loop_rest (p : List Byte) (x y : BitVec 16) : b.loop (p.dropWhile (Printable ·)) x y = [] := by
  induction p with
  | nil => rfl
  | cons c p ih =>
    by_cases hc : Printable c
    · rw [List.dropWhile_cons_of_pos (by simpa using hc)]
      exact ih
    · rw [List.dropWhile_cons_of_neg (by simpa using hc)]
      exact loop_unprintable hc p x y

/-- Nothing is drawn in a box without lines. -/
theorem loop_empty (p : List Byte) (hrows : b.rows = 0) : b.loop p b.x b.y = [] := by
  cases p with
  | nil => rfl
  | cons c p =>
    by_cases hc : Printable c
    · have hx := b.penX_lt b.perLine_pos
      have hy := b.penY_end (by rw [hrows]; have := b.bottom_le; omega)
      rw [hrows, penY_zero] at hy
      rw [penX_zero] at hx
      rw [loop, showstringLoop, if_pos hc, if_neg hx]
      exact if_pos hy
    · exact loop_unprintable hc p b.x b.y

theorem gridCalls_length (i : ℕ) (p : List Byte) : (b.gridCalls i p).length = p.length := by
  induction p generalizing i with
  | nil => rfl
  | cons c p ih => rw [gridCalls, List.length_cons, ih, List.length_cons]

theorem gridCalls_getElem? (i : ℕ) (p : List Byte) (m : ℕ) :
    (b.gridCalls i p)[m]? = p[m]?.map (b.gridCall (i + m)) := by
  induction p generalizing i m with
  | nil => rfl
  | cons c p ih =>
    cases m with
    | zero => rfl
    | succ m =>
      rw [gridCalls, List.getElem?_cons_succ, ih, List.getElem?_cons_succ, Nat.add_assoc, Nat.add_comm 1]

/-- What is drawn behind the first line, if it is right. -/
theorem gridCalls_next {p q : List Byte} {call : ShowcharCall} {rest : List ShowcharCall}
    (h : b.gridCalls 0 p ++ call :: rest = b.gridCalls 0 q) (hlen : p.length = b.perLine) :
    b.perLine < q.length ∧ call.x = b.penX 0 ∧ call.y = b.penY 1 := by
  have hnext := gridCalls_getElem? (b := b) 0 q b.perLine
  rw [← h, List.getElem?_append_right (by rw [gridCalls_length, hlen]), gridCalls_length, hlen,
    Nat.sub_self, Nat.zero_add] at hnext
  obtain ⟨c, hc, hcall⟩ := Option.map_eq_some_iff.1 hnext.symm
  have hcell := gridCall_eq (k := 1) b.perLine_pos c
  rw [Nat.one_mul, Nat.add_zero, hcall] at hcell
  subst hcell
  exact ⟨(List.getElem?_eq_some_iff.1 hc).1, rfl, rfl⟩

end TextBox

open TextBox

/-- When the text stays on the grid: it stays on the first line, or nothing is
drawn, or the places behind the first line and below the last one are in range
and a second line starts at a column below 256. -/
def TextBox.KeepsGrid (b : TextBox) (n : ℕ) : Prop :=
  n ≤ b.perLine ∨ b.rows = 0 ∨ b.x.toNat + b.perLine * b.half ≤ 65535 ∧
    (b.rows ≤ 1 ∨ b.x.toNat < 256) ∧
      (n ≤ b.perLine * b.rows ∨ b.y.toNat + b.rows * b.size.toNat ≤ 65535)

section Grid

variable {b : TextBox}

theorem printed_printable (p : List Byte) : ∀ c ∈ printed p, Printable c := fun c hc => by
  simpa using List.mem_takeWhile_imp hc

theorem showstring_eq (p : List Byte) :
    b.showstring p = b.loop (printed p ++ p.dropWhile (Printable ·)) b.x b.y := by
  rw [printed, List.takeWhile_append_dropWhile]
  rfl

/-- The text fits, and a second line starts where it should. -/
theorem showstring_fits (p : List Byte) (hroom : (printed p).length ≤ b.rows * b.perLine)
    (hcross : (printed p).length ≤ b.perLine ∨
      b.x.toNat + b.perLine * b.half ≤ 65535 ∧ b.x.toNat < 256) :
    b.showstring p = b.gridCalls 0 ((printed p).take (b.perLine * b.rows)) := by
  obtain ⟨j', -, k', -, -, hloop⟩ := loop_append (printed p) (p.dropWhile (Printable ·))
    (printed_printable p) (j := 0) (k := 0) (Nat.zero_le b.perLine) (by omega) (by omega)
  rw [penX_zero, penY_zero, loop_rest, List.append_nil, Nat.zero_mul] at hloop
  rw [showstring_eq, hloop, List.take_of_length_le (by rwa [Nat.mul_comm])]

/-- The text has a character behind `k + 1` whole lines. -/
theorem showstring_lines (p : List Byte) {k : ℕ} (hk : k < b.rows)
    (hmore : (k + 1) * b.perLine < (printed p).length)
    (hcross : k = 0 ∨ b.x.toNat + b.perLine * b.half ≤ 65535 ∧ b.x.toNat < 256) :
    ∃ c rest, Printable c ∧ b.showstring p =
      b.gridCalls 0 ((printed p).take ((k + 1) * b.perLine)) ++ b.loop (c :: rest) (b.penX b.perLine) (b.penY k) := by
  have hprintable := printed_printable p
  refine ⟨(printed p)[(k + 1) * b.perLine], (printed p).drop ((k + 1) * b.perLine + 1) ++
    p.dropWhile (Printable ·), hprintable _ (List.getElem_mem hmore), ?_⟩
  have hsplit : printed p = (printed p).take ((k + 1) * b.perLine) ++
      (printed p)[(k + 1) * b.perLine] :: (printed p).drop ((k + 1) * b.perLine + 1) := by
    rw [← List.drop_eq_getElem_cons hmore, List.take_append_drop]
  rw [showstring_eq]
  nth_rewrite 1 [hsplit]
  rw [List.append_assoc, List.cons_append]
  refine loop_lines _ _ (fun c hc => hprintable c (List.mem_of_mem_take hc)) hk ?_ hcross
  rw [List.length_take]
  exact Nat.min_eq_left hmore.le

/-- Behind the last line the row is below the box, or it wraps. -/
theorem penY_end_iff (hrows : 0 < b.rows) :
    b.penY b.rows ≥ b.height + b.y ↔ b.y.toNat + b.rows * b.size.toNat ≤ 65535 := by
  refine ⟨fun h => ?_, b.penY_end⟩
  have hsize := b.size_bounds
  exact place_end_range b.bottom_toNat (by omega) ((b.lt_rows_iff _).1 (Nat.pred_lt hrows.ne')) h

/-- Behind a line the column is right of the box, or it wraps. -/
theorem penX_end_iff : b.penX b.perLine ≥ b.width + b.x ↔ b.x.toNat + b.perLine * b.half ≤ 65535 := by
  refine ⟨fun h => ?_, b.penX_end⟩
  have hsize := b.size_bounds
  exact place_end_range b.right_toNat (by omega)
    ((b.lt_perLine_iff _).1 (Nat.pred_lt b.perLine_pos.ne')) h

/-- A text that goes beyond the last line. -/
theorem showstring_over_iff (p : List Byte) (hrows : 0 < b.rows)
    (hmore : b.perLine * b.rows < (printed p).length)
    (hend : b.x.toNat + b.perLine * b.half ≤ 65535) (hstart : b.rows ≤ 1 ∨ b.x.toNat < 256) :
    b.showstring p = b.gridCalls 0 ((printed p).take (b.perLine * b.rows)) ↔
      b.y.toNat + b.rows * b.size.toNat ≤ 65535 := by
  obtain ⟨k, hk⟩ := Nat.exists_eq_succ_of_ne_zero hrows.ne'
  obtain ⟨c, rest, hc, hdrawn⟩ := showstring_lines (k := k) p (by omega)
    (by rwa [Nat.mul_comm, ← Nat.succ_eq_add_one, ← hk])
    (hstart.imp (fun h => by omega) fun h => ⟨hend, h⟩)
  rw [loop_end hc rest k (b.penX_end hend), ← Nat.succ_eq_add_one, ← hk, Nat.mul_comm] at hdrawn
  rw [← penY_end_iff hrows]
  by_cases hbelow : b.penY b.rows ≥ b.height + b.y
  · rw [if_pos hbelow, List.append_nil] at hdrawn
    exact iff_of_true hdrawn hbelow
  · rw [if_neg hbelow] at hdrawn
    refine iff_of_false (fun h => ?_) hbelow
    have hlength := congrArg List.length (hdrawn.symm.trans h)
    rw [List.length_append, List.length_cons] at hlength
    omega

/-- A text that goes beyond the first line. -/
theorem showstring_long_iff (p : List Byte) (hrows : 0 < b.rows)
    (hn : b.perLine < (printed p).length) :
    b.showstring p = b.gridCalls 0 ((printed p).take (b.perLine * b.rows)) ↔
      b.KeepsGrid (printed p).length := by
  have hkeeps : b.KeepsGrid (printed p).length ↔ b.x.toNat + b.perLine * b.half ≤ 65535 ∧
      (b.rows ≤ 1 ∨ b.x.toNat < 256) ∧ ((printed p).length ≤ b.perLine * b.rows ∨
        b.y.toNat + b.rows * b.size.toNat ≤ 65535) :=
    (or_iff_right (Nat.not_le.2 hn)).trans (or_iff_right hrows.ne')
  rw [hkeeps]
  obtain ⟨c, rest, hc, hdrawn⟩ := showstring_lines (k := 0) p hrows (by omega) (.inl rfl)
  have hline : ((printed p).take ((0 + 1) * b.perLine)).length = b.perLine := by
    rw [List.length_take]
    omega
  by_cases hend : b.x.toNat + b.perLine * b.half ≤ 65535
  · by_cases hstart : b.rows ≤ 1 ∨ b.x.toNat < 256
    · by_cases hroom : (printed p).length ≤ b.perLine * b.rows
      · refine iff_of_true (showstring_fits p (by rwa [Nat.mul_comm]) (.inr ⟨hend, ?_⟩))
          ⟨hend, hstart, .inl hroom⟩
        refine hstart.resolve_left fun h => ?_
        rw [Nat.le_antisymm h hrows, Nat.mul_one] at hroom
        omega
      · rw [showstring_over_iff p hrows (Nat.not_le.1 hroom) hend hstart]
        exact ⟨fun h => ⟨hend, hstart, .inr h⟩, fun h => h.2.2.resolve_left hroom⟩
    · -- the second line starts at the low byte of the column
      refine iff_of_false (fun h => ?_) fun h => hstart h.2.1
      rw [loop_end hc rest 0 (b.penX_end hend), if_neg (b.penY_lt (by omega : 0 + 1 < b.rows))] at hdrawn
      obtain ⟨-, hx, -⟩ := gridCalls_next (hdrawn.symm.trans h) hline
      have hlow := congrArg BitVec.toNat hx
      rw [penX_zero, BitVec.toNat_setWidth, BitVec.toNat_setWidth] at hlow
      omega
  · -- the column behind the first line wraps, and the first row goes on there
    refine iff_of_false (fun h => ?_) fun h => hend h.1
    rw [loop_inside hc rest (mt penX_end_iff.1 hend) hrows] at hdrawn
    obtain ⟨hmore, -, hy⟩ := gridCalls_next (hdrawn.symm.trans h) hline
    have hsecond : 1 < b.rows := by
      rw [List.length_take] at hmore
      exact Nat.lt_of_mul_lt_mul_left (by omega : b.perLine * 1 < b.perLine * b.rows)
    have hrow := (b.lt_rows_iff 1).1 hsecond
    have hbottom := b.bottom_le
    have hsize := b.size_bounds
    have hsame := congrArg BitVec.toNat hy
    rw [b.penY_toNat (by omega), b.penY_toNat (by omega)] at hsame
    omega

end Grid

/-- **The text follows the grid exactly when** it keeps to it. -/
theorem showstring_grid_iff (b : TextBox) (p : List Byte) :
    b.showstring p = b.gridCalls 0 ((printed p).take (b.perLine * b.rows)) ↔
      b.KeepsGrid (printed p).length := by
  have hpos := b.perLine_pos
  rcases Nat.eq_zero_or_pos b.rows with hrows | hrows
  · refine iff_of_true ?_ (.inr (.inl hrows))
    rw [hrows, Nat.mul_zero, List.take_zero]
    exact loop_empty p hrows
  · have hline : b.perLine ≤ b.rows * b.perLine := Nat.le_mul_of_pos_left _ hrows
    by_cases hn : (printed p).length ≤ b.perLine
    · exact iff_of_true (showstring_fits p (by omega) (.inl hn)) (.inl hn)
    · exact showstring_long_iff p hrows (Nat.not_le.1 hn)

/-- Column 300, and a text that is one character too long for a line. -/
def narrowBox : TextBox where
  x := 300
  y := 0
  width := 16
  height := 32
  size := 16
  right_le := by decide
  bottom_le := by decide
  width_pos := by decide
  size_mem := by decide

/-- The third character comes out at column 44. -/
theorem showstring_off_grid : ¬ ∀ (b : TextBox) (p : List Byte),
    b.showstring p = b.gridCalls 0 ((printed p).take (b.perLine * b.rows)) :=
  fun h => absurd (h narrowBox [0x41, 0x42, 0x43]) (by decide +kernel)

end Stm32Handler.Lcd
