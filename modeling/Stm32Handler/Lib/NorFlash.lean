import Mathlib.Data.List.GetD
import Mathlib.Logic.Function.Basic
import Stm32Handler.Lib.Bytes

/-!
# A serial NOR flash chip

The chip collects the bytes of a frame, from select to deselect, and acts on
the whole frame at deselect; a status or data read answers while the frame
runs. A page program ANDs its bytes into one 256-byte page, the column wrapping
inside the page; an erase fills an aligned region with ones. Both need the
write enable latch, then keep the chip busy for a number of status reads and
clear the latch when they are done. A busy chip answers status reads and
ignores everything else.

How long each operation takes is not the chip's choice: `durations` lists it
for the operations to come, and past its end they take no time.
-/

namespace Stm32Handler

/-- Sizes of a chip: a power of two in effect, whole 64 KB blocks, addressed
with 4 bytes or 3. -/
structure NorGeometry where
  size : ℕ
  fourByte : Bool
  pos : 0 < size
  blocks : 65536 ∣ size
  fits : size ∣ 2 ^ (8 * if fourByte then 4 else 3)

def NorGeometry.addrLen (g : NorGeometry) : ℕ := if g.fourByte then 4 else 3

/-- `frame` holds the bytes since select, `none` while deselected; `busy`
counts the status reads that still see the chip busy. -/
structure NorChip where
  mem : ℕ → Byte
  wel : Bool
  busy : ℕ
  frame : Option (List Byte)
  durations : List ℕ

/-- The big-endian value of address bytes. -/
def bigEndian (bs : List Byte) : ℕ := bs.foldl (fun a b => 256 * a + b.toNat) 0

/-- The byte after `a` in its page. -/
def nextInPage (a : ℕ) : ℕ := a / 256 * 256 + (a + 1) % 256

/-- Bytes ANDed in from `a` on, wrapping at the end of the page. -/
def programPage (mem : ℕ → Byte) (a : ℕ) : List Byte → ℕ → Byte
  | [] => mem
  | b :: bs => programPage (Function.update mem a (mem a &&& b)) (nextInPage a) bs

/-- The region of `n` bytes around `a`, filled with ones. -/
def eraseRegion (n : ℕ) (mem : ℕ → Byte) (a : ℕ) : ℕ → Byte :=
  fun x => if x / n = a / n then 0xFF else mem x

/-! ## Programming a page -/

theorem nextInPage_page (a : ℕ) : nextInPage a / 256 = a / 256 := by
  unfold nextInPage
  omega

theorem nextInPage_of_room {a : ℕ} (h : a % 256 ≠ 255) : nextInPage a = a + 1 := by
  unfold nextInPage
  omega

theorem programPage_append (mem : ℕ → Byte) (a : ℕ) (xs ys : List Byte) :
    programPage mem a (xs ++ ys) =
      programPage (programPage mem a xs) (nextInPage^[xs.length] a) ys := by
  induction xs generalizing mem a with
  | nil => rfl
  | cons x xs ih => exact ih ..

/-- Ones change nothing. -/
theorem programPage_ones (mem : ℕ → Byte) (a : ℕ) {bs : List Byte} (h : ∀ b ∈ bs, b = 0xFF) :
    programPage mem a bs = mem := by
  induction bs generalizing mem a with
  | nil => rfl
  | cons b bs ih =>
    obtain rfl : b = 0xFF := h b List.mem_cons_self
    have hself : Function.update mem a (mem a &&& 0xFF) = mem := by
      have : mem a &&& 0xFF = mem a := BitVec.and_allOnes
      rw [this, Function.update_eq_self]
    rw [programPage, hself]
    exact ih mem _ fun b hb => h b (List.mem_cons_of_mem _ hb)

/-- Nothing outside the page is programmed. -/
theorem programPage_of_page_ne (mem : ℕ → Byte) {a x : ℕ} (bs : List Byte)
    (h : x / 256 ≠ a / 256) : programPage mem a bs x = mem x := by
  induction bs generalizing mem a with
  | nil => rfl
  | cons b bs ih =>
    have hxa : x ≠ a := fun e => h (by rw [e])
    rw [programPage, ih _ (by rw [nextInPage_page]; exact h), Function.update_of_ne hxa]

/-- Bytes that fit into the rest of the page are ANDed in where they belong. -/
theorem programPage_of_fits (mem : ℕ → Byte) {a : ℕ} {bs : List Byte}
    (h : a % 256 + bs.length ≤ 256) (x : ℕ) :
    programPage mem a bs x =
      if a ≤ x ∧ x < a + bs.length then mem x &&& bs.getD (x - a) 0 else mem x := by
  induction bs generalizing mem a with
  | nil =>
    rw [programPage, if_neg (by simp only [List.length_nil]; omega)]
  | cons b bs ih =>
    rw [programPage]
    cases bs with
    | nil =>
      simp only [programPage, List.length_cons, List.length_nil]
      by_cases hx : x = a
      · subst hx
        rw [Function.update_self, if_pos (by omega), Nat.sub_self]
        rfl
      · rw [Function.update_of_ne hx, if_neg (by omega)]
    | cons b' bs =>
      simp only [List.length_cons] at h ih ⊢
      rw [nextInPage_of_room (by omega), ih _ (by omega)]
      by_cases hx : x = a
      · subst hx
        rw [if_neg (by omega), if_pos (by omega), Function.update_self, Nat.sub_self]
        rfl
      · rw [Function.update_of_ne hx]
        by_cases hin : a + 1 ≤ x ∧ x < a + 1 + (bs.length + 1)
        · rw [if_pos hin, if_pos (by omega), show x - a = x - (a + 1) + 1 by omega]
          rfl
        · rw [if_neg hin, if_neg (by omega)]

/-- So are all of them, if what would wrap is ones. -/
theorem programPage_of_drop_ones (mem : ℕ → Byte) {a : ℕ} {bs : List Byte}
    (h : ∀ b ∈ bs.drop (256 - a % 256), b = 0xFF) (x : ℕ) :
    programPage mem a bs x =
      if a ≤ x ∧ x < a + bs.length then mem x &&& bs.getD (x - a) 0 else mem x := by
  have hsplit := List.take_append_drop (256 - a % 256) bs
  have hlen : (bs.take (256 - a % 256)).length = min (256 - a % 256) bs.length := List.length_take
  have hrun : programPage mem a bs = programPage mem a (bs.take (256 - a % 256)) := by
    conv_lhs => rw [← hsplit, programPage_append, programPage_ones _ _ h]
  rw [hrun, programPage_of_fits mem (by omega), hlen]
  by_cases hin : a ≤ x ∧ x < a + bs.length
  · rw [if_pos hin]
    by_cases htake : x - a < 256 - a % 256
    · have hget : (bs.take (256 - a % 256)).getD (x - a) 0 = bs.getD (x - a) 0 := by
        rw [List.getD_eq_getElem?_getD, List.getElem?_take_of_lt htake, List.getD_eq_getElem?_getD]
      rw [if_pos (by omega), hget]
    · have hone : bs.getD (x - a) 0 = 0xFF := by
        have hidx : x - a < bs.length := by omega
        have hmem : bs[x - a] ∈ bs.drop (256 - a % 256) := by
          rw [List.mem_drop_iff_getElem]
          exact ⟨x - a - (256 - a % 256), by omega, by congr 1; omega⟩
        rw [List.getD_eq_getElem _ _ hidx]
        exact h _ hmem
      rw [if_neg (by omega), hone]
      exact BitVec.and_allOnes.symm
  · rw [if_neg hin, if_neg (by omega)]

namespace NorChip

def select (c : NorChip) : NorChip := { c with frame := some [] }

def status (c : NorChip) : Byte :=
  (if 0 < c.busy then 1 else 0) ||| (if c.wel then 2 else 0)

/-- A status read passes time: the last one that saw the chip busy is
followed by the end of the operation. -/
def poll (c : NorChip) : NorChip :=
  { c with busy := c.busy - 1, wel := if c.busy = 1 then false else c.wel }

/-- The byte the chip sends next, the frame so far being `f`. -/
def reply (g : NorGeometry) (c : NorChip) : List Byte → Byte
  | 0x05 :: _ => c.status
  | 0x03 :: rest =>
    if c.busy = 0 ∧ g.addrLen ≤ rest.length then
      c.mem ((bigEndian (rest.take g.addrLen) + (rest.length - g.addrLen)) % g.size)
    else 0xFF
  | _ => 0xFF

/-- One byte each way. -/
def exchange (g : NorGeometry) (c : NorChip) (b : Byte) : Byte × NorChip :=
  match c.frame with
  | none => (0xFF, c)
  | some f =>
    let c' := { c with frame := some (f ++ [b]) }
    (c.reply g f, if f.head? = some 0x05 then c'.poll else c')

/-- An operation changes the memory and takes the next duration. -/
def start (c : NorChip) (mem : ℕ → Byte) : NorChip :=
  let d := c.durations.headD 0
  { c with mem, busy := d, wel := d ≠ 0, durations := c.durations.tail }

/-- What a whole frame does to a chip that is not busy. -/
def execute (g : NorGeometry) (c : NorChip) : List Byte → NorChip
  | [0x06] => { c with wel := true }
  | [0x04] => { c with wel := false }
  | [0xC7] => if c.wel then c.start fun _ => 0xFF else c
  | 0x02 :: rest =>
    if c.wel ∧ g.addrLen < rest.length then
      c.start
        (programPage c.mem (bigEndian (rest.take g.addrLen) % g.size) (rest.drop g.addrLen))
    else c
  | 0x20 :: rest =>
    if c.wel ∧ rest.length = g.addrLen then
      c.start (eraseRegion 4096 c.mem (bigEndian rest % g.size))
    else c
  | 0xD8 :: rest =>
    if c.wel ∧ rest.length = g.addrLen then
      c.start (eraseRegion 65536 c.mem (bigEndian rest % g.size))
    else c
  | _ => c

def deselect (g : NorGeometry) (c : NorChip) : NorChip :=
  match c.frame with
  | none => c
  | some f => { (if c.busy = 0 then c.execute g f else c) with frame := none }

/-! ## Frames -/

/-- In the middle of a frame. -/
def within (c : NorChip) (f : List Byte) : NorChip := { c with frame := some f }

/-- Not selected. -/
def released (c : NorChip) : NorChip := { c with frame := none }

theorem exchange_within {g : NorGeometry} (c : NorChip) {f : List Byte} (h : f.head? ≠ some 0x05)
    (b : Byte) : (c.within f).exchange g b = (c.reply g f, c.within (f ++ [b])) := by
  simp only [exchange, within, h, ↓reduceIte]
  rfl

/-- The frame is not part of what its own end does. -/
theorem execute_within (g : NorGeometry) (c : NorChip) (f f' : List Byte) :
    (c.within f').execute g f = (c.execute g f).within f' := by
  unfold execute
  split <;> first
    | rfl
    | rw [apply_ite fun c : NorChip => c.within f']; rfl

theorem deselect_within (g : NorGeometry) (c : NorChip) (f : List Byte) :
    (c.within f).deselect g = (if c.busy = 0 then c.execute g f else c).released := by
  have hbusy : (c.within f).busy = c.busy := rfl
  have hframe : (c.within f).frame = some f := rfl
  simp only [deselect, hframe, hbusy, execute_within]
  split <;> rfl

theorem execute_status (g : NorGeometry) (c : NorChip) (rest : List Byte) :
    c.execute g (0x05 :: rest) = c := by
  cases rest <;> rfl

theorem reply_read (g : NorGeometry) (c : NorChip) (rest : List Byte) :
    c.reply g (0x03 :: rest) =
      if c.busy = 0 ∧ g.addrLen ≤ rest.length then
        c.mem ((bigEndian (rest.take g.addrLen) + (rest.length - g.addrLen)) % g.size)
      else 0xFF := rfl

theorem execute_read (g : NorGeometry) (c : NorChip) (rest : List Byte) :
    c.execute g (0x03 :: rest) = c := by
  cases rest <;> rfl

theorem execute_program (g : NorGeometry) (c : NorChip) (rest : List Byte) :
    c.execute g (0x02 :: rest) =
      if c.wel ∧ g.addrLen < rest.length then
        c.start
          (programPage c.mem (bigEndian (rest.take g.addrLen) % g.size) (rest.drop g.addrLen))
      else c := by
  cases rest <;> rfl

theorem execute_sector (g : NorGeometry) (c : NorChip) (rest : List Byte) :
    c.execute g (0x20 :: rest) =
      if c.wel ∧ rest.length = g.addrLen then
        c.start (eraseRegion 4096 c.mem (bigEndian rest % g.size))
      else c := by
  cases rest <;> rfl

theorem execute_block (g : NorGeometry) (c : NorChip) (rest : List Byte) :
    c.execute g (0xD8 :: rest) =
      if c.wel ∧ rest.length = g.addrLen then
        c.start (eraseRegion 65536 c.mem (bigEndian rest % g.size))
      else c := by
  cases rest <;> rfl

/-- The state once a busy chip has been polled to its end. -/
def settled (c : NorChip) : NorChip :=
  { c with busy := 0, wel := if c.busy = 0 then c.wel else false, frame := none }

end NorChip

end Stm32Handler
