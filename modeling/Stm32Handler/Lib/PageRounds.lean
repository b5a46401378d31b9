import Mathlib.Data.List.GetD
import Stm32Handler.Lib.PageLog

/-!
# Which slot the n-th block is in

Clean runs fill the pages in rounds, the pages taking turns: `Filled L img q r
bs` says that round `q` has got to slot `r`, with the blocks `bs` stored so far
in order. `Filled.after_slot` and `Filled.after_full` are the two ways a write
goes on, and `Filled.closed_form` reads round and slot off the number of blocks.
-/

namespace Stm32Handler.PageLog

variable {β : Type*} {L : PageLog β} {img : Slots β} {q r : ℕ} {bs : List β}

/-- The page of round `q`. -/
def turn (q : ℕ) : Bool := q % 2 == 1

theorem turn_succ (q : ℕ) : turn (q + 1) = !turn q := by
  unfold turn
  rcases Nat.mod_two_eq_zero_or_one q with h | h
  · rw [Nat.add_mod, h]
    rfl
  · rw [Nat.add_mod, h]
    rfl

/-- Slot `i` of round `q` holds block `q * blocks + i - 1`. -/
structure Filled (L : PageLog β) (img : Slots β) (q r : ℕ) (bs : List β) : Prop where
  holds : Holds L img (turn q) r
  le : r ≤ L.blocks
  length_eq : bs.length = q * L.blocks + r
  block_eq : ∀ i < r, bs[q * L.blocks + i]? = some (img (turn q) (i + 1))

/-- The number of blocks gives the round and the slot. -/
theorem Filled.closed_form (h : Filled L img q r bs) :
    q = (bs.length - 1) / L.blocks ∧ r = (bs.length - 1) % L.blocks + 1 := by
  have hpos := h.holds.pos
  have hle := h.le
  have hsplit : bs.length - 1 = r - 1 + L.blocks * q := by
    rw [h.length_eq, Nat.mul_comm]
    omega
  rw [hsplit]
  refine ⟨?_, ?_⟩
  · rw [Nat.add_mul_div_left _ _ (by omega), Nat.div_eq_of_lt (by omega), Nat.zero_add]
  · rw [Nat.add_mul_mod_self_left, Nat.mod_eq_of_lt (by omega)]
    omega

section After

variable {hdr : Bool → β} {b : β} (hb : L.block b = true)
include hb

/-- A block in the round's next slot. -/
theorem Filled.after_slot (h : Filled L img q r bs) (hr : r < L.blocks) (hdr : Bool → β) :
    L.after img hdr b = img.put (turn q) (r + 1) b ∧
      Filled L (img.put (turn q) (r + 1) b) q (r + 1) (bs ++ [b]) := by
  obtain ⟨hafter, hholds⟩ := h.holds.after_slot hr hdr hb
  have hlen := h.length_eq
  refine ⟨hafter, hholds, hr, by rw [List.length_append, hlen]; rfl, fun i hi => ?_⟩
  by_cases hlast : i = r
  · subst hlast
    rw [Slots.put_same, ← hlen, List.getElem?_append_right (Nat.le_refl _), Nat.sub_self]
    rfl
  · rw [Slots.put_slot_ne _ _ (by omega), ← h.block_eq i (by omega),
      List.getElem?_append_left (by omega)]

/-- The first block of the next round. -/
theorem Filled.after_full (h : Filled L img q r bs) (hr : L.blocks ≤ r)
    (hhdr : ∀ p, L.page (hdr p) = true) : Filled L (L.after img hdr b) (q + 1) 1 (bs ++ [b]) := by
  obtain ⟨hone, hholds⟩ := h.holds.after_full hr hhdr hb
  have hpos := h.holds.pos
  have hle := h.le
  have hround : bs.length = (q + 1) * L.blocks := by
    rw [h.length_eq, Nat.succ_mul]
    omega
  rw [← turn_succ] at hone hholds
  refine ⟨hholds, by omega, by rw [List.length_append, hround]; rfl, fun i hi => ?_⟩
  obtain rfl : i = 0 := by omega
  rw [hone, Nat.add_zero, ← hround, List.getElem?_append_right (Nat.le_refl _), Nat.sub_self]
  rfl

/-- The first block of all. -/
theorem filled_first (hpos : 0 < L.blocks) (hhdr : ∀ p, L.page (hdr p) = true)
    (himg : ∀ p s, img p s = L.blank) : Filled L (L.after img hdr b) 0 1 [b] := by
  obtain ⟨hholds, hone⟩ := holds_first hhdr hb himg
  refine ⟨hholds, hpos, by simp, fun i hi => ?_⟩
  obtain rfl : i = 0 := by omega
  have hone : L.after img hdr b (turn 0) 1 = b := hone
  rw [hone, Nat.zero_mul]
  rfl

end After

end Stm32Handler.PageLog
