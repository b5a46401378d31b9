import Mathlib.Data.Nat.Basic
import Mathlib.Data.Nat.Notation
import Stm32Handler.Lib.Ring

/-!
# Sweeping a window

A write pointer that moves to the right, and at the end of a row to the start
of the next one, through the window with the corners `(x0, y0)` and `(x1, y1)`
(`advance`). From the origin, and through a window that starts there, its `k`th
place is column `k % w` of row `k / w` (`advance_sweep`): the first `w * h`
places are the cells of the window (`mem_sweep_iff`).
-/

namespace Stm32Handler.Raster

/-- The next place. -/
def advance (x0 x1 y0 y1 : ℕ) (p : ℕ × ℕ) : ℕ × ℕ :=
  if p.1 = x1 then (x0, if p.2 = y1 then y0 else p.2 + 1) else (p.1 + 1, p.2)

/-- The first `n` places of a window of `w` columns and `h` rows at the origin. -/
def sweep (w : ℕ) (n : ℕ) : List (ℕ × ℕ) := (List.range n).map fun k => (k % w, k / w)

variable {w h : ℕ}

theorem advance_sweep {k : ℕ} (hk : k + 1 < w * h) :
    advance 0 (w - 1) 0 (h - 1) (k % w, k / w) = ((k + 1) % w, (k + 1) / w) := by
  have hw : 0 < w := Nat.pos_of_mul_pos_right (by omega : 0 < w * h)
  have hrow : k / w < h := Nat.div_lt_of_lt_mul (by omega)
  have hcol := Nat.mod_lt k hw
  have hmod : (k + 1) % w = if k % w + 1 = w then 0 else k % w + 1 := by
    rw [wrap_eq_mod hcol, Nat.mod_add_mod]
  have hdiv := Nat.div_add_mod k w
  have hdiv' := Nat.div_add_mod (k + 1) w
  unfold advance
  by_cases hlast : k % w = w - 1
  · have hwrap : (k + 1) % w = 0 := by rw [hmod, if_pos (by omega)]
    have hnext : (k + 1) / w = k / w + 1 := by
      refine Nat.eq_of_mul_eq_mul_left hw ?_
      rw [Nat.mul_add]
      omega
    have hmore : k / w ≠ h - 1 := by
      intro heq
      have hlt : (k + 1) / w < h := Nat.div_lt_of_lt_mul hk
      omega
    simp only [if_pos hlast, if_neg hmore, hwrap, hnext]
  · have hstep : (k + 1) % w = k % w + 1 := by rw [hmod, if_neg (by omega)]
    have hsame : (k + 1) / w = k / w := by
      refine Nat.eq_of_mul_eq_mul_left hw ?_
      omega
    simp only [if_neg hlast, hstep, hsame]

/-- The cells of the window are the places of the sweep. -/
theorem mem_sweep_iff (p : ℕ × ℕ) : p ∈ sweep w (w * h) ↔ p.1 < w ∧ p.2 < h := by
  simp only [sweep, List.mem_map, List.mem_range]
  constructor
  · rintro ⟨k, hk, rfl⟩
    have hw : 0 < w := Nat.pos_of_mul_pos_right (by omega : 0 < w * h)
    exact ⟨Nat.mod_lt k hw, Nat.div_lt_of_lt_mul hk⟩
  · rintro ⟨hx, hy⟩
    refine ⟨w * p.2 + p.1, ?_, ?_⟩
    · calc w * p.2 + p.1 < w * p.2 + w := by omega
        _ = w * (p.2 + 1) := (Nat.mul_succ w p.2).symm
        _ ≤ w * h := Nat.mul_le_mul_left w hy
    · have hw : 0 < w := by omega
      rw [Nat.mul_add_mod, Nat.mod_eq_of_lt hx, Nat.mul_add_div hw, Nat.div_eq_of_lt hx, Nat.add_zero]

/-- One value at each of some places, one after the other. -/
def fill {κ β : Type*} [DecidableEq κ] (m : κ → β) (c : β) (ps : List κ) : κ → β :=
  ps.foldl (fun m p => Function.update m p c) m

theorem fill_apply {κ β : Type*} [DecidableEq κ] (m : κ → β) (c : β) (ps : List κ) (q : κ) :
    fill m c ps q = if q ∈ ps then c else m q := by
  induction ps generalizing m with
  | nil => simp [fill]
  | cons p ps ih =>
    show fill (Function.update m p c) c ps q = _
    rw [ih]
    by_cases hps : q ∈ ps
    · rw [if_pos hps, if_pos (List.mem_cons_of_mem _ hps)]
    · rw [if_neg hps]
      by_cases hp : q = p
      · rw [hp, Function.update_self, if_pos List.mem_cons_self]
      · rw [Function.update_of_ne hp, if_neg (by simp [hp, hps])]

end Stm32Handler.Raster
