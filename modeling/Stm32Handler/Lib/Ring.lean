import Mathlib.Data.List.Basic
import Mathlib.Logic.Function.Basic
import Mathlib.Tactic.Common

/-!
# Windows of a circular array and the bounded queue

`window d N k n` lists the `n` cells of the circular array `d` of length `N`
that start at index `k`. Growing a window at its end and shrinking it at its
front are the two moves of a ring buffer; `fifoPut` and `fifoGet` are the same
moves on the queue the window spells.
-/

namespace Stm32Handler

variable {β : Type*}

/-! ## Windows -/

/-- Cells `k, k + 1, …, k + n - 1` of a circular array of length `N`. -/
def window (d : ℕ → β) (N k n : ℕ) : List β := (List.range n).map fun i => d ((k + i) % N)

@[simp] theorem length_window (d : ℕ → β) (N k n : ℕ) : (window d N k n).length = n := by
  simp [window]

theorem window_succ (d : ℕ → β) (N k n : ℕ) :
    window d N k (n + 1) = window d N k n ++ [d ((k + n) % N)] := by
  simp [window, List.range_succ]

theorem window_cons (d : ℕ → β) (N k n : ℕ) :
    window d N k (n + 1) = d (k % N) :: window d N (k + 1) n := by
  simp only [window, List.range_succ_eq_map, List.map_cons, List.map_map, Nat.add_zero]
  congr 1
  apply List.map_congr_left
  intro i _
  simp only [Function.comp, Nat.succ_eq_add_one]
  congr 2
  omega

/-- A window only sees its start modulo the length. -/
theorem window_mod (d : ℕ → β) (N k n : ℕ) : window d N (k % N) n = window d N k n := by
  simp [window, Nat.mod_add_mod]

/-- Two offsets below the length name different cells. -/
theorem add_mod_ne {N k i j : ℕ} (hi : i < j) (hj : j < N) : (k + i) % N ≠ (k + j) % N := by
  intro h
  have hd : N ∣ (k + j) - (k + i) := Nat.dvd_of_mod_eq_zero (Nat.sub_mod_eq_zero_of_mod_eq h.symm)
  have := Nat.le_of_dvd (by omega) hd
  omega

/-- Writing the cell just past a window that does not fill the array leaves the window alone. -/
theorem window_update {d : ℕ → β} {N k n : ℕ} (hn : n < N) (x : β) :
    window (Function.update d ((k + n) % N) x) N k n = window d N k n := by
  apply List.map_congr_left
  intro i hi
  rw [List.mem_range] at hi
  exact Function.update_of_ne (add_mod_ne hi hn) _ _

/-- Writing the cell past a window and growing the window appends the value. -/
theorem window_push {d : ℕ → β} {N k n : ℕ} (hn : n < N) (x : β) :
    window (Function.update d ((k + n) % N) x) N k (n + 1) = window d N k n ++ [x] := by
  rw [window_succ, window_update hn, Function.update_self]

/-- A window is one window and then another. -/
theorem window_add (d : ℕ → β) (N k m n : ℕ) :
    window d N k (m + n) = window d N k m ++ window d N (k + m) n := by
  induction n with
  | zero => simp [window]
  | succ n ih => rw [← Nat.add_assoc, window_succ, ih, window_succ, List.append_assoc, Nat.add_assoc]

/-- The far part of a window, by what the whole of it spells. -/
theorem window_right {d : ℕ → β} {N k m n : ℕ} {xs ys : List β} (h : window d N k (m + n) = xs ++ ys)
    (hxs : xs.length = m) : window d N (k + m) n = ys := by
  rw [window_add] at h
  exact (List.append_inj h (by rw [length_window, hxs])).2

theorem window_left {d : ℕ → β} {N k m n : ℕ} {xs ys : List β} (h : window d N k (m + n) = xs ++ ys)
    (hxs : xs.length = m) : window d N k m = xs := by
  rw [window_add] at h
  exact (List.append_inj h (by rw [length_window, hxs])).1

/-! ## Storing a list -/

/-- `xs` from cell `k` of the array on. -/
def store (d : ℕ → β) (k : ℕ) : List β → ℕ → β
  | [] => d
  | x :: xs => store (Function.update d k x) (k + 1) xs

/-- The same in a circular array of length `N`. -/
def ringStore (d : ℕ → β) (N k : ℕ) : List β → ℕ → β
  | [] => d
  | x :: xs => ringStore (Function.update d (k % N) x) N (k + 1) xs

theorem ringStore_append (d : ℕ → β) (N k : ℕ) (xs ys : List β) :
    ringStore d N k (xs ++ ys) = ringStore (ringStore d N k xs) N (k + xs.length) ys := by
  induction xs generalizing d k with
  | nil => rfl
  | cons x xs ih =>
    rw [List.cons_append, ringStore, ih, ringStore, List.length_cons, Nat.add_right_comm, Nat.add_assoc]

theorem ringStore_mod (d : ℕ → β) (N k : ℕ) (xs : List β) :
    ringStore d N (k % N) xs = ringStore d N k xs := by
  induction xs generalizing d k with
  | nil => rfl
  | cons x xs ih =>
    rw [ringStore, ringStore, Nat.mod_mod, ← ih _ (k % N + 1), Nat.mod_add_mod, ih]

/-- Without a wrap the two agree. -/
theorem store_eq_ringStore {N k : ℕ} {xs : List β} (h : k + xs.length ≤ N) (d : ℕ → β) :
    store d k xs = ringStore d N k xs := by
  induction xs generalizing d k with
  | nil => rfl
  | cons x xs ih =>
    rw [List.length_cons] at h
    rw [store, ringStore, Nat.mod_eq_of_lt (by omega), ih (by omega)]

/-- A list stored past a window that leaves room for it extends the window. -/
theorem window_ringStore {d : ℕ → β} {N k n : ℕ} {xs : List β} (h : n + xs.length ≤ N) :
    window (ringStore d N (k + n) xs) N k (n + xs.length) = window d N k n ++ xs := by
  induction xs generalizing d n with
  | nil => simp [ringStore]
  | cons x xs ih =>
    rw [List.length_cons] at h ⊢
    have hlater := ih (d := Function.update d ((k + n) % N) x) (n := n + 1) (by omega)
    rw [ringStore, Nat.add_assoc k n 1, show n + (xs.length + 1) = n + 1 + xs.length by omega, hlater,
      window_push (by omega), List.append_assoc]
    rfl

/-- A window that does not reach the end is a plain range. -/
theorem window_range {N k n : ℕ} (h : k + n ≤ N) (d : ℕ → β) :
    window d N k n = (List.range n).map fun i => d (k + i) := by
  apply List.map_congr_left
  intro i hi
  rw [List.mem_range] at hi
  rw [Nat.mod_eq_of_lt (by omega)]

/-- Back to the start at the end of the array. -/
theorem wrap_end_eq_mod {N i : ℕ} (hi : i ≤ N) : (if i = N then 0 else i) = i % N := by
  split
  · next h => rw [h, Nat.mod_self]
  · rw [Nat.mod_eq_of_lt (by omega)]

/-- One step forward in the array, back to the start at the end. -/
theorem wrap_eq_mod {N i : ℕ} (hi : i < N) : (if i + 1 = N then 0 else i + 1) = (i + 1) % N :=
  wrap_end_eq_mod hi

/-! ## The bounded queue -/

/-- Append unless the queue holds `cap` items. -/
def fifoPut (cap : ℕ) (q : List β) (x : β) : List β := if q.length < cap then q ++ [x] else q

/-- The oldest item and the rest; an empty queue gives nothing and stays. -/
def fifoGet : List β → Option β × List β
  | [] => (none, [])
  | x :: q => (some x, q)

/-- Putting items one by one into a queue with room for all of them appends them all. -/
theorem foldl_fifoPut {cap : ℕ} {q : List β} {xs : List β} (h : q.length + xs.length ≤ cap) :
    xs.foldl (fifoPut cap) q = q ++ xs := by
  induction xs generalizing q with
  | nil => simp
  | cons x xs ih =>
    rw [List.length_cons] at h
    rw [List.foldl_cons, fifoPut, if_pos (by omega), ih (by simp; omega)]
    simp

end Stm32Handler
