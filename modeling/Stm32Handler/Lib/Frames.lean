import Mathlib.Data.BitVec

/-!
# Length-prefixed messages

`leBytes w n` are the `w` low bytes of `n`, the lowest first, and `leNat` reads
them back. `frame w msg` is a message behind its length; messages one after the
other are `wire w msgs`.
-/

namespace Stm32Handler

def leBytes : ℕ → ℕ → List UInt8
  | 0, _ => []
  | w + 1, n => UInt8.ofNat n :: leBytes w (n / 256)

def leNat : List UInt8 → ℕ
  | [] => 0
  | b :: bs => b.toNat + 256 * leNat bs

@[simp] theorem length_leBytes (w n : ℕ) : (leBytes w n).length = w := by
  induction w generalizing n with
  | zero => rfl
  | succ w ih => rw [leBytes, List.length_cons, ih]

/-- A number that fits is read back. -/
theorem leNat_leBytes {w n : ℕ} (h : n < 256 ^ w) : leNat (leBytes w n) = n := by
  induction w generalizing n with
  | zero =>
    rw [Nat.pow_zero] at h
    simp only [leBytes, leNat]
    omega
  | succ w ih =>
    rw [Nat.pow_succ] at h
    have hbyte : (UInt8.ofNat n).toNat = n % 256 := UInt8.toNat_ofNat'
    rw [leBytes, leNat, ih (Nat.div_lt_of_lt_mul (by omega)), hbyte]
    omega

/-- A message behind its length in `w` bytes. -/
def frame (w : ℕ) (msg : List UInt8) : List UInt8 := leBytes w msg.length ++ msg

def wire (w : ℕ) (msgs : List (List UInt8)) : List UInt8 := msgs.flatMap (frame w)

@[simp] theorem length_frame (w : ℕ) (msg : List UInt8) : (frame w msg).length = w + msg.length := by
  rw [frame, List.length_append, length_leBytes]

theorem wire_cons (w : ℕ) (msg : List UInt8) (msgs : List (List UInt8)) :
    wire w (msg :: msgs) = frame w msg ++ wire w msgs := List.flatMap_cons

theorem wire_snoc (w : ℕ) (msgs : List (List UInt8)) (msg : List UInt8) :
    wire w (msgs ++ [msg]) = wire w msgs ++ frame w msg := by
  rw [wire, List.flatMap_append, List.flatMap_singleton]
  rfl

theorem length_wire (w : ℕ) (msgs : List (List UInt8)) :
    (wire w msgs).length = (msgs.map fun msg => msg.length + w).sum := by
  induction msgs with
  | nil => rfl
  | cons msg msgs ih => rw [wire_cons, List.length_append, length_frame, ih, List.map_cons, List.sum_cons, Nat.add_comm w]

end Stm32Handler
