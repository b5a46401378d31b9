import Mathlib.Data.Nat.Notation

/-!
# Simulation of state monads

`Simulates abs I x y`: from a state in `I` the program `x` returns what `y`
returns from the abstract state, ends in a state whose abstraction is where `y`
ends, and stays in `I`. Simulation goes through `pure`, `>>=` and `if`, so
programs that differ in the primitives they are given simulate one another if
the primitives do.
-/

namespace Stm32Handler

variable {σ τ α β : Type}

def Simulates (abs : σ → τ) (I : σ → Prop) (x : StateM σ α) (y : StateM τ α) : Prop :=
  ∀ s, I s → (x.run s).1 = (y.run (abs s)).1 ∧ abs (x.run s).2 = (y.run (abs s)).2 ∧ I (x.run s).2

namespace Simulates

variable {abs : σ → τ} {I : σ → Prop}

theorem pure (a : α) : Simulates abs I (pure a) (pure a) := fun _ h => ⟨rfl, rfl, h⟩

theorem bind {x : StateM σ α} {y : StateM τ α} {f : α → StateM σ β} {k : α → StateM τ β}
    (hx : Simulates abs I x y) (hf : ∀ a, Simulates abs I (f a) (k a)) :
    Simulates abs I (x >>= f) (y >>= k) := by
  intro s h
  obtain ⟨hval, habs, hI⟩ := hx s h
  obtain ⟨hval', habs', hI'⟩ := hf (x.run s).1 (x.run s).2 hI
  have hrun : (y >>= k).run (abs s) = (k (x.run s).1).run (abs (x.run s).2) := by
    rw [hval, habs]
    rfl
  rw [hrun]
  exact ⟨hval', habs', hI'⟩

theorem ite {p : Prop} [Decidable p] {x x' : StateM σ α} {y y' : StateM τ α} (hx : Simulates abs I x y)
    (hx' : Simulates abs I x' y') : Simulates abs I (if p then x else x') (if p then y else y') := by
  split
  · exact hx
  · exact hx'

theorem modify {f : σ → σ} {k : τ → τ} (h : ∀ s, I s → abs (f s) = k (abs s) ∧ I (f s)) :
    Simulates abs I (modify f) (modify k) := fun s hs => ⟨rfl, (h s hs).1, (h s hs).2⟩

end Simulates

end Stm32Handler
