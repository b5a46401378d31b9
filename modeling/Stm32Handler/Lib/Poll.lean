import Mathlib.Data.Nat.Notation

/-!
# Polling loops

A loop that looks at something once a round, for at most `n` rounds, ends with
the first round that finds it, or misses it in all of them. `poll_cases` says so
of every function with the equation of such a loop.
-/

namespace Stm32Handler

/-- `f k` is the outcome of a loop that starts with round `k`. -/
def Polls {β : Type*} (done : ℕ → Bool) (n : ℕ) (hit : ℕ → β) (miss : β) (f : ℕ → β) : Prop :=
  ∀ k < n, f k = if done k then hit k else if k + 1 < n then f (k + 1) else miss

variable {β : Type*} {done : ℕ → Bool} {n : ℕ} {hit : ℕ → β} {miss : β} {f : ℕ → β}

theorem Polls.cases_from (h : Polls done n hit miss f) {k : ℕ} (hk : k < n) :
    (∃ j < n, done j = true ∧ (∀ i, k ≤ i → i < j → done i = false) ∧ f k = hit j) ∨
      (∀ i, k ≤ i → i < n → done i = false) ∧ f k = miss := by
  obtain ⟨m, hm⟩ := Nat.exists_eq_add_of_lt hk
  induction m generalizing k with
  | zero =>
    rw [h k hk]
    cases hdone : done k with
    | true => exact .inl ⟨k, hk, hdone, fun i hle hlt => by omega, rfl⟩
    | false =>
      refine .inr ⟨fun i hle hlt => ?_, ?_⟩
      · obtain rfl : i = k := by omega
        exact hdone
      · rw [if_neg nofun, if_neg (by omega)]
  | succ m ih =>
    rw [h k hk]
    cases hdone : done k with
    | true => exact .inl ⟨k, hk, hdone, fun i hle hlt => by omega, rfl⟩
    | false =>
      have hfrom : ∀ i, k ≤ i → (k + 1 ≤ i → done i = false) → done i = false := by
        intro i hle hrest
        rcases Nat.lt_or_eq_of_le hle with hlt | rfl
        · exact hrest hlt
        · exact hdone
      rw [if_neg nofun, if_pos (by omega)]
      rcases @ih (k + 1) (by omega) (by omega) with ⟨j, hj, hset, hbefore, hf⟩ | ⟨hnever, hf⟩
      · exact .inl ⟨j, hj, hset, fun i hle hlt => hfrom i hle fun h => hbefore i h hlt, hf⟩
      · exact .inr ⟨fun i hle hlt => hfrom i hle fun h => hnever i h hlt, hf⟩

/-- **The outcome of a polling loop**, from its first round. -/
theorem Polls.cases (h : Polls done n hit miss f) (hn : 0 < n) :
    (∃ j < n, done j = true ∧ (∀ i < j, done i = false) ∧ f 0 = hit j) ∨
      (∀ i < n, done i = false) ∧ f 0 = miss := by
  rcases h.cases_from hn with ⟨j, hj, hset, hbefore, hf⟩ | ⟨hnever, hf⟩
  · exact .inl ⟨j, hj, hset, fun i hlt => hbefore i (Nat.zero_le i) hlt, hf⟩
  · exact .inr ⟨fun i hlt => hnever i (Nat.zero_le i) hlt, hf⟩

end Stm32Handler
