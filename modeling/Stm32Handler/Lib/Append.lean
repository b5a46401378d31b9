import Mathlib.Data.List.Induction
import Stm32Handler.Lib.Run

/-!
# Runs that collect

A store collects what its actions bring: `contents s` is what it holds and
`brings a` what action `a` is to add at the end. `Collects step contents brings
keeps` says a step that `keeps` allows adds exactly that, and any other step
ends up with less.

`Collects.run_iff` turns this into a statement about runs: the store ends with
everything that was brought, in order, exactly when no step of the run lost
anything. The converse needs no invariant of what was lost: contents that fall
short in length stay short.
-/

namespace Stm32Handler

variable {σ α β : Type*} {step : σ → α → Option σ} {contents : σ → List β} {brings : α → List β}
  {keeps : σ → α → Prop}

structure Collects (step : σ → α → Option σ) (contents : σ → List β) (brings : α → List β)
    (keeps : σ → α → Prop) : Prop where
  keep : ∀ {s a s'}, step s a = some s' → keeps s a → contents s' = contents s ++ brings a
  lose : ∀ {s a s'}, step s a = some s' → ¬ keeps s a →
    (contents s').length < (contents s).length + (brings a).length

namespace Collects

theorem length_step (h : Collects step contents brings keeps) {s s' : σ} {a : α}
    (hs : step s a = some s') :
    (contents s').length ≤ (contents s).length + (brings a).length := by
  by_cases hk : keeps s a
  · exact Nat.le_of_eq (by rw [h.keep hs hk, List.length_append])
  · exact Nat.le_of_lt (h.lose hs hk)

theorem length_run (h : Collects step contents brings keeps) {as : List α} {s s' : σ}
    (hrun : exec step s as = some s') :
    (contents s').length ≤ (contents s).length + (as.flatMap brings).length := by
  induction as generalizing s with
  | nil =>
    cases hrun
    simp
  | cons a as ih =>
    obtain ⟨m, hm, hrun⟩ := exec_cons.1 hrun
    have h1 := h.length_step hm
    have h2 := ih hrun
    simp only [List.flatMap_cons, List.length_append]
    omega

/-- A run ends with everything it was brought iff no step of it lost anything. -/
theorem run_iff (h : Collects step contents brings keeps) {as : List α} {s s' : σ}
    (hrun : exec step s as = some s') :
    contents s' = contents s ++ as.flatMap brings ↔ Along step keeps s as := by
  induction as generalizing s with
  | nil =>
    cases hrun
    simp [Along]
  | cons a as ih =>
    obtain ⟨m, hm, hrun⟩ := exec_cons.1 hrun
    rw [along_cons hm, ← ih hrun, List.flatMap_cons]
    by_cases hk : keeps s a
    · rw [h.keep hm hk, List.append_assoc]
      exact (and_iff_right hk).symm
    · refine iff_of_false (fun heq => ?_) fun hand => hk hand.1
      have h1 := h.lose hm hk
      have h2 := h.length_run hrun
      have h3 := congrArg List.length heq
      simp only [List.length_append] at h3
      omega

end Collects

/-- A guard holds along a run iff it holds wherever the run is cut. -/
theorem along_iff {G : σ → α → Prop} {s s' : σ} {as : List α} (hrun : exec step s as = some s') :
    Along step G s as ↔
      ∀ pre a post m, as = pre ++ a :: post → exec step s pre = some m → G m a := by
  induction as generalizing s with
  | nil => simp [Along]
  | cons a as ih =>
    obtain ⟨m, hm, hrun⟩ := exec_cons.1 hrun
    rw [along_cons hm, ih hrun]
    constructor
    · rintro ⟨hG, hrest⟩ pre b post n hcut hpre
      cases pre with
      | nil =>
        cases hpre
        cases hcut
        exact hG
      | cons c pre =>
        simp only [List.cons_append, List.cons.injEq] at hcut
        obtain ⟨rfl, rfl⟩ := hcut
        obtain ⟨m', hm', hpre⟩ := exec_cons.1 hpre
        rw [hm] at hm'
        cases hm'
        exact hrest pre b post n rfl hpre
    · intro h
      refine ⟨h [] a as s rfl rfl, fun pre b post n hcut hpre => ?_⟩
      exact h (a :: pre) b post n (by rw [hcut]; rfl) (exec_cons.2 ⟨m, hm, hpre⟩)

end Stm32Handler
