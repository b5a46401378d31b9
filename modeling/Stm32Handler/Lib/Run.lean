import Mathlib.Algebra.GroupWithZero.Nat
import Mathlib.Data.Nat.Notation

/-!
# Runs of a step function

`step s a = some s'` says action `a` is enabled in `s` and leads to `s'`;
`none` says it is not enabled. `exec step s as` runs the actions `as` in
order. An interleaving of several parties is one list of actions.

`Along step G s as` says every action of the run starts in a state where the
guard `G` allows it. `exec_inv` is the induction rule: what every guarded step
keeps, every guarded run keeps.
-/

namespace Stm32Handler

variable {σ α : Type*} {step : σ → α → Option σ}

/-- The state after the actions `as`, if each of them is enabled in turn. -/
def exec (step : σ → α → Option σ) (s : σ) : List α → Option σ
  | [] => some s
  | a :: as => (step s a).bind fun s' => exec step s' as

/-- Every action of the run meets the guard in the state it starts from. -/
def Along (step : σ → α → Option σ) (G : σ → α → Prop) (s : σ) : List α → Prop
  | [] => True
  | a :: as => G s a ∧ ∀ s', step s a = some s' → Along step G s' as

@[simp] theorem exec_nil (s : σ) : exec step s [] = some s := rfl

theorem exec_cons {s s' : σ} {a : α} {as : List α} :
    exec step s (a :: as) = some s' ↔ ∃ m, step s a = some m ∧ exec step m as = some s' := by
  simp [exec, Option.bind_eq_some_iff]

theorem exec_append {s s' : σ} {as bs : List α} :
    exec step s (as ++ bs) = some s' ↔ ∃ m, exec step s as = some m ∧ exec step m bs = some s' := by
  induction as generalizing s with
  | nil => simp
  | cons a as ih =>
    simp only [List.cons_append, exec_cons, ih]
    constructor
    · rintro ⟨m, hm, m', hm', h⟩
      exact ⟨m', ⟨m, hm, hm'⟩, h⟩
    · rintro ⟨m', ⟨m, hm, hm'⟩, h⟩
      exact ⟨m, hm, m', hm', h⟩

theorem along_cons {G : σ → α → Prop} {s m : σ} {a : α} {as : List α} (h : step s a = some m) :
    Along step G s (a :: as) ↔ G s a ∧ Along step G m as := by
  simp [Along, h]

theorem along_append {G : σ → α → Prop} {s m : σ} {as bs : List α} (h : exec step s as = some m) :
    Along step G s (as ++ bs) ↔ Along step G s as ∧ Along step G m bs := by
  induction as generalizing s with
  | nil =>
    cases h
    exact (iff_of_eq (true_and _)).symm
  | cons a as ih =>
    obtain ⟨s', hs', h⟩ := exec_cons.1 h
    rw [List.cons_append, along_cons hs', along_cons hs', ih h, and_assoc]

theorem along_left {G : σ → α → Prop} {s : σ} {as bs : List α} (h : Along step G s (as ++ bs)) :
    Along step G s as := by
  induction as generalizing s with
  | nil => trivial
  | cons a as ih => exact ⟨h.1, fun s' hs' => ih (h.2 s' hs')⟩

/-- Actions that every state allows. -/
theorem along_of_forall {G : σ → α → Prop} (s : σ) {as : List α} (h : ∀ a ∈ as, ∀ s, G s a) :
    Along step G s as := by
  induction as generalizing s with
  | nil => trivial
  | cons a as ih =>
    rw [List.forall_mem_cons] at h
    exact ⟨h.1 s, fun s' _ => ih s' h.2⟩

theorem along_true (s : σ) (as : List α) : Along step (fun _ _ => True) s as :=
  along_of_forall s fun _ _ _ => trivial

/-- A guard that can be evaluated can be evaluated along a run. -/
def Along.decide {G : σ → α → Prop} [∀ s a, Decidable (G s a)] :
    (s : σ) → (as : List α) → Decidable (Along step G s as)
  | _, [] => isTrue trivial
  | s, a :: as =>
    match h : step s a with
    | none => decidable_of_iff (G s a) (by simp [Along, h])
    | some m =>
      have : Decidable (Along step G m as) := Along.decide m as
      decidable_of_iff (G s a ∧ Along step G m as) (along_cons h).symm

instance {G : σ → α → Prop} [∀ s a, Decidable (G s a)] (s : σ) (as : List α) :
    Decidable (Along step G s as) :=
  Along.decide s as

/-- **The invariant rule**: what every step under the guard keeps, every run
under the guard keeps. -/
theorem exec_inv {G : σ → α → Prop} {I : σ → Prop}
    (hstep : ∀ s a s', I s → G s a → step s a = some s' → I s') {s s' : σ} {as : List α}
    (hI : I s) (hG : Along step G s as) (h : exec step s as = some s') : I s' := by
  induction as generalizing s with
  | nil =>
    cases h
    exact hI
  | cons a as ih =>
    obtain ⟨m, hm, h⟩ := exec_cons.1 h
    exact ih (hstep s a m hI hG.1 hm) (hG.2 m hm) h

/-- **The exactness rule**: if a step under the guard keeps the invariant, and
any other step leads straight to a state without `P`, then `P` holds in every
state of a run iff the guard holds along it. -/
theorem forall_states_iff {G : σ → α → Prop} {I P : σ → Prop} (hP : ∀ s, I s → P s)
    (hkeep : ∀ s a s', I s → G s a → step s a = some s' → I s')
    (hbad : ∀ s a s', I s → ¬ G s a → step s a = some s' → ¬ P s') {s s' : σ} {as : List α}
    (hI : I s) (h : exec step s as = some s') :
    (∀ pre post m, as = pre ++ post → exec step s pre = some m → P m) ↔ Along step G s as := by
  induction as generalizing s with
  | nil =>
    refine iff_of_true (fun pre post m hcut hpre => ?_) trivial
    obtain ⟨rfl, rfl⟩ := List.append_eq_nil_iff.1 hcut.symm
    cases hpre
    exact hP s hI
  | cons a as ih =>
    obtain ⟨m, hm, h⟩ := exec_cons.1 h
    rw [along_cons hm]
    by_cases hG : G s a
    · rw [← ih (hkeep s a m hI hG hm) h]
      constructor
      · exact fun hall => ⟨hG, fun pre post n hcut hpre =>
          hall (a :: pre) post n (by rw [hcut]; rfl) (exec_cons.2 ⟨m, hm, hpre⟩)⟩
      · rintro ⟨-, hall⟩ pre post n hcut hpre
        cases pre with
        | nil =>
          cases hpre
          exact hP s hI
        | cons b pre =>
          simp only [List.cons_append, List.cons.injEq] at hcut
          obtain ⟨rfl, rfl⟩ := hcut
          obtain ⟨m', hm', hpre⟩ := exec_cons.1 hpre
          obtain rfl : m = m' := by rw [hm] at hm'; exact Option.some.inj hm'
          exact hall pre post n rfl hpre
    · refine iff_of_false (fun hall => ?_) fun hand => hG hand.1
      exact hbad s a m hI hG hm (hall [a] as m rfl (exec_cons.2 ⟨m, hm, rfl⟩))

/-- The invariant rule without a guard. -/
theorem exec_inv_all {I : σ → Prop} (hstep : ∀ s a s', I s → step s a = some s' → I s')
    {s s' : σ} {as : List α} (hI : I s) (h : exec step s as = some s') : I s' :=
  exec_inv (G := fun _ _ => True) (fun s a s' hI _ => hstep s a s' hI) hI (along_true s as) h

/-- **The completion rule**: if what is allowed can always be done and keeps
the invariant, every run under the guard goes through. -/
theorem exec_completes {G : σ → α → Prop} {I : σ → Prop}
    (hstep : ∀ s a, I s → G s a → ∃ s', step s a = some s' ∧ I s') {s : σ} {as : List α} (hI : I s)
    (hG : Along step G s as) : ∃ s', exec step s as = some s' ∧ I s' := by
  induction as generalizing s with
  | nil => exact ⟨s, rfl, hI⟩
  | cons a as ih =>
    obtain ⟨m, hm, hIm⟩ := hstep s a hI hG.1
    obtain ⟨s', hrun, hI'⟩ := ih hIm (hG.2 m hm)
    exact ⟨s', exec_cons.2 ⟨m, hm, hrun⟩, hI'⟩

/-- **Settling**: an action that is always enabled and lowers the measure by
one until it is zero gets it there in as many steps. -/
theorem exec_settles {I : σ → Prop} {m : σ → ℕ} {a : α}
    (hstep : ∀ s, I s → ∃ s', step s a = some s' ∧ I s' ∧ m s' = m s - 1) {s : σ} (hI : I s) :
    ∃ s', exec step s (List.replicate (m s) a) = some s' ∧ I s' ∧ m s' = 0 := by
  generalize hn : m s = n
  induction n generalizing s with
  | zero => exact ⟨s, rfl, hI, hn⟩
  | succ n ih =>
    obtain ⟨s1, hs1, hI1, hm1⟩ := hstep s hI
    obtain ⟨s2, hrun, hI2, hm2⟩ := ih hI1 (by omega)
    exact ⟨s2, exec_cons.2 ⟨s1, hs1, hrun⟩, hI2, hm2⟩

/-- What the actions of a run put out, in order. -/
def history {β : Type*} (step : σ → α → Option σ) (out : σ → α → List β) (s : σ) : List α → List β
  | [] => []
  | a :: as => out s a ++ (step s a).elim [] fun s' => history step out s' as

/-- A log that every guarded step extends by what it puts out is the history of
the run. -/
theorem exec_history_inv {β : Type*} {out : σ → α → List β} {log : σ → List β} {G : σ → α → Prop}
    {I : σ → Prop}
    (hstep : ∀ s a s', I s → G s a → step s a = some s' → I s' ∧ log s' = log s ++ out s a) {s s' : σ}
    {as : List α} (hI : I s) (hG : Along step G s as) (h : exec step s as = some s') :
    log s' = log s ++ history step out s as := by
  induction as generalizing s with
  | nil =>
    cases h
    exact (List.append_nil _).symm
  | cons a as ih =>
    obtain ⟨m, hm, h⟩ := exec_cons.1 h
    obtain ⟨hIm, hlog⟩ := hstep s a m hI hG.1 hm
    rw [ih hIm (hG.2 m hm) h, hlog, List.append_assoc]
    simp only [history, hm, Option.elim_some]

/-- The same for a log that every step extends. -/
theorem exec_history {β : Type*} {out : σ → α → List β} {log : σ → List β}
    (hstep : ∀ s a s', step s a = some s' → log s' = log s ++ out s a) {s s' : σ} {as : List α}
    (h : exec step s as = some s') : log s' = log s ++ history step out s as :=
  exec_history_inv (I := fun _ => True) (fun s a s' _ _ hs => ⟨trivial, hstep s a s' hs⟩) trivial
    (along_true s as) h

/-- What depends on the actions alone. -/
theorem history_eq_flatMap {β : Type*} {out : α → List β} {s s' : σ} {as : List α}
    (h : exec step s as = some s') : history step (fun _ => out) s as = as.flatMap out := by
  induction as generalizing s with
  | nil => rfl
  | cons a as ih =>
    obtain ⟨m, hm, h⟩ := exec_cons.1 h
    simp only [history, hm, Option.elim_some, List.flatMap_cons, ih h]

/-- **The amortised rule**: if what a step costs is covered by the fall of the
potential and what its action brings in, the actions of a run pay for the run. -/
theorem exec_amortised {Φ : σ → ℕ} {cost gain : α → ℕ}
    (hstep : ∀ s a s', step s a = some s' → Φ s' + cost a ≤ Φ s + gain a) {s s' : σ} {as : List α}
    (h : exec step s as = some s') : Φ s' + (as.map cost).sum ≤ Φ s + (as.map gain).sum := by
  induction as generalizing s with
  | nil =>
    cases h
    exact Nat.le_refl _
  | cons a as ih =>
    obtain ⟨m, hm, h⟩ := exec_cons.1 h
    have hrest := ih h
    have hfirst := hstep s a m hm
    rw [List.map_cons, List.map_cons, List.sum_cons, List.sum_cons]
    omega

end Stm32Handler
