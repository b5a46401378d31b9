import Mathlib.Data.List.Perm.Basic
import Mathlib.Order.Lattice

/-!
# Trimmed lists

`Trimmed l rest` says `rest` is what remains of `l` without one smallest and one
largest entry. It is determined up to the order (`Trimmed.perm_rest`), and a
largest entry may be raised, or a smallest lowered, with the same entries
remaining (`Trimmed.raise`, `Trimmed.lower`).
-/

namespace Stm32Handler

variable {α : Type*} [LinearOrder α]

def Trimmed (l rest : List α) : Prop :=
  ∃ lo hi, l.Perm (lo :: hi :: rest) ∧ ∀ x ∈ l, lo ≤ x ∧ x ≤ hi

theorem Trimmed.perm {l l' rest : List α} (h : Trimmed l rest) (hl : l.Perm l') : Trimmed l' rest := by
  obtain ⟨lo, hi, hperm, hbound⟩ := h
  exact ⟨lo, hi, hl.symm.trans hperm, fun x hx => hbound x (hl.mem_iff.2 hx)⟩

/-- What remains does not depend on the choice. -/
theorem Trimmed.perm_rest {l rest rest' : List α} (h : Trimmed l rest) (h' : Trimmed l rest') :
    rest.Perm rest' := by
  obtain ⟨lo, hi, hperm, hbound⟩ := h
  obtain ⟨lo', hi', hperm', hbound'⟩ := h'
  have hmem : lo ∈ l ∧ hi ∈ l := ⟨hperm.mem_iff.2 (by simp), hperm.mem_iff.2 (by simp)⟩
  have hmem' : lo' ∈ l ∧ hi' ∈ l := ⟨hperm'.mem_iff.2 (by simp), hperm'.mem_iff.2 (by simp)⟩
  obtain rfl : lo = lo' := le_antisymm (hbound lo' hmem'.1).1 (hbound' lo hmem.1).1
  obtain rfl : hi = hi' := le_antisymm (hbound' hi hmem.2).2 (hbound hi' hmem'.2).2
  exact ((hperm.symm.trans hperm').cons_inv).cons_inv

/-- A list in descending order. -/
theorem trimmed_descending {hi lo : α} {rest : List α}
    (h : (hi :: (rest ++ [lo])).Pairwise (· ≥ ·)) : Trimmed (hi :: (rest ++ [lo])) rest := by
  rw [List.pairwise_cons, List.pairwise_append] at h
  obtain ⟨hhi, -, -, hlo⟩ := h
  have hends : lo ≤ hi := hhi lo (by simp)
  refine ⟨lo, hi, ?_, fun x hx => ?_⟩
  · exact ((List.perm_append_singleton lo rest).cons hi).trans (List.Perm.swap ..)
  · rw [List.mem_cons, List.mem_append, List.mem_singleton] at hx
    rcases hx with rfl | hx | rfl
    · exact ⟨hends, le_refl _⟩
    · exact ⟨hlo x hx lo (List.mem_singleton_self lo), hhi x (by simp [hx])⟩
    · exact ⟨le_refl _, hends⟩

/-- An outlier at the top. -/
theorem Trimmed.raise {hi hi' : α} {l rest : List α} (h : Trimmed (hi :: l) rest)
    (hl : ∀ x ∈ l, x ≤ hi) (hle : hi ≤ hi') : Trimmed (hi' :: l) rest := by
  obtain ⟨lo, top, hperm, hbound⟩ := h
  have htop : top ∈ hi :: l := hperm.mem_iff.2 (by simp)
  obtain rfl : hi = top :=
    le_antisymm (hbound hi List.mem_cons_self).2 ((List.mem_cons.1 htop).elim le_of_eq (hl top))
  have hrest : l.Perm (lo :: rest) := (hperm.trans (List.Perm.swap ..)).cons_inv
  refine ⟨lo, hi', (hrest.cons hi').trans (List.Perm.swap ..), fun x hx => ?_⟩
  rcases List.mem_cons.1 hx with rfl | hx
  · exact ⟨(hbound hi List.mem_cons_self).1.trans hle, le_refl _⟩
  · exact ⟨(hbound x (List.mem_cons_of_mem _ hx)).1, (hl x hx).trans hle⟩

/-- An outlier at the bottom. -/
theorem Trimmed.lower {lo lo' : α} {l rest : List α} (h : Trimmed (lo :: l) rest)
    (hl : ∀ x ∈ l, lo ≤ x) (hle : lo' ≤ lo) : Trimmed (lo' :: l) rest := by
  obtain ⟨bottom, hi, hperm, hbound⟩ := h
  have hbottom : bottom ∈ lo :: l := hperm.mem_iff.2 List.mem_cons_self
  obtain rfl : bottom = lo :=
    le_antisymm (hbound lo List.mem_cons_self).1
      ((List.mem_cons.1 hbottom).elim (fun h => h.ge) (hl bottom))
  have hrest : l.Perm (hi :: rest) := hperm.cons_inv
  refine ⟨lo', hi, hrest.cons lo', fun x hx => ?_⟩
  rcases List.mem_cons.1 hx with rfl | hx
  · exact ⟨le_refl _, hle.trans (hbound bottom List.mem_cons_self).2⟩
  · exact ⟨hle.trans (hl x hx), (hbound x (List.mem_cons_of_mem _ hx)).2⟩

end Stm32Handler
