import Mathlib.Data.List.Infix
import Stm32Handler.Lib.Run

/-!
# Turns

A log of taking and giving back something that one owner at a time may have.
The log is in order if it runs from nobody having it (`Orderly`); then two
owners never have it at once, and the turns of each are a taking, a giving
back, a taking and so on.
-/

namespace Stm32Handler

variable {K : Type*} [DecidableEq K]

structure Turn (K : Type*) where
  who : K
  /-- `false` for giving back -/
  take : Bool
  deriving DecidableEq

def turnStep : Option K → Turn K → Option (Option K)
  | none, ⟨k, true⟩ => some (some k)
  | some k', ⟨k, false⟩ => if k = k' then some none else none
  | _, _ => none

/-- The log leads from nobody to `owner`. -/
def Orderly (log : List (Turn K)) (owner : Option K) : Prop := exec turnStep none log = some owner

/-- Alternating values, the first of them `b`. -/
def Alternates : Bool → List Bool → Prop
  | _, [] => True
  | b, x :: xs => x = b ∧ Alternates (!b) xs

/-- The turns of one owner. -/
def turnsOf (k : K) (log : List (Turn K)) : List (Turn K) := log.filter (·.who = k)

@[simp] theorem turnsOf_nil (k : K) : turnsOf k [] = [] := rfl

theorem turnsOf_cons_self (k : K) (take : Bool) (log : List (Turn K)) :
    turnsOf k (⟨k, take⟩ :: log) = ⟨k, take⟩ :: turnsOf k log :=
  List.filter_cons_of_pos (by simp)

theorem turnsOf_cons_of_ne {k who : K} (h : who ≠ k) (take : Bool) (log : List (Turn K)) :
    turnsOf k (⟨who, take⟩ :: log) = turnsOf k log :=
  List.filter_cons_of_neg (by simpa using h)

theorem turnsOf_append (k : K) (log log' : List (Turn K)) :
    turnsOf k (log ++ log') = turnsOf k log ++ turnsOf k log' :=
  List.filter_append ..

theorem turnStep_take {owner owner' : Option K} {k : K} (h : turnStep owner ⟨k, true⟩ = some owner') :
    owner = none ∧ owner' = some k := by
  cases owner with
  | none => exact ⟨rfl, (Option.some.inj h).symm⟩
  | some k' => cases h

theorem turnStep_give {owner owner' : Option K} {k : K}
    (h : turnStep owner ⟨k, false⟩ = some owner') : owner = some k ∧ owner' = none := by
  cases owner with
  | none => cases h
  | some k' =>
    by_cases hk : k = k'
    · subst hk
      rw [turnStep, if_pos rfl] at h
      exact ⟨rfl, (Option.some.inj h).symm⟩
    · rw [turnStep, if_neg hk] at h
      cases h

theorem Orderly.append {log log' : List (Turn K)} {owner owner' : Option K} (h : Orderly log owner)
    (h' : exec turnStep owner log' = some owner') : Orderly (log ++ log') owner' :=
  exec_append.2 ⟨owner, h, h'⟩

theorem exec_take (k : K) : exec turnStep none [⟨k, true⟩] = some (some k) := rfl

theorem exec_give (k : K) : exec turnStep (some k) [⟨k, false⟩] = some none := by
  simp [exec, turnStep]

/-- While `k` has it, the next turn is that `k` gives it back. -/
theorem exec_owned {k : K} {log : List (Turn K)} {owner : Option K}
    (h : exec turnStep (some k) log = some owner) (hno : ⟨k, false⟩ ∉ log) : log = [] := by
  cases log with
  | nil => rfl
  | cons a log =>
    obtain ⟨m, hm, -⟩ := exec_cons.1 h
    obtain ⟨who, take⟩ := a
    cases take with
    | true => cases (turnStep_take hm).1
    | false =>
      obtain ⟨he, -⟩ := turnStep_give hm
      cases he
      exact absurd List.mem_cons_self hno

/-- **Exclusion**: between a taking and any later one lies the giving back. -/
theorem Orderly.exclusive {pre mid post : List (Turn K)} {owner : Option K} {k k' : K}
    (h : Orderly (pre ++ ⟨k, true⟩ :: (mid ++ ⟨k', true⟩ :: post)) owner) : ⟨k, false⟩ ∈ mid := by
  obtain ⟨m, -, h⟩ := exec_append.1 h
  obtain ⟨m', hm', h⟩ := exec_cons.1 h
  obtain ⟨-, rfl⟩ := turnStep_take hm'
  obtain ⟨n, hmid, h⟩ := exec_append.1 h
  obtain ⟨n', hn', -⟩ := exec_cons.1 h
  by_contra hno
  obtain rfl := exec_owned hmid hno
  cases hmid
  cases (turnStep_take hn').1

theorem exec_alternates {log : List (Turn K)} {owner owner' : Option K} (k : K)
    (h : exec turnStep owner log = some owner') :
    Alternates (decide (owner ≠ some k)) ((turnsOf k log).map Turn.take) := by
  induction log generalizing owner with
  | nil => trivial
  | cons a log ih =>
    obtain ⟨m, hm, h⟩ := exec_cons.1 h
    have hrest := ih h
    obtain ⟨who, take⟩ := a
    by_cases hk : who = k
    · subst hk
      rw [turnsOf_cons_self, List.map_cons]
      cases take with
      | true =>
        obtain ⟨rfl, rfl⟩ := turnStep_take hm
        exact ⟨rfl, by simpa using hrest⟩
      | false =>
        obtain ⟨rfl, rfl⟩ := turnStep_give hm
        exact ⟨by simp, by simpa using hrest⟩
    · rw [turnsOf_cons_of_ne hk]
      have hsame : (m ≠ some k) = (owner ≠ some k) := by
        cases take with
        | true =>
          obtain ⟨rfl, rfl⟩ := turnStep_take hm
          simp [hk]
        | false =>
          obtain ⟨rfl, rfl⟩ := turnStep_give hm
          simp [hk]
      simpa only [hsame] using hrest

/-- **Pairing**: the turns of one owner alternate, beginning with a taking. -/
theorem Orderly.alternates {log : List (Turn K)} {owner : Option K} (h : Orderly log owner) (k : K) :
    Alternates true ((turnsOf k log).map Turn.take) := by
  simpa using exec_alternates k h

/-- Who has it is who took it last. -/
theorem Orderly.last {log : List (Turn K)} {owner : Option K} (h : Orderly log owner) (k : K) :
    (turnsOf k log).getLast? = some ⟨k, true⟩ ↔ owner = some k := by
  induction log using List.reverseRecOn generalizing owner with
  | nil =>
    cases h
    simp [turnsOf]
  | append_singleton log a ih =>
    obtain ⟨m, hlog, hm⟩ := exec_append.1 h
    obtain ⟨m', hm, hnil⟩ := exec_cons.1 hm
    cases hnil
    have hrest := ih hlog
    obtain ⟨who, take⟩ := a
    by_cases hk : who = k
    · subst hk
      rw [turnsOf_append, turnsOf_cons_self, List.getLast?_append]
      cases take with
      | true =>
        obtain ⟨-, rfl⟩ := turnStep_take hm
        simp
      | false =>
        obtain ⟨-, rfl⟩ := turnStep_give hm
        simp
    · rw [turnsOf_append, turnsOf_cons_of_ne hk, turnsOf_nil, List.append_nil, hrest]
      cases take with
      | true =>
        obtain ⟨rfl, rfl⟩ := turnStep_take hm
        simp [hk]
      | false =>
        obtain ⟨rfl, rfl⟩ := turnStep_give hm
        simp [hk]

/-- The last of alternating values differs from the one before it. -/
theorem Alternates.last {b x : Bool} {xs : List Bool} (h : Alternates b (xs ++ [x])) :
    xs.getLast? = some (!x) ∨ xs = [] ∧ x = b := by
  induction xs generalizing b with
  | nil => exact .inr ⟨rfl, h.1⟩
  | cons y xs ih =>
    left
    rcases ih h.2 with hlast | ⟨rfl, rfl⟩
    · rw [List.getLast?_cons, hlast]
      rfl
    · rw [h.1]
      simp

theorem last_take {k : K} {log : List (Turn K)} {take : Bool} :
    ((turnsOf k log).map Turn.take).getLast? = some take ↔
      (turnsOf k log).getLast? = some ⟨k, take⟩ := by
  rw [List.getLast?_map, Option.map_eq_some_iff]
  constructor
  · rintro ⟨t, ht, rfl⟩
    have hk : t.who = k := by
      simpa using (List.mem_filter.1 (List.mem_of_getLast? ht)).2
    rw [ht, ← hk]
  · exact fun h => ⟨_, h, rfl⟩

/-- A turn that is not the other one of the pair breaks the pairing. -/
theorem not_alternates {k : K} {log : List (Turn K)} {take : Bool}
    (h : (turnsOf k log).getLast? ≠ some ⟨k, !take⟩)
    (hfirst : take = true → turnsOf k log ≠ []) :
    ¬ Alternates true ((turnsOf k (log ++ [⟨k, take⟩])).map Turn.take) := by
  intro halt
  rw [turnsOf_append, turnsOf_cons_self, turnsOf_nil, List.map_append] at halt
  rcases halt.last with hlast | ⟨hnil, htake⟩
  · exact h (last_take.1 hlast)
  · exact hfirst htake (List.map_eq_nil_iff.1 hnil)

end Stm32Handler
