import Stm32Handler.Lib.Bytes

/-!
# The soft-timer triggers

`SysTimeManage` keeps ten `TimeTrigger` slots. `registerEventTrigger` takes the
first slot whose `used_` is 0, `removeEventTrigger` clears `used_` of every slot
with the id, and `processTrigger` runs `action` on every used slot. All three
hold `SysTimeSemaphore_` throughout, so each is one step; `processTrigger` does
not wait for the semaphore and may come away without it.

Above the slots stands the schedule: a slot is empty or holds a registration
with its age, the number of ticks since. `Registration.due` says at which ages
the registration fires, and `Holds` says what `time_cmp_count_` and
`triggerCount_` are then. Each function has one lemma that carries `Holds`
through it.
-/

namespace Stm32Handler.App

/-- `SYSTEM_TIME_MAX_TRIGGERS` -/
def systemTimeMaxTriggers : ℕ := 10

/-- `TIMER_TRIGGER_FOREVER` -/
def timerTriggerForever : BitVec 16 := 0xFFFF

/-- The arguments of `registerEventTrigger`; `func` and `pv` may be `NULL`. -/
structure Registration (φ π : Type*) where
  id : BitVec 16
  timeCnt : BitVec 32
  func : Option φ
  pv : Option π
  triggerCount : BitVec 16
  deriving DecidableEq

/-- `(*func)(id, *pv)`, or `(*func)(id)` where `pv` is `NULL`. -/
structure Call (φ : Type*) where
  func : φ
  id : BitVec 16
  arg : Option (BitVec 32)
  deriving DecidableEq

structure TimeTrigger (φ π : Type*) where
  triggerFunc : Option φ
  timeCompare : BitVec 32
  timeCmpCount : BitVec 32
  triggerVar : Option π
  used : Byte
  triggerId : BitVec 16
  triggerCount : BitVec 16

variable {φ π : Type*}

namespace TimeTrigger

def isMatch (t : TimeTrigger φ π) : Bool × TimeTrigger φ π :=
  let count := t.timeCmpCount + 1
  if t.timeCompare ≤ count then (true, { t with timeCmpCount := 0 })
  else (false, { t with timeCmpCount := count })

def initalize (t : TimeTrigger φ π) (r : Registration φ π) : TimeTrigger φ π :=
  { t with
    triggerId := r.id
    timeCompare := r.timeCnt
    triggerVar := r.pv
    triggerFunc := r.func
    triggerCount := r.triggerCount
    timeCmpCount := 0 }

/-- The call a trigger makes; `mem` is what `*trigger_var_` reads now. -/
def call (t : TimeTrigger φ π) (mem : π → BitVec 32) : List (Call φ) :=
  match t.triggerFunc with
  | none => []
  | some func => [{ func, id := t.triggerId, arg := t.triggerVar.map mem }]

def action (t : TimeTrigger φ π) (mem : π → BitVec 32) : List (Call φ) × TimeTrigger φ π :=
  if 0 < t.triggerCount then
    match t.isMatch with
    | (false, t) => ([], t)
    | (true, t) =>
      let t :=
        if t.triggerCount ≠ timerTriggerForever then { t with triggerCount := t.triggerCount - 1 }
        else t
      (t.call mem, t)
  else ([], t)

/-- The test at the head of both loops, commented "delete trigger no count":
it clears `used_` only where that is neither 0 nor 1. -/
def deleteNoCount (t : TimeTrigger φ π) : TimeTrigger φ π :=
  if t.used ≠ 1 ∧ t.triggerCount = 0 then { t with used := 0 } else t

/-- The body of the loop in `processTrigger`. -/
def process (t : TimeTrigger φ π) (mem : π → BitVec 32) : List (Call φ) × TimeTrigger φ π :=
  let t := t.deleteNoCount
  if t.used ≠ 0 then t.action mem else ([], t)

end TimeTrigger

/-! ## The three functions -/

/-- The loop of `processTrigger`, from slot `i` on. A call is recorded with
the slot that makes it; `mem i` is the memory when slot `i` acts, which the
callbacks before it may have changed. -/
def processLoop (mem : ℕ → π → BitVec 32) :
    ℕ → List (TimeTrigger φ π) → List (ℕ × Call φ) × List (TimeTrigger φ π)
  | _, [] => ([], [])
  | i, t :: ts =>
    let (calls, t) := t.process (mem i)
    let (rest, ts) := processLoop mem (i + 1) ts
    (calls.map (Prod.mk i) ++ rest, t :: ts)

/-- The loop of `registerEventTrigger`, from slot `i` on, with the slot taken. -/
def registerLoop (r : Registration φ π) :
    ℕ → List (TimeTrigger φ π) → Option ℕ × List (TimeTrigger φ π)
  | _, [] => (none, [])
  | i, t :: ts =>
    let t := t.deleteNoCount
    if t.used = 0 then (some i, { t with used := 1 }.initalize r :: ts)
    else
      let (slot, ts) := registerLoop r (i + 1) ts
      (slot, t :: ts)

/-- The object, with its `triggerList_` of ten. -/
structure SysTimeManage (φ π : Type*) where
  triggerList : List (TimeTrigger φ π)
  size : triggerList.length = systemTimeMaxTriggers

/-- The object in static storage. -/
def zeroManage (φ π : Type*) : SysTimeManage φ π where
  triggerList := List.replicate systemTimeMaxTriggers
    { triggerFunc := none, timeCompare := 0, timeCmpCount := 0, triggerVar := none, used := 0,
      triggerId := 0, triggerCount := 0 }
  size := List.length_replicate

theorem processLoop_length (mem : ℕ → π → BitVec 32) (i : ℕ) (ts : List (TimeTrigger φ π)) :
    (processLoop mem i ts).2.length = ts.length := by
  induction ts generalizing i with
  | nil => rfl
  | cons t ts ih => simp [processLoop, ih]

theorem registerLoop_length (r : Registration φ π) (i : ℕ) (ts : List (TimeTrigger φ π)) :
    (registerLoop r i ts).2.length = ts.length := by
  induction ts generalizing i with
  | nil => rfl
  | cons t ts ih =>
    simp only [registerLoop]
    split
    · rfl
    · simp [ih]

namespace SysTimeManage

/-- `init` clears every `used_`. -/
def init (m : SysTimeManage φ π) : SysTimeManage φ π where
  triggerList := m.triggerList.map fun t => { t with used := 0 }
  size := by rw [List.length_map, m.size]

/-- `processTrigger` once it has the semaphore. -/
def processTrigger (m : SysTimeManage φ π) (mem : ℕ → π → BitVec 32) :
    List (ℕ × Call φ) × SysTimeManage φ π :=
  ((processLoop mem 0 m.triggerList).1,
    { triggerList := (processLoop mem 0 m.triggerList).2
      size := by rw [processLoop_length, m.size] })

/-- One round of the loop of `processTrigger`, for a caller that is followed
slot by slot. -/
def processSlot (m : SysTimeManage φ π) (i : ℕ) (mem : π → BitVec 32) :
    List (Call φ) × SysTimeManage φ π :=
  match m.triggerList[i]? with
  | none => ([], m)
  | some t =>
    ((t.process mem).1,
      { triggerList := m.triggerList.set i (t.process mem).2
        size := by rw [List.length_set, m.size] })

def removeEventTrigger (m : SysTimeManage φ π) (id : BitVec 16) : SysTimeManage φ π where
  triggerList := m.triggerList.map fun t =>
    if t.used ≠ 0 ∧ t.triggerId = id then { t with used := 0 } else t
  size := by rw [List.length_map, m.size]

/-- `some slot` is `GLOBAL_OK` after slot `slot` was filled, `none` is
`GLOBAL_ERROR`. -/
def registerEventTrigger (m : SysTimeManage φ π) (r : Registration φ π) :
    Option ℕ × SysTimeManage φ π :=
  ((registerLoop r 0 m.triggerList).1,
    { triggerList := (registerLoop r 0 m.triggerList).2
      size := by rw [registerLoop_length, m.size] })

end SysTimeManage

/-! ## The schedule of one registration -/

namespace Registration

/-- A compare value of 0 matches at every tick, as 1 does. -/
def period (r : Registration φ π) : ℕ := max 1 r.timeCnt.toNat

/-- The registration fires at age `n`: at its ticks `c`, `2c`, ..., `kc`, or at
every multiple of `c` if it is forever. -/
def due (r : Registration φ π) (n : ℕ) : Prop :=
  ∃ j, 1 ≤ j ∧ (r.triggerCount = timerTriggerForever ∨ j ≤ r.triggerCount.toNat) ∧ n = j * r.period

/-- `triggerCount_` at age `n`. -/
def remaining (r : Registration φ π) (n : ℕ) : ℕ :=
  if r.triggerCount = timerTriggerForever then timerTriggerForever.toNat
  else r.triggerCount.toNat - n / r.period

def calls (r : Registration φ π) (mem : π → BitVec 32) : List (Call φ) :=
  match r.func with
  | none => []
  | some func => [{ func, id := r.id, arg := r.pv.map mem }]

theorem period_pos (r : Registration φ π) : 0 < r.period := by
  unfold period
  omega

theorem due_iff (r : Registration φ π) (n : ℕ) :
    r.due n ↔ 0 < n ∧ r.period ∣ n ∧
      (r.triggerCount = timerTriggerForever ∨ n / r.period ≤ r.triggerCount.toNat) := by
  have hp := r.period_pos
  constructor
  · rintro ⟨j, hj, hk, rfl⟩
    exact ⟨Nat.mul_pos hj hp, Nat.dvd_mul_left .., by rwa [Nat.mul_div_cancel _ hp]⟩
  · rintro ⟨hn, ⟨j, rfl⟩, hk⟩
    rw [Nat.mul_div_cancel_left _ hp] at hk
    exact ⟨j, Nat.pos_of_mul_pos_left hn, hk, Nat.mul_comm ..⟩

instance (r : Registration φ π) (n : ℕ) : Decidable (r.due n) :=
  decidable_of_iff _ (r.due_iff n).symm

/-- The tick from age `n` ends a period iff the compare counter reaches the
compare value there. -/
theorem dvd_succ_iff (r : Registration φ π) (n : ℕ) :
    r.period ∣ n + 1 ↔ r.timeCnt.toNat ≤ n % r.period + 1 := by
  have hlt := Nat.mod_lt n r.period_pos
  have hsplit : n + 1 = r.period * (n / r.period) + (n % r.period + 1) := by
    rw [← Nat.add_assoc, Nat.div_add_mod]
  have hdvd : r.period ∣ n + 1 ↔ r.period ∣ n % r.period + 1 := by
    rw [hsplit]
    exact (Nat.dvd_add_iff_right (Nat.dvd_mul_right ..)).symm
  rw [hdvd]
  constructor
  · intro h
    have := Nat.le_of_dvd (Nat.succ_pos _) h
    unfold period at *
    omega
  · intro h
    have : n % r.period + 1 = r.period := by
      unfold period at *
      omega
    rw [this]

theorem mod_succ_of_not_dvd (r : Registration φ π) {n : ℕ} (h : ¬ r.period ∣ n + 1) :
    (n + 1) % r.period = n % r.period + 1 := by
  have hlt := Nat.mod_lt n r.period_pos
  have hne : n % r.period + 1 ≠ r.period := by
    intro he
    rw [dvd_succ_iff, he] at h
    exact h (le_max_right ..)
  rw [← Nat.mod_add_mod, Nat.mod_eq_of_lt (by omega)]

/-- A trigger without remaining count has seen its last tick. -/
theorem not_due_of_remaining_eq_zero (r : Registration φ π) {n : ℕ} (h : r.remaining n = 0) :
    ¬ r.due (n + 1) := by
  rw [due_iff]
  rintro ⟨-, hdvd, hk⟩
  rw [Nat.succ_div_of_dvd hdvd] at hk
  unfold remaining at h
  split at h
  · exact absurd h (by decide)
  · rename_i hne
    rcases hk with he | hk
    · exact hne he
    · omega

theorem remaining_succ_of_not_dvd (r : Registration φ π) {n : ℕ} (h : ¬ r.period ∣ n + 1) :
    r.remaining (n + 1) = r.remaining n := by
  unfold remaining
  rw [Nat.succ_div_of_not_dvd h]

theorem remaining_succ_of_dvd (r : Registration φ π) {n : ℕ} (h : r.period ∣ n + 1) :
    r.remaining (n + 1) =
      if r.triggerCount = timerTriggerForever then r.remaining n else r.remaining n - 1 := by
  unfold remaining
  rw [Nat.succ_div_of_dvd h]
  split <;> omega

theorem remaining_eq_zero_succ (r : Registration φ π) {n : ℕ} (h : r.remaining n = 0) :
    r.remaining (n + 1) = 0 := by
  by_cases hd : r.period ∣ n + 1
  · rw [remaining_succ_of_dvd r hd, h, Nat.zero_sub, ite_self]
  · rw [remaining_succ_of_not_dvd r hd, h]

end Registration

/-! ## What a slot holds -/

/-- The slot was filled with `r`, `n` ticks ago. The compare counter stops
with the last firing. -/
structure Tracks (t : TimeTrigger φ π) (r : Registration φ π) (n : ℕ) : Prop where
  used : t.used = 1
  id : t.triggerId = r.id
  func : t.triggerFunc = r.func
  var : t.triggerVar = r.pv
  compare : t.timeCompare = r.timeCnt
  count : t.triggerCount.toNat = r.remaining n
  phase : 0 < r.remaining n → t.timeCmpCount.toNat = n % r.period

/-- A slot of the schedule: empty, or a registration with its age. -/
abbrev Slot (φ π : Type*) := Option (Registration φ π × ℕ)

def Holds (t : TimeTrigger φ π) : Slot φ π → Prop
  | none => t.used = 0
  | some (r, n) => Tracks t r n

theorem Tracks.used_ne_zero {t : TimeTrigger φ π} {r : Registration φ π} {n : ℕ}
    (h : Tracks t r n) : t.used ≠ 0 := by
  rw [h.used]
  decide

/-- The clean-up finds nothing: a used slot has `used_` 1. -/
theorem Holds.deleteNoCount {t : TimeTrigger φ π} {s : Slot φ π} (h : Holds t s) :
    t.deleteNoCount = t := by
  unfold TimeTrigger.deleteNoCount
  split
  · rename_i hc
    rcases s with - | ⟨r, n⟩
    · have hu : t.used = 0 := h
      rw [← hu]
    · exact absurd h.used hc.1
  · rfl

theorem Tracks.call {t : TimeTrigger φ π} {r : Registration φ π} {n : ℕ} (h : Tracks t r n)
    (mem : π → BitVec 32) : t.call mem = r.calls mem := by
  simp only [TimeTrigger.call, Registration.calls, h.func, h.id, h.var]

theorem Tracks.initalize (t : TimeTrigger φ π) (r : Registration φ π) :
    Tracks ({ t with used := 1 }.initalize r) r 0 where
  used := rfl
  id := rfl
  func := rfl
  var := rfl
  compare := rfl
  count := by
    simp only [TimeTrigger.initalize, Registration.remaining, Nat.zero_div, Nat.sub_zero]
    split
    · rename_i h
      rw [h]
    · rfl
  phase := fun _ => rfl

theorem Tracks.cmpCount_succ {t : TimeTrigger φ π} {r : Registration φ π} {n : ℕ}
    (h : Tracks t r n) (hrem : 0 < r.remaining n) :
    (t.timeCmpCount + 1).toNat = n % r.period + 1 := by
  have hlt := Nat.mod_lt n r.period_pos
  have hc := r.timeCnt.isLt
  rw [BitVec.toNat_add, h.phase hrem]
  apply Nat.mod_eq_of_lt
  have hle : n % r.period + 1 ≤ max 1 r.timeCnt.toNat := hlt
  have hone : (1 : BitVec 32).toNat = 1 := rfl
  omega

/-- `isMatch` of a slot with remaining count. -/
theorem Tracks.isMatch {t : TimeTrigger φ π} {r : Registration φ π} {n : ℕ} (h : Tracks t r n)
    (hrem : 0 < r.remaining n) :
    t.isMatch =
      if r.period ∣ n + 1 then (true, { t with timeCmpCount := 0 })
      else (false, { t with timeCmpCount := t.timeCmpCount + 1 }) := by
  have hiff : t.timeCompare ≤ t.timeCmpCount + 1 ↔ r.period ∣ n + 1 := by
    rw [BitVec.le_def, h.cmpCount_succ hrem, h.compare, r.dvd_succ_iff]
  unfold TimeTrigger.isMatch
  simp only [hiff]

theorem Tracks.pos_iff {t : TimeTrigger φ π} {r : Registration φ π} {n : ℕ} (h : Tracks t r n) :
    0 < t.triggerCount ↔ 0 < r.remaining n := by
  rw [← h.count, BitVec.lt_def]
  rfl

/-- A registration that never ends keeps `TIMER_TRIGGER_FOREVER` in its slot,
any other has less. -/
theorem Tracks.forever_iff {t : TimeTrigger φ π} {r : Registration φ π} {n : ℕ} (h : Tracks t r n) :
    t.triggerCount = timerTriggerForever ↔ r.triggerCount = timerTriggerForever := by
  have hcount := h.count
  unfold Registration.remaining at hcount
  have hne : r.triggerCount ≠ timerTriggerForever → r.triggerCount.toNat < 65535 := by
    intro hne
    have := mt BitVec.eq_of_toNat_eq hne
    have hlt := r.triggerCount.isLt
    have : timerTriggerForever.toNat = 65535 := rfl
    omega
  constructor
  · intro he
    by_contra hr
    rw [if_neg hr, he] at hcount
    have : timerTriggerForever.toNat = 65535 := rfl
    have := hne hr
    have := Nat.sub_le r.triggerCount.toNat (n / r.period)
    omega
  · intro he
    rw [if_pos he] at hcount
    exact BitVec.eq_of_toNat_eq hcount

/-- A tick that ends a period while count remains: the trigger fires. -/
theorem Tracks.action_match {t : TimeTrigger φ π} {r : Registration φ π} {n : ℕ}
    (h : Tracks t r n) (hrem : 0 < r.remaining n) (hd : r.period ∣ n + 1) (mem : π → BitVec 32) :
    (t.action mem).1 = r.calls mem ∧ Tracks (t.action mem).2 r (n + 1) := by
  have hmatch := h.isMatch hrem
  rw [if_pos hd] at hmatch
  have hphase : 0 = (n + 1) % r.period := (Nat.mod_eq_zero_of_dvd hd).symm
  have hsucc := r.remaining_succ_of_dvd hd
  simp only [TimeTrigger.action, h.pos_iff.2 hrem, ↓reduceIte, hmatch]
  by_cases hf : t.triggerCount = timerTriggerForever
  · rw [if_pos (h.forever_iff.1 hf)] at hsucc
    simp only [hf, ne_eq, not_true_eq_false, ↓reduceIte]
    refine ⟨h.call mem, h.used, h.id, h.func, h.var, h.compare, ?_, fun _ => hphase⟩
    rw [hsucc, ← h.count]
    simp only [hf]
  · rw [if_neg (mt h.forever_iff.2 hf)] at hsucc
    simp only [hf, ne_eq, not_false_eq_true, ↓reduceIte]
    refine ⟨h.call mem, h.used, h.id, h.func, h.var, h.compare, ?_, fun _ => hphase⟩
    have hle : (1 : BitVec 16) ≤ t.triggerCount := by
      rw [BitVec.le_def, h.count]
      exact hrem
    rw [hsucc, ← h.count]
    exact BitVec.toNat_sub_of_le hle

/-- A tick inside a period only moves the compare counter. -/
theorem Tracks.action_wait {t : TimeTrigger φ π} {r : Registration φ π} {n : ℕ}
    (h : Tracks t r n) (hrem : 0 < r.remaining n) (hd : ¬ r.period ∣ n + 1) (mem : π → BitVec 32) :
    (t.action mem).1 = [] ∧ Tracks (t.action mem).2 r (n + 1) := by
  have hmatch := h.isMatch hrem
  rw [if_neg hd] at hmatch
  simp only [TimeTrigger.action, h.pos_iff.2 hrem, ↓reduceIte, hmatch, true_and]
  refine ⟨h.used, h.id, h.func, h.var, h.compare, ?_, fun _ => ?_⟩
  · exact h.count.trans (r.remaining_succ_of_not_dvd hd).symm
  · exact (h.cmpCount_succ hrem).trans (r.mod_succ_of_not_dvd hd).symm

/-- **One tick of a filled slot**: it makes its call iff the registration is
due at its new age. -/
theorem Tracks.action {t : TimeTrigger φ π} {r : Registration φ π} {n : ℕ} (h : Tracks t r n)
    (mem : π → BitVec 32) :
    (t.action mem).1 = (if r.due (n + 1) then r.calls mem else []) ∧
      Tracks (t.action mem).2 r (n + 1) := by
  by_cases hrem : 0 < r.remaining n
  · by_cases hd : r.period ∣ n + 1
    · have hdue : r.due (n + 1) := by
        refine (r.due_iff _).2 ⟨Nat.succ_pos n, hd, ?_⟩
        rw [Nat.succ_div_of_dvd hd]
        unfold Registration.remaining at hrem
        split at hrem
        · exact .inl ‹_›
        · exact .inr (by omega)
      rw [if_pos hdue]
      exact h.action_match hrem hd mem
    · have hdue : ¬ r.due (n + 1) := fun hdue => hd ((r.due_iff _).1 hdue).2.1
      rw [if_neg hdue]
      exact h.action_wait hrem hd mem
  · have hzero : r.remaining n = 0 := by omega
    have hzero' := r.remaining_eq_zero_succ hzero
    rw [if_neg (r.not_due_of_remaining_eq_zero hzero)]
    simp only [TimeTrigger.action, h.pos_iff, hrem, ↓reduceIte, true_and]
    exact ⟨h.used, h.id, h.func, h.var, h.compare, by rw [h.count, hzero, hzero'],
      fun hlt => by omega⟩

end Stm32Handler.App
