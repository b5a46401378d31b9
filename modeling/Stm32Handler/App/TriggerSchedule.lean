import Stm32Handler.App.TimerManage
import Stm32Handler.Lib.Run

/-!
# The trigger schedule

A run registers and removes triggers and lets `processTrigger` come by, in any
order. Its log says what happened: which slot a registration got, which id was
removed, which calls a tick made and from which slots.

`Move` is the schedule without counters: filling an empty slot, emptying the
slots of an id, and a tick that makes the calls that are due and ages every
slot. Every step of the code is such a move (`step_moves`), and what a slot
does after a registration is read off the moves.
-/

namespace Stm32Handler.App

variable {φ π : Type*}

/-- What a run has done so far, one event a call. A tick without the semaphore
is `skipped`. -/
inductive Event (φ π : Type*) where
  | registered (slot : ℕ) (r : Registration φ π)
  | refused (r : Registration φ π)
  | removed (id : BitVec 16)
  | ticked (mem : ℕ → π → BitVec 32) (calls : List (ℕ × Call φ))
  | skipped

inductive Op (φ π : Type*) where
  | register (r : Registration φ π)
  | remove (id : BitVec 16)
  | process (taken : Bool) (mem : ℕ → π → BitVec 32)

structure TimerRun (φ π : Type*) where
  manage : SysTimeManage φ π
  log : List (Event φ π)

/-- One call, with the event it leaves in the log. -/
def perform (m : SysTimeManage φ π) : Op φ π → Event φ π × SysTimeManage φ π
  | .register r =>
    match m.registerEventTrigger r with
    | (some slot, m) => (.registered slot r, m)
    | (none, m) => (.refused r, m)
  | .remove id => (.removed id, m.removeEventTrigger id)
  | .process true mem => (.ticked mem (m.processTrigger mem).1, (m.processTrigger mem).2)
  | .process false _ => (.skipped, m)

def timerStep (s : TimerRun φ π) (o : Op φ π) : Option (TimerRun φ π) :=
  some { manage := (perform s.manage o).2, log := s.log ++ [(perform s.manage o).1] }

/-- After `SysTimeManage::init`. -/
def timerInit (m : SysTimeManage φ π) : TimerRun φ π := { manage := m.init, log := [] }

/-! ## The schedule -/

namespace Slot

def aged (s : Slot φ π) : Slot φ π := s.map fun x => (x.1, x.2 + 1)

def without (id : BitVec 16) (s : Slot φ π) : Slot φ π := s.filter fun x => x.1.id ≠ id

/-- The calls a slot makes at the next tick. -/
def calls (mem : π → BitVec 32) : Slot φ π → List (Call φ)
  | none => []
  | some (r, n) => if r.due (n + 1) then r.calls mem else []

end Slot

/-- The calls of a tick, slot after slot from slot `k` on. -/
def scheduledCalls (mem : ℕ → π → BitVec 32) (k : ℕ) (ss : List (Slot φ π)) : List (ℕ × Call φ) :=
  (ss.zipIdx k).flatMap fun x => (Slot.calls (mem x.2) x.1).map (Prod.mk x.2)

inductive Move (ss : List (Slot φ π)) : Event φ π → List (Slot φ π) → Prop
  | registered {i : ℕ} (r : Registration φ π) :
    ss[i]? = some none → Move ss (.registered i r) (ss.set i (some (r, 0)))
  | refused (r : Registration φ π) : none ∉ ss → Move ss (.refused r) ss
  | removed (id : BitVec 16) : Move ss (.removed id) (ss.map (Slot.without id))
  | ticked (mem : ℕ → π → BitVec 32) :
    Move ss (.ticked mem (scheduledCalls mem 0 ss)) (ss.map Slot.aged)
  | skipped : Move ss .skipped ss

/-! ## The loops follow the schedule -/

abbrev TableHolds (ts : List (TimeTrigger φ π)) (ss : List (Slot φ π)) : Prop :=
  List.Forall₂ Holds ts ss

theorem Holds.process {t : TimeTrigger φ π} {s : Slot φ π} (h : Holds t s)
    (mem : π → BitVec 32) :
    (t.process mem).1 = Slot.calls mem s ∧ Holds (t.process mem).2 (Slot.aged s) := by
  simp only [TimeTrigger.process, h.deleteNoCount]
  rcases s with - | ⟨r, n⟩
  · have hu : t.used = 0 := h
    simp only [hu, ne_eq, not_true_eq_false, ↓reduceIte]
    exact ⟨rfl, hu⟩
  · have hu : t.used ≠ 0 := Tracks.used_ne_zero h
    simp only [hu, ne_eq, not_false_eq_true, ↓reduceIte]
    exact Tracks.action h mem

theorem TableHolds.process {ts : List (TimeTrigger φ π)} {ss : List (Slot φ π)}
    (h : TableHolds ts ss) (mem : ℕ → π → BitVec 32) (k : ℕ) :
    (processLoop mem k ts).1 = scheduledCalls mem k ss ∧
      TableHolds (processLoop mem k ts).2 (ss.map Slot.aged) := by
  induction h generalizing k with
  | nil => exact ⟨rfl, .nil⟩
  | @cons t s ts ss ht hts ih =>
    obtain ⟨hcalls, hholds⟩ := ht.process (mem k)
    obtain ⟨ihcalls, ihholds⟩ := ih (k + 1)
    simp only [processLoop, hcalls, ihcalls, scheduledCalls, List.zipIdx_cons, List.flatMap_cons]
    exact ⟨trivial, .cons hholds ihholds⟩

/-- One row of the table runs. -/
theorem TableHolds.set {ts : List (TimeTrigger φ π)} {ss : List (Slot φ π)}
    (h : TableHolds ts ss) {i : ℕ} {s : Slot φ π} (hi : ss[i]? = some s) (mem : π → BitVec 32) :
    ∃ t, ts[i]? = some t ∧ Holds t s ∧
      TableHolds (ts.set i (t.process mem).2) (ss.set i (Slot.aged s)) := by
  induction h generalizing i with
  | nil => simp at hi
  | @cons t s' ts ss ht hts ih =>
    cases i with
    | zero =>
      obtain rfl : s' = s := by simpa using hi
      exact ⟨t, rfl, ht, .cons (ht.process mem).2 hts⟩
    | succ i =>
      obtain ⟨t', hget, hholds, hset⟩ := ih (i := i) (by simpa using hi)
      exact ⟨t', by simpa using hget, hholds, .cons ht hset⟩

/-- One round of the loop, for one slot of the table. -/
theorem TableHolds.processSlot {m : SysTimeManage φ π} {ss : List (Slot φ π)}
    (h : TableHolds m.triggerList ss) {i : ℕ} {s : Slot φ π} (hi : ss[i]? = some s)
    (mem : π → BitVec 32) :
    (m.processSlot i mem).1 = Slot.calls mem s ∧
      TableHolds (m.processSlot i mem).2.triggerList (ss.set i (Slot.aged s)) := by
  obtain ⟨t, hget, hholds, hset⟩ := h.set hi mem
  simp only [SysTimeManage.processSlot, hget]
  exact ⟨(hholds.process mem).1, hset⟩

theorem TableHolds.remove {ts : List (TimeTrigger φ π)} {ss : List (Slot φ π)}
    (h : TableHolds ts ss) (id : BitVec 16) :
    TableHolds
      (ts.map fun t => if t.used ≠ 0 ∧ t.triggerId = id then { t with used := 0 } else t)
      (ss.map (Slot.without id)) := by
  induction h with
  | nil => exact .nil
  | @cons t s ts ss ht hts ih =>
    refine .cons ?_ ih
    rcases s with - | ⟨r, n⟩
    · have hu : t.used = 0 := ht
      simp only [hu, ne_eq, not_true_eq_false, false_and, ↓reduceIte]
      exact hu
    · have hu : t.used ≠ 0 := Tracks.used_ne_zero ht
      by_cases hid : r.id = id
      · simp only [hu, ne_eq, not_false_eq_true, ht.id, hid, and_self, ↓reduceIte, Slot.without,
          Option.filter_some, not_true_eq_false, decide_false, Bool.false_eq_true]
        rfl
      · simp only [ht.id, hid, and_false, ↓reduceIte, Slot.without, Option.filter_some, ne_eq,
          not_false_eq_true, decide_true]
        exact ht

/-- The first slot without a registration is the one filled. -/
theorem TableHolds.register {ts : List (TimeTrigger φ π)} {ss : List (Slot φ π)}
    (h : TableHolds ts ss) (r : Registration φ π) (k : ℕ) :
    match ss.findIdx? Option.isNone with
    | none => (registerLoop r k ts).1 = none ∧ TableHolds (registerLoop r k ts).2 ss
    | some i => (registerLoop r k ts).1 = some (k + i) ∧
        TableHolds (registerLoop r k ts).2 (ss.set i (some (r, 0))) := by
  induction h generalizing k with
  | nil => exact ⟨rfl, .nil⟩
  | @cons t s ts ss ht hts ih =>
    simp only [registerLoop, ht.deleteNoCount, List.findIdx?_cons]
    rcases s with - | ⟨r', n⟩
    · have hu : t.used = 0 := ht
      simp only [hu, ↓reduceIte, Option.isNone_none]
      exact ⟨rfl, .cons (Tracks.initalize t r) hts⟩
    · have hu : t.used ≠ 0 := Tracks.used_ne_zero ht
      have ih := ih (k + 1)
      simp only [hu, ↓reduceIte, Option.isNone_some, Bool.false_eq_true]
      cases hfind : ss.findIdx? Option.isNone with
      | none =>
        rw [hfind] at ih
        exact ⟨ih.1, .cons ht ih.2⟩
      | some i =>
        rw [hfind] at ih
        exact ⟨by rw [ih.1, Nat.add_right_comm]; rfl, .cons ht ih.2⟩

/-- **Refinement**: one call of the code is one move of the schedule. -/
theorem perform_moves {m : SysTimeManage φ π} {ss : List (Slot φ π)}
    (h : TableHolds m.triggerList ss) (o : Op φ π) :
    ∃ ss', Move ss (perform m o).1 ss' ∧ TableHolds (perform m o).2.triggerList ss' := by
  cases o with
  | register r =>
    have hreg := h.register r 0
    simp only [perform, SysTimeManage.registerEventTrigger]
    cases hfind : ss.findIdx? Option.isNone with
    | none =>
      rw [hfind] at hreg
      simp only [hreg.1]
      refine ⟨ss, .refused r ?_, hreg.2⟩
      intro hmem
      rw [List.findIdx?_eq_none_iff] at hfind
      cases hfind none hmem
    | some i =>
      rw [hfind] at hreg
      simp only [hreg.1, Nat.zero_add]
      refine ⟨_, .registered r ?_, hreg.2⟩
      obtain ⟨hlt, hnone, -⟩ := List.findIdx?_eq_some_iff_getElem.1 hfind
      rw [List.getElem?_eq_getElem hlt, Option.isNone_iff_eq_none.1 hnone]
  | remove id => exact ⟨_, .removed id, h.remove id⟩
  | process taken mem =>
    cases taken with
    | false => exact ⟨ss, .skipped, h⟩
    | true =>
      obtain ⟨hcalls, hholds⟩ := h.process mem 0
      refine ⟨_, ?_, hholds⟩
      simp only [perform, SysTimeManage.processTrigger, hcalls]
      exact .ticked mem

theorem init_holds (m : SysTimeManage φ π) :
    TableHolds m.init.triggerList (List.replicate systemTimeMaxTriggers none) := by
  have h : ∀ ts : List (TimeTrigger φ π),
      TableHolds (ts.map fun t => { t with used := 0 }) (List.replicate ts.length none) := by
    intro ts
    induction ts with
    | nil => exact .nil
    | cons t ts ih => exact .cons rfl ih
  rw [← m.size]
  exact h m.triggerList

/-! ## What a registration does after it was made -/

namespace Event

def fills (i : ℕ) : Event φ π → Bool
  | .registered j _ => j == i
  | _ => false

def removes (id : BitVec 16) : Event φ π → Bool
  | .removed x => x == id
  | _ => false

def isTick : Event φ π → Bool
  | .ticked _ _ => true
  | _ => false

end Event

/-- The calls that a tick makes for the registration last put into slot `i`,
`since` being the events after that: none once the slot has a new one. -/
def callsOf (i : ℕ) (since : List (Event φ π)) (calls : List (ℕ × Call φ)) : List (Call φ) :=
  if since.any (Event.fills i) then [] else (calls.filter fun c => c.1 = i).map Prod.snd

/-- Slot `i`, after the events `since` that follow the registration of `r`
there: it still holds `r`, at the age of the ticks since; or `r.id` was
removed and the slot is empty or has been filled again. -/
structure Follows (i : ℕ) (r : Registration φ π) (since : List (Event φ π))
    (ss : List (Slot φ π)) : Prop where
  kept : since.any (Event.removes r.id) = false →
    since.any (Event.fills i) = false ∧ ss[i]? = some (some (r, since.countP Event.isTick))
  dropped : since.any (Event.removes r.id) = true →
    since.any (Event.fills i) = true ∨ ss[i]? = some none

theorem scheduledCalls_cons (mem : ℕ → π → BitVec 32) (k : ℕ) (s : Slot φ π) (ss : List (Slot φ π)) :
    scheduledCalls mem k (s :: ss) =
      (Slot.calls (mem k) s).map (Prod.mk k) ++ scheduledCalls mem (k + 1) ss := by
  simp [scheduledCalls]

theorem le_of_mem_scheduledCalls {mem : ℕ → π → BitVec 32} {k : ℕ} {ss : List (Slot φ π)}
    {c : ℕ × Call φ} (h : c ∈ scheduledCalls mem k ss) : k ≤ c.1 := by
  induction ss generalizing k with
  | nil => simp [scheduledCalls] at h
  | cons s ss ih =>
    rw [scheduledCalls_cons, List.mem_append] at h
    rcases h with h | h
    · obtain ⟨x, -, rfl⟩ := List.mem_map.1 h
      exact le_rfl
    · exact Nat.le_of_succ_le (ih h)

/-- What slot `k + i` adds to a tick. -/
theorem scheduledCalls_filter (mem : ℕ → π → BitVec 32) (ss : List (Slot φ π)) (k i : ℕ) :
    ((scheduledCalls mem k ss).filter fun c => c.1 = k + i).map Prod.snd =
      (ss[i]?.map (Slot.calls (mem (k + i)))).getD [] := by
  induction ss generalizing k i with
  | nil => simp [scheduledCalls]
  | cons s ss ih =>
    rw [scheduledCalls_cons, List.filter_append, List.map_append]
    cases i with
    | zero =>
      have hrest : (scheduledCalls mem (k + 1) ss).filter (fun c => c.1 = k + 0) = [] := by
        refine List.filter_eq_nil_iff.2 fun c hc => ?_
        have := le_of_mem_scheduledCalls hc
        simp only [decide_eq_true_eq]
        omega
      rw [hrest]
      simp [List.filter_map, Function.comp_def]
    | succ i =>
      have hi := ih (k + 1) i
      rw [Nat.add_right_comm, Nat.add_assoc k] at hi
      simp [List.filter_map, Function.comp_def, hi]

theorem Follows.start {ss : List (Slot φ π)} {i : ℕ} (h : ss[i]? = some none)
    (r : Registration φ π) : Follows i r [] (ss.set i (some (r, 0))) := by
  have hlt : i < ss.length := (List.getElem?_eq_some_iff.1 h).1
  exact ⟨fun _ => ⟨rfl, by rw [List.getElem?_set_self hlt]; rfl⟩, fun h => by cases h⟩

/-- Every move keeps the account of every earlier registration: other ids,
other slots and other registrations do not enter. -/
theorem Follows.move {ss ss' : List (Slot φ π)} {i : ℕ} {r : Registration φ π}
    {since : List (Event φ π)} {e : Event φ π} (h : Follows i r since ss) (hm : Move ss e ss') :
    Follows i r (since ++ [e]) ss' := by
  obtain ⟨hkept, hdropped⟩ := h
  constructor <;> simp only [List.any_append, List.any_cons, List.any_nil, Bool.or_false,
    Bool.or_eq_false_iff, Bool.or_eq_true, List.countP_append, List.countP_cons, List.countP_nil]
  · rintro ⟨hno, he⟩
    obtain ⟨hfill, hslot⟩ := hkept hno
    cases hm with
    | @registered j r' hj =>
      have hne : j ≠ i := by
        rintro rfl
        rw [hj] at hslot
        cases hslot
      refine ⟨⟨hfill, by simp [Event.fills, hne]⟩, ?_⟩
      rw [List.getElem?_set_ne hne, hslot]
      rfl
    | refused r' => exact ⟨⟨hfill, rfl⟩, hslot⟩
    | removed id =>
      have hid : r.id ≠ id := by
        intro heq
        simp [Event.removes, heq] at he
      refine ⟨⟨hfill, rfl⟩, ?_⟩
      simp [hslot, Slot.without, hid, Event.isTick]
    | ticked mem => exact ⟨⟨hfill, rfl⟩, by simp [hslot, Slot.aged, Event.isTick]⟩
    | skipped => exact ⟨⟨hfill, rfl⟩, hslot⟩
  · intro hor
    by_cases hbefore : since.any (Event.removes r.id) = true
    · rcases hdropped hbefore with hfill | hslot
      · exact .inl (.inl hfill)
      · cases hm with
        | @registered j r' hj =>
          by_cases hji : j = i
          · exact .inl (.inr (by simp [Event.fills, hji]))
          · exact .inr (by rw [List.getElem?_set_ne hji, hslot])
        | refused r' => exact .inr hslot
        | removed id => exact .inr (by simp [hslot, Slot.without])
        | ticked mem => exact .inr (by simp [hslot, Slot.aged])
        | skipped => exact .inr hslot
    · obtain ⟨hfill, hslot⟩ := hkept (Bool.eq_false_iff.2 hbefore)
      have he : Event.removes r.id e = true := hor.resolve_left hbefore
      cases hm with
      | removed id =>
        have hid : id = r.id := by simpa [Event.removes] using he
        exact .inr (by simp [hslot, Slot.without, hid])
      | _ => cases he

/-- A tick calls for the registration exactly if it is due there. -/
theorem Follows.calls {ss : List (Slot φ π)} {i : ℕ} {r : Registration φ π}
    {since : List (Event φ π)} (h : Follows i r since ss) (mem : ℕ → π → BitVec 32) :
    callsOf i since (scheduledCalls mem 0 ss) =
      if since.any (Event.removes r.id) = false ∧ r.due (since.countP Event.isTick + 1) then
        r.calls (mem i)
      else [] := by
  have hfilter := scheduledCalls_filter mem ss 0 i
  rw [Nat.zero_add] at hfilter
  unfold callsOf
  rw [hfilter]
  cases hrem : since.any (Event.removes r.id) with
  | false =>
    obtain ⟨hfill, hslot⟩ := h.kept hrem
    simp [hfill, hslot, Slot.calls]
  | true =>
    rcases h.dropped hrem with hfill | hslot
    · simp [hfill]
    · simp [hslot, Slot.calls]

/-! ## Every run -/

/-- What the log and the table have to do with each other. -/
structure ScheduleInv (s : TimerRun φ π) (ss : List (Slot φ π)) : Prop where
  holds : TableHolds s.manage.triggerList ss
  follows : ∀ pre i r since, s.log = pre ++ .registered i r :: since → Follows i r since ss
  told : ∀ pre i r since mem calls post,
    s.log = pre ++ .registered i r :: since ++ .ticked mem calls :: post →
      callsOf i since calls =
        if since.any (Event.removes r.id) = false ∧ r.due (since.countP Event.isTick + 1) then
          r.calls (mem i)
        else []

/-- A list with one more element, split at one element of it. -/
theorem concat_eq_split {α : Type*} {l pre post : List α} {e x : α}
    (h : l ++ [e] = pre ++ x :: post) :
    (l = pre ∧ e = x ∧ post = []) ∨ ∃ post', post = post' ++ [e] ∧ l = pre ++ x :: post' := by
  rcases List.eq_nil_or_concat post with rfl | ⟨post', y, rfl⟩
  · obtain ⟨rfl, hx⟩ := List.append_inj' h rfl
    exact .inl ⟨rfl, by simpa using hx, rfl⟩
  · rw [List.concat_eq_append, ← List.cons_append, ← List.append_assoc] at h
    obtain ⟨hl, he⟩ := List.append_inj' h rfl
    obtain rfl : e = y := by simpa using he
    exact .inr ⟨post', List.concat_eq_append .., hl⟩

theorem scheduleInv_step {s s' : TimerRun φ π} {o : Op φ π} (h : ∃ ss, ScheduleInv s ss)
    (hs : timerStep s o = some s') : ∃ ss, ScheduleInv s' ss := by
  obtain ⟨ss, hholds, hfollows, htold⟩ := h
  cases hs
  obtain ⟨ss', hmove, hholds'⟩ := perform_moves hholds o
  refine ⟨ss', hholds', ?_, ?_⟩
  · intro pre i r since hlog
    rcases concat_eq_split hlog with ⟨-, he, rfl⟩ | ⟨since', rfl, hlog'⟩
    · rw [he] at hmove
      cases hmove with
      | registered _ hempty => exact .start hempty r
    · exact (hfollows pre i r since' hlog').move hmove
  · intro pre i r since mem calls post hlog
    rcases concat_eq_split hlog with ⟨hlog', he, -⟩ | ⟨post', -, hlog'⟩
    · rw [he] at hmove
      cases hmove with
      | ticked => exact (hfollows pre i r since hlog').calls mem
    · exact htold pre i r since mem calls post' hlog'

theorem scheduleInv_init (m : SysTimeManage φ π) : ∃ ss, ScheduleInv (timerInit m) ss := by
  refine ⟨_, init_holds m, ?_, ?_⟩
  · intro pre i r since hlog
    exact absurd hlog (by simp [timerInit])
  · intro pre i r since mem calls post hlog
    exact absurd hlog (by simp [timerInit])

/-- **Trigger schedule**: whatever else is registered, removed and fired, a
tick calls for a registration exactly if its id was not removed since and the
tick is one of its own: `c`, `2c`, ..., `kc` ticks after it was made, or any
multiple of `c` if `k` is `TIMER_TRIGGER_FOREVER`. -/
theorem trigger_schedule (m : SysTimeManage φ π) (ops : List (Op φ π)) (s : TimerRun φ π)
    (hrun : exec timerStep (timerInit m) ops = some s) {pre since post : List (Event φ π)} {i : ℕ}
    {r : Registration φ π} {mem : ℕ → π → BitVec 32} {calls : List (ℕ × Call φ)}
    (hlog : s.log = pre ++ .registered i r :: since ++ .ticked mem calls :: post) :
    callsOf i since calls =
      if since.any (Event.removes r.id) = false ∧ r.due (since.countP Event.isTick + 1) then
        r.calls (mem i)
      else [] := by
  obtain ⟨ss, hinv⟩ := exec_inv_all (I := fun s => ∃ ss, ScheduleInv s ss)
    (fun _ _ _ h hs => scheduleInv_step h hs) (scheduleInv_init m) hrun
  exact hinv.told pre i r since mem calls post hlog

/-- A trigger of two shots two ticks apart, with another one registered,
fired and removed around it. -/
theorem trigger_schedule_two_shots :
    let mem := fun (_ : ℕ) (_ : Unit) => (7 : BitVec 32)
    let r : Registration Unit Unit := ⟨5, 2, some (), some (), 2⟩
    ∃ s, exec timerStep (timerInit (zeroManage Unit Unit))
        [.register ⟨1, 1, some (), none, 65535⟩, .register r, .process true mem, .remove 1,
          .process true mem] = some s ∧
      ∃ pre since calls,
        s.log = pre ++ .registered 1 r :: since ++ .ticked mem calls :: [] ∧
          callsOf 1 since calls =
            if since.any (Event.removes r.id) = false ∧
                r.due (since.countP Event.isTick + 1) then r.calls (mem 1) else [] := by
  intro mem r
  refine ⟨_, rfl, [_], [.ticked mem [_], .removed 1], _, rfl, ?_⟩
  exact @trigger_schedule _ _ (zeroManage Unit Unit)
    [.register ⟨1, 1, some (), none, 65535⟩, .register r, .process true mem, .remove 1,
      .process true mem] _ rfl [_] [.ticked mem [_], .removed 1] [] 1 r mem _ rfl

end Stm32Handler.App
