import Mathlib.Tactic.IntervalCases
import Stm32Handler.App.MultiButton

/-!
# The gestures of a button

What the driver reports over a whole run, by how long the key is held and left
alone. A level counts once three samples in a row agree on it (`level_settled`).
Of the levels that come out of the debouncing the driver makes gestures: a press
is long from its 202nd tick on, a click ends with the 17th tick of a release, a
press within 16 ticks of a release belongs to the gesture before. A later press
of a gesture may be held for 14 ticks: with 15 or 16 the gesture ends without a
click, and from the 17th on the driver waits for no release.
-/

namespace Stm32Handler.App

namespace Button

/-- Calls of `button_handler`, with the callbacks they make. -/
def run (b : Button) : List Bool → Button × List PressEvent
  | [] => (b, [])
  | level :: levels =>
    let (b, calls) := b.buttonHandler level
    let (b, rest) := b.run levels
    (b, calls ++ rest)

/-! ## The debouncing -/

/-- The level that three samples in a row have last agreed on; the samples are
the latest first. -/
def settled (init : Bool) : List Bool → Bool
  | z :: y :: x :: rest => if x = y ∧ y = z then z else settled init (y :: x :: rest)
  | _ => init

/-- The samples at the end that differ from the level. -/
def differing (level : Bool) (past : List Bool) : ℕ := (past.takeWhile (· != level)).length

structure Steady (init : Bool) (b : Button) (past : List Bool) : Prop where
  level : b.buttonLevel = settled init past
  cnt : b.debounceCnt = BitVec.ofNat 3 (differing b.buttonLevel past)
  differing_le : differing b.buttonLevel past ≤ 2

theorem differing_same (level : Bool) (past : List Bool) : differing level (level :: past) = 0 := by
  simp [differing]

theorem differing_other {level sample : Bool} (h : sample ≠ level) (past : List Bool) :
    differing level (sample :: past) = differing level past + 1 := by
  simp [differing, h]

/-- A sample at the level, or fewer than three against it, change nothing. -/
theorem settled_cons {init sample : Bool} {past : List Bool}
    (h : sample = settled init past ∨ differing (settled init past) past < 2) :
    settled init (sample :: past) = settled init past := by
  match past, h with
  | [], _ => rfl
  | [_], _ => rfl
  | y :: x :: rest, h =>
    generalize hlevel : settled init (y :: x :: rest) = level at h
    rw [settled, hlevel]
    split
    · next hall =>
      obtain ⟨rfl, rfl⟩ := hall
      rcases h with h | h
      · exact h
      · by_contra hne
        rw [differing_other hne, differing_other hne] at h
        omega
    · rfl

/-- The third sample in a row against the level. -/
theorem settled_third {init sample : Bool} {past : List Bool} (hne : sample ≠ settled init past)
    (h : differing (settled init past) past = 2) : settled init (sample :: past) = sample := by
  match past, h with
  | [], h => simp [differing] at h
  | [y], h =>
    by_cases hy : y = settled init [y]
    · rw [← hy, differing_same] at h
      omega
    · rw [differing_other hy] at h
      simp [differing] at h
  | y :: x :: rest, h =>
    generalize settled init (y :: x :: rest) = level at h hne
    by_cases hy : y = level
    · rw [← hy, differing_same] at h
      omega
    · rw [differing_other hy] at h
      by_cases hx : x = level
      · rw [← hx, differing_same] at h
        omega
      · have hyx : x = y := by
          cases x <;> cases y <;> cases level <;> simp_all
        have hys : y = sample := by
          cases sample <;> cases y <;> cases level <;> simp_all
        rw [settled, if_pos ⟨hyx, hys⟩]

theorem debounce_same {b : Button} {sample : Bool} (h : sample = b.buttonLevel) :
    (b.debounce sample).buttonLevel = b.buttonLevel ∧ (b.debounce sample).debounceCnt = 0 := by
  subst h
  simp only [debounce]
  split <;> split <;> simp_all

theorem debounce_other {b : Button} {sample : Bool} (h : sample ≠ b.buttonLevel) :
    (b.debounce sample).buttonLevel = (if debounceTicks ≤ b.debounceCnt + 1 then sample else b.buttonLevel) ∧
      (b.debounce sample).debounceCnt = if debounceTicks ≤ b.debounceCnt + 1 then 0 else b.debounceCnt + 1 := by
  simp only [debounce]
  split <;> split <;> exact ⟨rfl, rfl⟩

theorem debounce_steady {init : Bool} {b : Button} {past : List Bool} (h : Steady init b past) (sample : Bool) :
    Steady init (b.debounce sample) (sample :: past) := by
  obtain ⟨hlevel, hcnt, hle⟩ := h
  by_cases hsame : sample = b.buttonLevel
  · obtain ⟨hlevel', hcnt'⟩ := debounce_same hsame
    have hzero : differing b.buttonLevel (sample :: past) = 0 := hsame ▸ differing_same ..
    refine ⟨?_, ?_, ?_⟩
    · rw [hlevel', hlevel]
      exact (settled_cons (.inl (hsame.trans hlevel))).symm
    · rw [hlevel', hzero, hcnt']
      rfl
    · rw [hlevel', hzero]
      exact Nat.zero_le 2
  · obtain ⟨hlevel', hcnt'⟩ := debounce_other hsame
    have hmore := differing_other hsame past
    rcases Nat.lt_or_eq_of_le hle with hlt | heq
    · have hfew : ¬ debounceTicks ≤ b.debounceCnt + 1 := by
        rw [hcnt]
        generalize differing b.buttonLevel past = k at hlt
        interval_cases k <;> decide
      rw [if_neg hfew] at hlevel' hcnt'
      refine ⟨?_, ?_, ?_⟩
      · rw [hlevel', hlevel]
        exact (settled_cons (.inr (hlevel ▸ hlt))).symm
      · rw [hlevel', hmore, hcnt', hcnt]
        exact (BitVec.ofNat_add ..).symm
      · rw [hlevel', hmore]
        omega
    · have hthird : debounceTicks ≤ b.debounceCnt + 1 := by
        rw [hcnt, heq]
        decide
      rw [if_pos hthird] at hlevel' hcnt'
      refine ⟨?_, ?_, ?_⟩
      · rw [hlevel']
        exact (settled_third (hlevel ▸ hsame) (hlevel ▸ heq)).symm
      · rw [hlevel', differing_same, hcnt']
        rfl
      · rw [hlevel', differing_same]
        exact Nat.zero_le 2

/-- The state machine keeps what the debouncing reads. -/
theorem machine_keeps (d : Button) :
    d.machine.1.buttonLevel = d.buttonLevel ∧ d.machine.1.debounceCnt = d.debounceCnt ∧
      d.machine.1.activeLevel = d.activeLevel := by
  unfold machine
  split
  · split <;> exact ⟨rfl, rfl, rfl⟩
  · split
    · exact ⟨rfl, rfl, rfl⟩
    · split <;> exact ⟨rfl, rfl, rfl⟩
  · split
    · exact ⟨rfl, rfl, rfl⟩
    · split
      · split
        · exact ⟨rfl, rfl, rfl⟩
        · split <;> exact ⟨rfl, rfl, rfl⟩
      · exact ⟨rfl, rfl, rfl⟩
  · split
    · dsimp only
      split <;> exact ⟨rfl, rfl, rfl⟩
    · split <;> exact ⟨rfl, rfl, rfl⟩
  · split <;> exact ⟨rfl, rfl, rfl⟩
  · exact ⟨rfl, rfl, rfl⟩

theorem buttonHandler_steady {init : Bool} {b : Button} {past : List Bool} (h : Steady init b past)
    (sample : Bool) : Steady init (b.buttonHandler sample).1 (sample :: past) := by
  obtain ⟨hlevel, hcnt, hle⟩ := debounce_steady h sample
  obtain ⟨hkeptLevel, hkeptCnt, -⟩ := machine_keeps (b.debounce sample)
  rw [← hkeptLevel] at hlevel hcnt hle
  exact ⟨hlevel, hkeptCnt.trans hcnt, hle⟩

/-! ## The state machine, over the debounced levels -/

/-- What `button_handler` is in the middle of, with the ticks it has counted. -/
inductive Phase where
  | idle
  | down (ticks : ℕ)
  /-- released after `presses` presses -/
  | up (presses ticks : ℕ)
  | again (presses ticks : ℕ)
  | long
  deriving DecidableEq

/-- The click event of a gesture: its presses are counted in four bits. -/
def clicks (presses : ℕ) : List PressEvent :=
  if presses % 16 = 1 then [.singleClick] else if presses % 16 = 2 then [.doubleClick] else []

/-- One tick, with the key pressed or not, and the events there is a callback for. -/
def Phase.tick : Phase → Bool → Phase × List PressEvent
  | .idle, true => (.down 0, [.pressDown])
  | .idle, false => (.idle, [])
  | .down ticks, true => if ticks < 200 then (.down (ticks + 1), []) else (.long, [.longPressStart])
  | .down _, false => (.up 1 0, [.pressUp])
  | .up presses _, true => (.again (presses + 1) 0, [.pressDown, .pressRepeat])
  | .up presses ticks, false => if ticks < 15 then (.up presses (ticks + 1), []) else (.idle, clicks presses)
  | .again presses ticks, true => if ticks < 15 then (.again presses (ticks + 1), []) else (.idle, [])
  | .again presses ticks, false => (if ticks < 14 then .up presses 0 else .idle, [.pressUp])
  | .long, true => (.long, [.longPressHold])
  | .long, false => (.idle, [.pressUp])

/-- The button's fields in a phase. -/
def At (b : Button) : Phase → Prop
  | .idle => b.state = 0
  | .down ticks => b.state = 1 ∧ b.ticks = BitVec.ofNat 16 ticks ∧ b.repeatCnt = 1 ∧ ticks ≤ 200
  | .up presses ticks =>
    b.state = 2 ∧ b.ticks = BitVec.ofNat 16 ticks ∧ b.repeatCnt = BitVec.ofNat 4 presses ∧ ticks ≤ 15
  | .again presses ticks =>
    b.state = 3 ∧ b.ticks = BitVec.ofNat 16 ticks ∧ b.repeatCnt = BitVec.ofNat 4 presses ∧ ticks ≤ 15
  | .long => b.state = 5

/-- The event a callback is shown. `PRESS_REPEAT` is never stored in the button:
its callback is called with the `PRESS_DOWN` that was stored before. -/
def shown : PressEvent → PressEvent
  | .pressRepeat => .pressDown
  | ev => ev

/-- The calls that events lead to. -/
def calls (attached events : List PressEvent) : List PressEvent :=
  (events.filter (· ∈ attached)).map shown

theorem calls_append (attached events events' : List PressEvent) :
    calls attached (events ++ events') = calls attached events ++ calls attached events' := by
  simp [calls]

theorem eventCb_eq {b : Button} {ev : PressEvent} (h : b.event = shown ev) :
    b.eventCb ev = calls b.cb [ev] := by
  rw [eventCb, calls]
  by_cases hev : ev ∈ b.cb
  · simp [hev, h]
  · simp [hev]

theorem debounce_ticks (b : Button) (sample : Bool) :
    (b.debounce sample).ticks = if 0 < b.state then b.ticks + 1 else b.ticks := by
  simp only [debounce]
  split <;> split <;> (try split) <;> rfl

theorem debounce_repeatCnt (b : Button) (sample : Bool) :
    (b.debounce sample).repeatCnt = b.repeatCnt := by
  simp only [debounce]
  split <;> split <;> (try split) <;> rfl

theorem ofNat_lt {c t : ℕ} (hc : c < 2 ^ 16) (ht : t < 2 ^ 16) :
    BitVec.ofNat 16 c < BitVec.ofNat 16 t ↔ c < t := by
  rw [BitVec.lt_def, BitVec.toNat_ofNat, BitVec.toNat_ofNat, Nat.mod_eq_of_lt hc, Nat.mod_eq_of_lt ht]

theorem ofNat_eq {r : ℕ} (c : ℕ) (hc : c < 16) : BitVec.ofNat 4 r = BitVec.ofNat 4 c ↔ r % 16 = c := by
  rw [← BitVec.toNat_inj, BitVec.toNat_ofNat, BitVec.toNat_ofNat, Nat.mod_eq_of_lt hc]

/-- **One call of the handler is one tick of the phases.** -/
theorem buttonHandler_tick {b : Button} {phase : Phase} (h : b.At phase) (sample : Bool) :
    (b.buttonHandler sample).1.At (phase.tick (b.debounce sample).isButtonActive).1 ∧
      (b.buttonHandler sample).2 = calls b.cb (phase.tick (b.debounce sample).isButtonActive).2 := by
  rw [buttonHandler]
  generalize hd : b.debounce sample = d
  have hstate : d.state = b.state := hd ▸ debounce_state ..
  have hcb : d.cb = b.cb := hd ▸ debounce_cb ..
  have hticks : d.ticks = if 0 < b.state then b.ticks + 1 else b.ticks := hd ▸ debounce_ticks ..
  have hrepeat : d.repeatCnt = b.repeatCnt := hd ▸ debounce_repeatCnt ..
  rw [← hcb]
  cases phase with
  | idle =>
    rw [machine, hstate, h]
    cases d.isButtonActive with
    | true => exact ⟨⟨rfl, rfl, rfl, by decide⟩, eventCb_eq rfl⟩
    | false => exact ⟨rfl, rfl⟩
  | down ticks =>
    obtain ⟨hone, ht, hr, hle⟩ := h
    have hnext : d.ticks = BitVec.ofNat 16 (ticks + 1) := by
      rw [hticks, hone, ht, BitVec.ofNat_add]
      rfl
    have hlong : longTicks < d.ticks ↔ ¬ ticks < 200 := by
      rw [hnext]
      exact (ofNat_lt (c := 200) (by decide) (by omega)).trans (by omega)
    rw [machine, hstate, hone]
    cases d.isButtonActive with
    | true =>
      simp only [Bool.not_true, Bool.false_eq_true, if_false, hlong, Phase.tick, ite_not]
      split
      · exact ⟨⟨hstate.trans hone, hnext, hrepeat.trans hr, by omega⟩, rfl⟩
      · exact ⟨rfl, eventCb_eq rfl⟩
    | false => exact ⟨⟨rfl, rfl, hrepeat.trans hr, by decide⟩, eventCb_eq rfl⟩
  | up presses ticks =>
    obtain ⟨htwo, ht, hr, hle⟩ := h
    have hnext : d.ticks = BitVec.ofNat 16 (ticks + 1) := by
      rw [hticks, htwo, ht, BitVec.ofNat_add]
      rfl
    have hshort : shortTicks < d.ticks ↔ ¬ ticks < 15 := by
      rw [hnext]
      exact (ofNat_lt (c := 15) (by decide) (by omega)).trans (by omega)
    have hsingle : d.repeatCnt = 1 ↔ presses % 16 = 1 := by
      rw [hrepeat, hr]
      exact ofNat_eq 1 (by decide)
    have hdouble : d.repeatCnt = 2 ↔ presses % 16 = 2 := by
      rw [hrepeat, hr]
      exact ofNat_eq 2 (by decide)
    rw [machine, hstate, htwo]
    cases d.isButtonActive with
    | true =>
      refine ⟨⟨rfl, rfl, ?_, by decide⟩, ?_⟩
      · show d.repeatCnt + 1 = _
        rw [hrepeat, hr, BitVec.ofNat_add]
        rfl
      · exact (congrArg₂ (· ++ ·) (eventCb_eq rfl) (eventCb_eq rfl)).trans (calls_append ..).symm
    | false =>
      simp only [Bool.false_eq_true, if_false, hshort, Phase.tick, ite_not, hsingle, hdouble]
      split
      · exact ⟨⟨hstate.trans htwo, hnext, hrepeat.trans hr, by omega⟩, rfl⟩
      · rw [clicks]
        split
        · exact ⟨rfl, eventCb_eq rfl⟩
        · split
          · exact ⟨rfl, eventCb_eq rfl⟩
          · exact ⟨rfl, rfl⟩
  | again presses ticks =>
    obtain ⟨hthree, ht, hr, hle⟩ := h
    have hnext : d.ticks = BitVec.ofNat 16 (ticks + 1) := by
      rw [hticks, hthree, ht, BitVec.ofNat_add]
      rfl
    have hshort : shortTicks < d.ticks ↔ ¬ ticks < 15 := by
      rw [hnext]
      exact (ofNat_lt (c := 15) (by decide) (by omega)).trans (by omega)
    have hquick : d.ticks < shortTicks ↔ ticks < 14 := by
      rw [hnext]
      exact (ofNat_lt (t := 15) (by omega) (by decide)).trans (by omega)
    rw [machine, hstate, hthree]
    cases d.isButtonActive with
    | true =>
      simp only [Bool.not_true, Bool.false_eq_true, if_false, hshort, Phase.tick, ite_not]
      split
      · exact ⟨⟨hstate.trans hthree, hnext, hrepeat.trans hr, by omega⟩, rfl⟩
      · exact ⟨rfl, rfl⟩
    | false =>
      simp only [Bool.not_false, if_true, hquick, Phase.tick]
      split
      · exact ⟨⟨rfl, rfl, hrepeat.trans hr, by decide⟩, eventCb_eq rfl⟩
      · exact ⟨rfl, eventCb_eq rfl⟩
  | long =>
    rw [machine, hstate, h]
    cases d.isButtonActive with
    | true => exact ⟨rfl, eventCb_eq rfl⟩
    | false => exact ⟨rfl, eventCb_eq rfl⟩

/-! ## Runs -/

/-- The level that comes out of the debouncing at each of the samples. -/
def levels (init : Bool) : List Bool → List Bool → List Bool
  | _, [] => []
  | past, sample :: samples =>
    settled init (sample :: past) :: levels init (sample :: past) samples

def Phase.run (phase : Phase) : List Bool → Phase × List PressEvent
  | [] => (phase, [])
  | active :: rest =>
    let (phase, events) := phase.tick active
    let (phase, later) := phase.run rest
    (phase, events ++ later)

theorem Phase.run_cons (phase : Phase) (active : Bool) (rest : List Bool) :
    phase.run (active :: rest) =
      (((phase.tick active).1.run rest).1, (phase.tick active).2 ++ ((phase.tick active).1.run rest).2) :=
  rfl

theorem debounce_activeLevel (b : Button) (sample : Bool) :
    (b.debounce sample).activeLevel = b.activeLevel := by
  simp only [debounce]
  split <;> split <;> (try split) <;> rfl

/-- **A run of the handler**, from any state that the driver can be in. -/
theorem run_phases {init : Bool} {b : Button} {past : List Bool} {phase : Phase}
    (hsteady : Steady init b past) (hat : b.At phase) (samples : List Bool) :
    Steady init (b.run samples).1 (samples.reverse ++ past) ∧
      (b.run samples).2 =
        calls b.cb (phase.run ((levels init past samples).map (· == b.activeLevel))).2 := by
  induction samples generalizing b past phase with
  | nil => exact ⟨hsteady, rfl⟩
  | cons sample samples ih =>
    obtain ⟨hat', hcalls⟩ := buttonHandler_tick hat sample
    have hactive : (b.debounce sample).isButtonActive = (settled init (sample :: past) == b.activeLevel) := by
      rw [isButtonActive, debounce_activeLevel, (debounce_steady hsteady sample).level]
    have hcb : (b.buttonHandler sample).1.cb = b.cb := by
      rw [buttonHandler, (machine_frame _).1, debounce_cb]
    have hlevel : (b.buttonHandler sample).1.activeLevel = b.activeLevel := by
      rw [buttonHandler, (machine_keeps _).2.2, debounce_activeLevel]
    obtain ⟨hend, hrest⟩ := ih (buttonHandler_steady hsteady sample) hat'
    rw [hcb, hlevel, hactive] at hrest
    rw [hactive] at hcalls
    refine ⟨?_, ?_⟩
    · rw [List.reverse_cons, List.append_assoc]
      exact hend
    · rw [levels, List.map_cons, Phase.run_cons, calls_append, ← hcalls, ← hrest]
      rfl

theorem buttonInit_steady (pinLevel activeLevel : Bool) (attached : List PressEvent) :
    Steady pinLevel { buttonInit pinLevel activeLevel with cb := attached } [] :=
  ⟨rfl, rfl, Nat.zero_le 2⟩

/-- Attaching callbacks changes nothing else. -/
theorem attach_all (b : Button) (events : List PressEvent) :
    events.foldl buttonAttach b = { b with cb := events.reverse ++ b.cb } := by
  induction events generalizing b with
  | nil => rfl
  | cons ev events ih =>
    rw [List.foldl_cons, ih, List.reverse_cons, List.append_assoc]
    rfl

theorem calls_congr {attached attached' : List PressEvent} (h : ∀ ev, ev ∈ attached ↔ ev ∈ attached')
    (events : List PressEvent) : calls attached events = calls attached' events := by
  simp only [calls, h]

/-- **Three samples in a row make the level.** -/
theorem level_settled (pinLevel activeLevel : Bool) (attached : List PressEvent) (samples : List Bool) :
    ((attached.foldl buttonAttach (buttonInit pinLevel activeLevel)).run samples).1.buttonLevel =
      settled pinLevel samples.reverse := by
  have hidle : At { buttonInit pinLevel activeLevel with cb := attached.reverse ++ [] } .idle := rfl
  have hrun := run_phases (buttonInit_steady pinLevel activeLevel (attached.reverse ++ [])) hidle samples
  rw [attach_all, ← List.append_nil samples.reverse]
  exact hrun.1.level

/-! ## Gestures -/

/-- The key, held for some ticks and then left alone for some. -/
structure Press where
  held : ℕ
  after : ℕ

def Press.levels (press : Press) : List Bool :=
  List.replicate press.held true ++ List.replicate press.after false

/-- What follows a press, of a gesture that it leaves open or not: the gesture
is over with the 17th tick. -/
def release (after presses : ℕ) (leftOpen : Bool) : List PressEvent × Option ℕ :=
  (if after = 0 then [] else .pressUp :: if leftOpen ∧ 17 ≤ after then clicks presses else [],
    if leftOpen ∧ after < 17 then some presses else none)

/-- The first press of a gesture, with the presses of the gesture if it is not
over. -/
def firstPress (press : Press) : List PressEvent × Option ℕ :=
  let (events, presses) := release press.after 1 (press.held < 202)
  (.pressDown :: (if press.held < 202 then [] else
    .longPressStart :: List.replicate (press.held - 202) .longPressHold) ++ events, presses)

/-- A press after others: the driver waits 16 ticks for the release, and takes
what is left of a longer one for a first press. -/
def nextPress (presses : ℕ) (press : Press) : List PressEvent × Option ℕ :=
  let (events, presses) :=
    if press.held < 17 then release press.after (presses + 1) (press.held < 15)
    else if press.held = 17 then ([], none)
    else firstPress ⟨press.held - 17, press.after⟩
  ([.pressDown, .pressRepeat] ++ events, presses)

def nextGesture : Option ℕ → Press → List PressEvent × Option ℕ
  | none, press => firstPress press
  | some presses, press => nextPress presses press

/-- The events of presses, in a gesture or before one. -/
def gestures : Option ℕ → List Press → List PressEvent
  | _, [] => []
  | presses, press :: rest =>
    let (events, presses) := nextGesture presses press
    events ++ gestures presses rest

theorem Phase.run_append (phase : Phase) (xs ys : List Bool) :
    phase.run (xs ++ ys) =
      (((phase.run xs).1.run ys).1, (phase.run xs).2 ++ ((phase.run xs).1.run ys).2) := by
  induction xs generalizing phase with
  | nil => rfl
  | cons x xs ih => simp [Phase.run, ih]

theorem idle_off (n : ℕ) : Phase.idle.run (List.replicate n false) = (.idle, []) := by
  induction n with
  | zero => rfl
  | succ n ih => rw [List.replicate_succ, Phase.run_cons, Phase.tick, ih]; rfl

theorem long_on (n : ℕ) :
    Phase.long.run (List.replicate n true) = (.long, List.replicate n .longPressHold) := by
  induction n with
  | zero => rfl
  | succ n ih => rw [List.replicate_succ, Phase.run_cons, Phase.tick, ih]; rfl

theorem down_on {ticks : ℕ} (h : ticks ≤ 200) (n : ℕ) :
    (Phase.down ticks).run (List.replicate n true) =
      if ticks + n ≤ 200 then (.down (ticks + n), [])
      else (.long, .longPressStart :: List.replicate (ticks + n - 201) .longPressHold) := by
  induction n generalizing ticks with
  | zero => rw [if_pos (by omega)]; rfl
  | succ n ih =>
    rw [List.replicate_succ, Phase.run_cons, Phase.tick]
    by_cases hlt : ticks < 200
    · rw [if_pos hlt, ih (by omega), Nat.add_right_comm ticks 1 n]
      rfl
    · obtain rfl : ticks = 200 := by omega
      rw [if_neg hlt, if_neg (by omega), long_on, show 200 + (n + 1) - 201 = n by omega]
      rfl

theorem up_off {ticks : ℕ} (h : ticks ≤ 15) (presses n : ℕ) :
    (Phase.up presses ticks).run (List.replicate n false) =
      if ticks + n ≤ 15 then (.up presses (ticks + n), []) else (.idle, clicks presses) := by
  induction n generalizing ticks with
  | zero => rw [if_pos (by omega)]; rfl
  | succ n ih =>
    rw [List.replicate_succ, Phase.run_cons, Phase.tick]
    by_cases hlt : ticks < 15
    · rw [if_pos hlt, ih (by omega), Nat.add_right_comm ticks 1 n]
      rfl
    · rw [if_neg hlt, if_neg (by omega), idle_off]
      simp

theorem again_on {ticks : ℕ} (h : ticks ≤ 15) (presses n : ℕ) :
    (Phase.again presses ticks).run (List.replicate n true) =
      if ticks + n ≤ 15 then (.again presses (ticks + n), [])
      else Phase.idle.run (List.replicate (ticks + n - 16) true) := by
  induction n generalizing ticks with
  | zero => rw [if_pos (by omega)]; rfl
  | succ n ih =>
    rw [List.replicate_succ, Phase.run_cons, Phase.tick]
    by_cases hlt : ticks < 15
    · rw [if_pos hlt, ih (by omega), Nat.add_right_comm ticks 1 n]
      rfl
    · obtain rfl : ticks = 15 := by omega
      rw [if_neg hlt, if_neg (by omega), show 15 + (n + 1) - 16 = n by omega]
      rfl

/-- The phases between two presses. -/
def Phase.Between : Phase → Option ℕ → Prop
  | .idle, none => True
  | .up presses ticks, some presses' => presses = presses' ∧ ticks ≤ 15
  | _, _ => False

/-- The ticks after the last of a gesture's presses. -/
theorem release_run {phase after : Phase} (presses : ℕ) (leftOpen : Bool)
    (htick : phase.tick false = (after, [.pressUp]))
    (hafter : after = if leftOpen then .up presses 0 else .idle) (n : ℕ) :
    (phase.run (List.replicate n false)).2 = (release n presses leftOpen).1 ∧
      (0 < n → (phase.run (List.replicate n false)).1.Between (release n presses leftOpen).2) := by
  cases n with
  | zero => exact ⟨rfl, fun h => absurd h (Nat.lt_irrefl 0)⟩
  | succ n =>
    rw [List.replicate_succ, Phase.run_cons, htick, hafter, release, if_neg (Nat.succ_ne_zero n)]
    cases leftOpen with
    | false =>
      simp only [Bool.false_eq_true, if_false, idle_off, false_and]
      exact ⟨rfl, fun _ => trivial⟩
    | true =>
      simp only [if_true, up_off (Nat.zero_le 15), Nat.zero_add, true_and]
      by_cases hn : n ≤ 15
      · rw [if_pos hn, if_neg (by omega), if_pos (by omega)]
        exact ⟨rfl, fun _ => ⟨rfl, hn⟩⟩
      · rw [if_neg hn, if_pos (by omega), if_neg (by omega)]
        exact ⟨rfl, fun _ => trivial⟩

theorem firstPress_run (press : Press) (h : 0 < press.held) :
    (Phase.idle.run press.levels).2 = (firstPress press).1 ∧
      (0 < press.after → (Phase.idle.run press.levels).1.Between (firstPress press).2) := by
  obtain ⟨held, after⟩ := press
  obtain ⟨m, rfl⟩ : ∃ m, held = m + 1 := ⟨held - 1, (Nat.sub_add_cancel h).symm⟩
  rw [Press.levels, firstPress, Phase.run_append, List.replicate_succ, Phase.run_cons, Phase.tick,
    down_on (Nat.zero_le 200), Nat.zero_add]
  by_cases hm : m ≤ 200
  · have hshort : m + 1 < 202 := by omega
    obtain ⟨hevents, hphase⟩ := release_run 1 true (show (Phase.down m).tick false = _ from rfl) rfl after
    simp only [if_pos hm, hshort, if_true, decide_true]
    rw [hevents]
    exact ⟨rfl, hphase⟩
  · have hlong : ¬ m + 1 < 202 := by omega
    obtain ⟨hevents, hphase⟩ := release_run 1 false (show Phase.long.tick false = _ from rfl) rfl after
    simp only [if_neg hm, hlong, if_false, decide_false]
    rw [hevents, show m + 1 - 202 = m - 201 by omega]
    exact ⟨by simp, hphase⟩

theorem nextPress_run {press : Press} (h : 0 < press.held) (presses ticks : ℕ) :
    ((Phase.up presses ticks).run press.levels).2 = (nextPress presses press).1 ∧
      (0 < press.after →
        ((Phase.up presses ticks).run press.levels).1.Between (nextPress presses press).2) := by
  obtain ⟨held, after⟩ := press
  obtain ⟨m, rfl⟩ : ∃ m, held = m + 1 := ⟨held - 1, (Nat.sub_add_cancel h).symm⟩
  rw [Press.levels, nextPress, List.replicate_succ, List.cons_append, Phase.run_cons, Phase.tick]
  by_cases hm : m ≤ 15
  · have hquick : m + 1 < 17 := by omega
    have htick : (Phase.again (presses + 1) m).tick false =
        (if decide (m + 1 < 15) then .up (presses + 1) 0 else .idle, [.pressUp]) := by
      rw [Phase.tick]
      simp only [decide_eq_true_eq, show m + 1 < 15 ↔ m < 14 by omega]
    obtain ⟨hevents, hphase⟩ := release_run (presses + 1) (m + 1 < 15) htick rfl after
    simp only [Phase.run_append, again_on (Nat.zero_le 15), Nat.zero_add, if_pos hm, hquick, if_true]
    rw [hevents]
    exact ⟨rfl, hphase⟩
  · have hslow : ¬ m + 1 < 17 := by omega
    have hgone : (Phase.again (presses + 1) 0).run (List.replicate m true ++ List.replicate after false) =
        Phase.idle.run (List.replicate (m - 16) true ++ List.replicate after false) := by
      rw [Phase.run_append, again_on (Nat.zero_le 15), Nat.zero_add, if_neg hm, ← Phase.run_append]
    simp only [hgone, hslow, if_false]
    by_cases heq : m = 16
    · subst heq
      simp only [Nat.sub_self, List.replicate_zero, List.nil_append, idle_off, if_true]
      exact ⟨trivial, fun _ => trivial⟩
    · obtain ⟨hevents, hphase⟩ := firstPress_run ⟨m + 1 - 17, after⟩ (by show 0 < m + 1 - 17; omega)
      rw [show m - 16 = m + 1 - 17 by omega, if_neg (by omega)]
      rw [Press.levels] at hevents hphase
      rw [hevents]
      exact ⟨rfl, hphase⟩

/-- **One press.** -/
theorem press_run {phase : Phase} {presses : Option ℕ} (hphase : phase.Between presses) {press : Press}
    (h : 0 < press.held) :
    (phase.run press.levels).2 = (nextGesture presses press).1 ∧
      (0 < press.after → (phase.run press.levels).1.Between (nextGesture presses press).2) := by
  cases phase with
  | idle =>
    cases presses with
    | none => exact firstPress_run press h
    | some _ => cases hphase
  | up n ticks =>
    cases presses with
    | none => cases hphase
    | some _ =>
      obtain ⟨rfl, -⟩ := hphase
      exact nextPress_run h n ticks
  | down _ => cases hphase
  | again _ _ => cases hphase
  | long => cases hphase

/-- Each press is held for a while, and each but the last is over. -/
def Successive : List Press → Prop
  | [] => True
  | press :: rest => 0 < press.held ∧ (rest ≠ [] → 0 < press.after) ∧ Successive rest

theorem presses_run {phase : Phase} {presses : Option ℕ} (hphase : phase.Between presses)
    {all : List Press} (h : Successive all) :
    (phase.run (all.flatMap Press.levels)).2 = gestures presses all := by
  induction all generalizing phase presses with
  | nil => rfl
  | cons press rest ih =>
    obtain ⟨hheld, hafter, hrest⟩ := h
    obtain ⟨hevents, hnext⟩ := press_run hphase hheld
    rw [List.flatMap_cons, Phase.run_append, hevents, gestures]
    cases rest with
    | nil => rfl
    | cons => rw [ih (hnext (hafter (List.cons_ne_nil _ _))) hrest]

/-- Any levels are presses, after a while without one. -/
theorem exists_presses (on : List Bool) :
    ∃ (idle : ℕ) (presses : List Press), Successive presses ∧
      on = List.replicate idle false ++ presses.flatMap Press.levels := by
  induction on with
  | nil => exact ⟨0, [], trivial, rfl⟩
  | cons level rest ih =>
    obtain ⟨idle, presses, hsucc, rfl⟩ := ih
    cases level with
    | false => exact ⟨idle + 1, presses, hsucc, rfl⟩
    | true =>
      cases idle with
      | succ idle =>
        exact ⟨0, ⟨1, idle + 1⟩ :: presses, ⟨Nat.one_pos, fun _ => Nat.succ_pos idle, hsucc⟩, rfl⟩
      | zero =>
        cases presses with
        | nil => exact ⟨0, [⟨1, 0⟩], ⟨Nat.one_pos, fun h => absurd rfl h, trivial⟩, rfl⟩
        | cons press presses =>
          obtain ⟨held, after⟩ := press
          exact ⟨0, ⟨held + 1, after⟩ :: presses, ⟨Nat.succ_pos held, hsucc.2⟩, rfl⟩

/-- **The gestures of a run.** After `button_init`, whatever callbacks are
attached and whatever the samples are: the debounced levels are presses, and the
callbacks made are those of the presses' gestures. -/
theorem button_gestures (pinLevel activeLevel : Bool) (attached : List PressEvent) (samples : List Bool) :
    ∃ (idle : ℕ) (presses : List Press), Successive presses ∧
      (levels pinLevel [] samples).map (· == activeLevel) =
        List.replicate idle false ++ presses.flatMap Press.levels ∧
      ((attached.foldl buttonAttach (buttonInit pinLevel activeLevel)).run samples).2 =
        calls attached (gestures none presses) := by
  obtain ⟨idle, presses, hsucc, hon⟩ := exists_presses ((levels pinLevel [] samples).map (· == activeLevel))
  refine ⟨idle, presses, hsucc, hon, ?_⟩
  have hmem : ∀ ev, ev ∈ attached.reverse ++ [] ↔ ev ∈ attached := by simp
  have hidle : At { buttonInit pinLevel activeLevel with cb := attached.reverse ++ [] } .idle := rfl
  have hrun := run_phases (buttonInit_steady pinLevel activeLevel (attached.reverse ++ [])) hidle samples
  have hbetween : Phase.idle.Between none := trivial
  have hgestures : (Phase.idle.run (List.replicate idle false ++ presses.flatMap Press.levels)).2 =
      gestures none presses := by
    rw [Phase.run_append, idle_off, presses_run hbetween hsucc]
    rfl
  rw [attach_all]
  refine hrun.2.trans ?_
  rw [calls_congr hmem]
  apply congrArg
  rw [← hgestures, ← hon]
  rfl

end Button

end Stm32Handler.App
