import Stm32Handler.App.MultiButton

/-!
# The long press of two keys

`key_motion` makes a fourth button of key 0 and key 1 and gives it a handler for
LONG_PRESS_START, but `button_start` is called for the first three buttons only:
`button_ticks` never comes to the fourth one (`longPressCalls_eq`). Had it done
so, its level would be active while either key is down (`btn3_active_iff`). The
driver itself reports a long press after the debounce and LONG_TICKS
(`long_press_after`).
-/

namespace Stm32Handler.App

open Button

/-- `Button_IDs` -/
inductive ButtonId where
  | btn0
  | btn1
  | btn2
  | btn3
  deriving DecidableEq

/-- The raw levels of the keys, true for `GPIO_PIN_SET`. -/
structure KeyLevels where
  key0 : Bool
  key1 : Bool
  key2 : Bool
  deriving DecidableEq

/-- `read_button_GPIO` -/
def readButtonGpio (levels : KeyLevels) : ButtonId → Bool
  | .btn0 => levels.key0
  | .btn1 => levels.key1
  | .btn2 => levels.key2
  | .btn3 => levels.key0 && levels.key1

/-- A callback made: whose, and the event it is shown. -/
structure Callback where
  handle : ButtonId
  event : PressEvent
  deriving DecidableEq

structure ButtonList where
  btn : ButtonId → Button
  /-- the list behind `head_handle` -/
  handles : List ButtonId

namespace ButtonList

def buttonStart (s : ButtonList) (handle : ButtonId) : ButtonList :=
  if handle ∈ s.handles then s else { s with handles := handle :: s.handles }

/-- The set-up in `key_motion`, with the levels of the keys there. -/
def keyMotionSetUp (levels : KeyLevels) : ButtonList :=
  let init (handle : ButtonId) := buttonInit (readButtonGpio levels handle) false
  let onPress (handle : ButtonId) := ((init handle).buttonAttach .pressDown).buttonAttach .pressUp
  let s : ButtonList :=
    { btn := fun
        | .btn0 => onPress .btn0
        | .btn1 => onPress .btn1
        | .btn2 => onPress .btn2
        | .btn3 => (init .btn3).buttonAttach .longPressStart
      handles := [] }
  ((s.buttonStart .btn0).buttonStart .btn1).buttonStart .btn2

/-- `button_handler` for one button of the list. -/
def handlerTick (levels : KeyLevels) (acc : ButtonList × List Callback) (handle : ButtonId) :
    ButtonList × List Callback :=
  let (s, calls) := acc
  let (b, events) := (s.btn handle).buttonHandler (readButtonGpio levels handle)
  ({ s with btn := Function.update s.btn handle b }, calls ++ events.map fun event => ⟨handle, event⟩)

def buttonTicks (levels : KeyLevels) (s : ButtonList) : ButtonList × List Callback :=
  s.handles.foldl (handlerTick levels) (s, [])

/-- The callbacks of each tick. -/
def ticks : ButtonList → List KeyLevels → List (List Callback)
  | _, [] => []
  | s, levels :: rest => (s.buttonTicks levels).2 :: (s.buttonTicks levels).1.ticks rest

/-- How often each tick calls `BTN3_LONG_PRESS_Handler`. -/
def longPressCalls (setUp : KeyLevels) (samples : List KeyLevels) : List ℕ :=
  ((keyMotionSetUp setUp).ticks samples).map (List.count ⟨.btn3, .longPressStart⟩)

/-! ### The work list -/

theorem foldl_handlerTick (levels : KeyLevels) (ids : List ButtonId) (s : ButtonList)
    (calls : List Callback) :
    (ids.foldl (handlerTick levels) (s, calls)).1.handles = s.handles ∧
      ∀ c ∈ (ids.foldl (handlerTick levels) (s, calls)).2, c ∈ calls ∨ c.handle ∈ ids := by
  induction ids generalizing s calls with
  | nil => exact ⟨rfl, fun c hc => .inl hc⟩
  | cons id ids ih =>
    obtain ⟨hhandles, hcalls⟩ := ih (handlerTick levels (s, calls) id).1 (handlerTick levels (s, calls) id).2
    refine ⟨hhandles, fun c hc => ?_⟩
    rcases hcalls c hc with hc | hc
    · rcases List.mem_append.1 hc with hc | hc
      · exact .inl hc
      · obtain ⟨event, -, rfl⟩ := List.mem_map.1 hc
        exact .inr List.mem_cons_self
    · exact .inr (List.mem_cons_of_mem id hc)

/-- A tick leaves the work list alone. -/
theorem buttonTicks_handles (levels : KeyLevels) (s : ButtonList) :
    (s.buttonTicks levels).1.handles = s.handles :=
  (foldl_handlerTick levels s.handles s []).1

/-- **A tick calls back for buttons of the work list only.** -/
theorem buttonTicks_mem {levels : KeyLevels} {s : ButtonList} {c : Callback}
    (hc : c ∈ (s.buttonTicks levels).2) : c.handle ∈ s.handles := by
  rcases (foldl_handlerTick levels s.handles s []).2 c hc with hnil | hmem
  · cases hnil
  · exact hmem

theorem ticks_length (s : ButtonList) (samples : List KeyLevels) :
    (s.ticks samples).length = samples.length := by
  induction samples generalizing s with
  | nil => rfl
  | cons levels rest ih => rw [ticks, List.length_cons, ih, List.length_cons]

theorem ticks_mem {s : ButtonList} {samples : List KeyLevels} {calls : List Callback} {c : Callback}
    (hcalls : calls ∈ s.ticks samples) (hc : c ∈ calls) : c.handle ∈ s.handles := by
  induction samples generalizing s with
  | nil => cases hcalls
  | cons levels rest ih =>
    rcases List.mem_cons.1 hcalls with rfl | hrest
    · exact buttonTicks_mem hc
    · rw [← buttonTicks_handles levels s]
      exact ih hrest

/-- **The handler of the long press is never called.** -/
theorem longPressCalls_eq (setUp : KeyLevels) (samples : List KeyLevels) :
    longPressCalls setUp samples = List.replicate samples.length 0 := by
  refine List.eq_replicate_iff.2 ⟨by simp [longPressCalls, ticks_length], fun n hn => ?_⟩
  obtain ⟨calls, hcalls, rfl⟩ := List.mem_map.1 hn
  refine List.count_eq_zero.2 fun hc => ?_
  have hids : (keyMotionSetUp setUp).handles = [.btn2, .btn1, .btn0] := rfl
  have hmem := ticks_mem hcalls hc
  rw [hids] at hmem
  exact absurd hmem (by decide)

end ButtonList

/-! ### The property -/

def KeyLevels.bothDown (levels : KeyLevels) : Bool := !levels.key0 && !levels.key1

/-- A maximal period, from tick `i` to before tick `j`, with both keys down. -/
structure IsPeriod (samples : List KeyLevels) (i j : ℕ) : Prop where
  lt : i < j
  le : j ≤ samples.length
  down : ∀ k (levels : KeyLevels), i ≤ k → k < j → samples[k]? = some levels → levels.bothDown = true
  before : ∀ k (levels : KeyLevels), k + 1 = i → samples[k]? = some levels → levels.bothDown = false
  after : ∀ levels : KeyLevels, samples[j]? = some levels → levels.bothDown = false

/-- The debounce and LONG_TICKS. -/
def longPressTicks : ℕ := debounceTicks.toNat + longTicks.toNat

/-- One call in every period of both keys longer than the debounce and
LONG_TICKS, none in a shorter one, and none while a key is up. -/
structure RecognisedExactly (samples : List KeyLevels) (calls : List ℕ) : Prop where
  long : ∀ i j, IsPeriod samples i j → longPressTicks < j - i → ((calls.drop i).take (j - i)).sum = 1
  short : ∀ i j, IsPeriod samples i j → j - i ≤ longPressTicks → ((calls.drop i).take (j - i)).sum = 0
  apart : ∀ (k : ℕ) (levels : KeyLevels), samples[k]? = some levels → levels.bothDown = false → calls[k]? = some 0

theorem sum_longPressCalls (setUp : KeyLevels) (samples : List KeyLevels) (i n : ℕ) :
    (((ButtonList.longPressCalls setUp samples).drop i).take n).sum = 0 := by
  rw [ButtonList.longPressCalls_eq]
  simp

/-- **The long press of both keys is recognised exactly in the runs without one.** -/
theorem long_press_recognised_iff (setUp : KeyLevels) (samples : List KeyLevels) :
    RecognisedExactly samples (ButtonList.longPressCalls setUp samples) ↔
      ∀ i j, IsPeriod samples i j → j - i ≤ longPressTicks := by
  have hsum := sum_longPressCalls setUp samples
  constructor
  · intro hexact i j hperiod
    by_contra hlong
    have hone := hexact.long i j hperiod (Nat.not_le.1 hlong)
    rw [hsum] at hone
    cases hone
  · intro hnone
    refine ⟨fun i j hperiod hlong => ?_, fun i j _ _ => hsum i (j - i), fun k levels hk _ => ?_⟩
    · have := hnone i j hperiod
      omega
    · obtain ⟨hlt, -⟩ := List.getElem?_eq_some_iff.1 hk
      rw [ButtonList.longPressCalls_eq, List.getElem?_replicate, if_pos hlt]

/-- Both keys down for 204 ticks. -/
theorem long_press_missed : ¬ ∀ setUp samples,
    RecognisedExactly samples (ButtonList.longPressCalls setUp samples) := by
  intro hall
  have hperiod : IsPeriod (List.replicate 204 ⟨false, false, true⟩) 0 204 := by
    refine ⟨by decide, List.length_replicate.ge, fun k levels _ hk hlevels => ?_, fun k _ hk _ => ?_, fun levels hend => ?_⟩
    · rw [List.getElem?_replicate, if_pos hk] at hlevels
      cases hlevels
      rfl
    · omega
    · rw [List.getElem?_replicate, if_neg (Nat.lt_irrefl _)] at hend
      cases hend
  have hone := (hall ⟨true, true, true⟩ _).long 0 204 hperiod (by decide)
  rw [sum_longPressCalls] at hone
  cases hone

/-! ### The other links -/

/-- Either key makes the level of the fourth button the active one. -/
theorem btn3_active_iff (levels : KeyLevels) :
    readButtonGpio levels .btn3 = false ↔ levels.key0 = false ∨ levels.key1 = false := by
  unfold readButtonGpio
  rw [Bool.and_eq_false_iff]

namespace Button

/-- The callbacks of a button that reads `levels` one after the other. -/
def eventsOf : Button → List Bool → List PressEvent
  | _, [] => []
  | b, level :: rest => (b.buttonHandler level).2 ++ (b.buttonHandler level).1.eventsOf rest

/-- A button with a callback for LONG_PRESS_START only, `n` ticks after its level
`a` has become the active one. -/
def DownFor (a : Bool) (n : ℕ) (b : Button) : Prop :=
  b.cb = [.longPressStart] ∧ b.activeLevel = a ∧
    if n < 3 then b.state = 0 ∧ b.buttonLevel = !a ∧ b.debounceCnt = BitVec.ofNat 3 n
    else b.buttonLevel = a ∧ if n ≤ longPressTicks then b.state = 1 ∧ b.ticks = BitVec.ofNat 16 (n - 3)
      else b.state = 5

/-- A button set up while its key is up. -/
theorem downFor_init (a : Bool) : DownFor a 0 ((buttonInit (!a) a).buttonAttach .longPressStart) :=
  ⟨rfl, rfl, rfl, rfl, rfl⟩

/-- A tick of the pressed button. -/
theorem handler_pressed (ticks : BitVec 16) (repeatCnt : BitVec 4) (event : PressEvent)
    (debounceCnt : BitVec 3) (a : Bool) :
    (Button.mk ticks repeatCnt event 1 debounceCnt a a [.longPressStart]).buttonHandler a =
      if longTicks < ticks + 1 then
        (⟨ticks + 1, repeatCnt, .longPressStart, 5, 0, a, a, [.longPressStart]⟩, [.longPressStart])
      else (⟨ticks + 1, repeatCnt, event, 1, 0, a, a, [.longPressStart]⟩, []) := by
  simp only [buttonHandler, debounce, machine, isButtonActive, eventCb, Nat.lt_add_one, ne_eq,
    not_true_eq_false, beq_self_eq_true, Bool.not_true, Bool.false_eq_true, List.mem_singleton, ↓reduceIte]

/-- **One tick more**: only tick `longPressTicks + 1` calls back. -/
theorem DownFor.step {a : Bool} {n : ℕ} {b : Button} (h : DownFor a n b) :
    DownFor a (n + 1) (b.buttonHandler a).1 ∧
      (b.buttonHandler a).2 = if n = longPressTicks then [.longPressStart] else [] := by
  have hticks : longPressTicks = 203 := rfl
  obtain ⟨ticks, repeatCnt, event, state, debounceCnt, activeLevel, buttonLevel, cb⟩ := b
  obtain ⟨hcb, hactive, hphase⟩ := h
  dsimp only at hcb hactive hphase
  subst hcb hactive
  by_cases hn : n < 3
  · -- the debounce, after which the press begins
    rw [if_pos hn] at hphase
    obtain ⟨rfl, rfl, rfl⟩ := hphase
    rw [if_neg (by omega)]
    have hcases : n = 0 ∨ n = 1 ∨ n = 2 := by omega
    rcases hcases with rfl | rfl | rfl
    · simp [buttonHandler, debounce, machine, DownFor, isButtonActive, debounceTicks]
    · simp [buttonHandler, debounce, machine, DownFor, isButtonActive, debounceTicks]
    · simp [buttonHandler, debounce, machine, DownFor, isButtonActive, debounceTicks, eventCb, hticks]
  rw [if_neg hn] at hphase
  obtain ⟨rfl, hphase⟩ := hphase
  by_cases hle : n ≤ longPressTicks
  · -- the press, until LONG_TICKS are over
    rw [if_pos hle] at hphase
    obtain ⟨rfl, rfl⟩ := hphase
    have hnext : BitVec.ofNat 16 (n - 3) + 1 = BitVec.ofNat 16 (n + 1 - 3) := by
      rw [show n + 1 - 3 = n - 3 + 1 by omega, BitVec.ofNat_add]
      rfl
    have hlong : longTicks < BitVec.ofNat 16 (n + 1 - 3) ↔ n = longPressTicks := by
      rw [BitVec.lt_def, BitVec.toNat_ofNat, Nat.mod_eq_of_lt (by omega)]
      show 200 < _ ↔ _
      omega
    have hrun := handler_pressed (BitVec.ofNat 16 (n - 3)) repeatCnt event debounceCnt buttonLevel
    rw [hnext] at hrun
    rw [hrun]
    by_cases hlast : n = longPressTicks
    · rw [if_pos (hlong.2 hlast), if_pos hlast]
      exact ⟨⟨rfl, rfl, by rw [if_neg (by omega), if_neg (by omega)]; exact ⟨rfl, rfl⟩⟩, rfl⟩
    · rw [if_neg fun h => hlast (hlong.1 h), if_neg hlast]
      exact ⟨⟨rfl, rfl, by rw [if_neg (by omega), if_pos (by omega)]; exact ⟨rfl, rfl, rfl⟩⟩, rfl⟩
  · -- held on, without a callback
    rw [if_neg hle] at hphase
    subst hphase
    simp [buttonHandler, debounce, machine, DownFor, isButtonActive, eventCb]
    omega

/-- **The driver's long press.** -/
theorem long_press_after {a : Bool} {k : ℕ} {b : Button} (h : DownFor a k b) (n : ℕ) :
    b.eventsOf (List.replicate n a) =
      if k ≤ longPressTicks ∧ longPressTicks < k + n then [.longPressStart] else [] := by
  induction n generalizing k b with
  | zero =>
    rw [if_neg (by omega)]
    rfl
  | succ n ih =>
    obtain ⟨hnext, hcalls⟩ := h.step
    rw [List.replicate_succ, eventsOf, ih hnext, hcalls]
    by_cases hk : k = longPressTicks
    · rw [if_pos hk, if_neg (by omega), if_pos (by omega), List.append_nil]
    · rw [if_neg hk, List.nil_append]
      congr 1
      rw [eq_iff_iff]
      omega

end Button

end Stm32Handler.App
