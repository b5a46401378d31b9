import Mathlib.Data.BitVec

/-!
# The button driver

`multi_button.c`: debouncing and the state machine of one button. The handler
gives back the button and the callbacks it has made, each as the event the
button shows to it.
-/

namespace Stm32Handler.App

inductive PressEvent where
  | pressDown
  | pressUp
  | pressRepeat
  | singleClick
  | doubleClick
  | longPressStart
  | longPressHold
  | nonePress
  deriving DecidableEq

def ticksInterval : ℕ := 20
def debounceTicks : BitVec 3 := 3
def shortTicks : BitVec 16 := BitVec.ofNat 16 (300 / ticksInterval)
def longTicks : BitVec 16 := BitVec.ofNat 16 (4000 / ticksInterval)

structure Button where
  ticks : BitVec 16
  repeatCnt : BitVec 4
  event : PressEvent
  state : ℕ
  debounceCnt : BitVec 3
  activeLevel : Bool
  buttonLevel : Bool
  /-- the events with a callback -/
  cb : List PressEvent
  deriving DecidableEq

namespace Button

def buttonInit (pinLevel activeLevel : Bool) : Button where
  ticks := 0
  repeatCnt := 0
  event := .nonePress
  state := 0
  debounceCnt := 0
  activeLevel := activeLevel
  buttonLevel := pinLevel
  cb := []

def buttonAttach (handle : Button) (event : PressEvent) : Button :=
  { handle with cb := event :: handle.cb }

def isButtonActive (handle : Button) : Bool := handle.buttonLevel == handle.activeLevel

/-- `EVENT_CB` -/
def eventCb (handle : Button) (ev : PressEvent) : List PressEvent :=
  if ev ∈ handle.cb then [handle.event] else []

/-- The tick counter and the debouncing. -/
def debounce (handle : Button) (readGpioLevel : Bool) : Button :=
  let handle := if 0 < handle.state then { handle with ticks := handle.ticks + 1 } else handle
  if readGpioLevel ≠ handle.buttonLevel then
    let handle := { handle with debounceCnt := handle.debounceCnt + 1 }
    if debounceTicks ≤ handle.debounceCnt then
      { handle with buttonLevel := readGpioLevel, debounceCnt := 0 }
    else handle
  else { handle with debounceCnt := 0 }

/-- The state machine. -/
def machine (handle : Button) : Button × List PressEvent :=
  match handle.state with
  | 0 =>
    if handle.isButtonActive then
      let handle := { handle with event := .pressDown }
      ({ handle with ticks := 0, repeatCnt := 1, state := 1 }, handle.eventCb .pressDown)
    else ({ handle with event := .nonePress }, [])
  | 1 =>
    if !handle.isButtonActive then
      let handle := { handle with event := .pressUp }
      ({ handle with ticks := 0, state := 2 }, handle.eventCb .pressUp)
    else if longTicks < handle.ticks then
      let handle := { handle with event := .longPressStart }
      ({ handle with state := 5 }, handle.eventCb .longPressStart)
    else (handle, [])
  | 2 =>
    if handle.isButtonActive then
      let handle := { handle with event := .pressDown }
      ({ handle with repeatCnt := handle.repeatCnt + 1, ticks := 0, state := 3 },
        handle.eventCb .pressDown ++ handle.eventCb .pressRepeat)
    else if shortTicks < handle.ticks then
      if handle.repeatCnt = 1 then
        let handle := { handle with event := .singleClick }
        ({ handle with state := 0 }, handle.eventCb .singleClick)
      else if handle.repeatCnt = 2 then
        let handle := { handle with event := .doubleClick }
        ({ handle with state := 0 }, handle.eventCb .doubleClick)
      else ({ handle with state := 0 }, [])
    else (handle, [])
  | 3 =>
    if !handle.isButtonActive then
      let handle := { handle with event := .pressUp }
      let calls := handle.eventCb .pressUp
      if handle.ticks < shortTicks then ({ handle with ticks := 0, state := 2 }, calls)
      else ({ handle with state := 0 }, calls)
    else if shortTicks < handle.ticks then ({ handle with state := 0 }, [])
    else (handle, [])
  | 5 =>
    if handle.isButtonActive then
      let handle := { handle with event := .longPressHold }
      (handle, handle.eventCb .longPressHold)
    else
      let handle := { handle with event := .pressUp }
      ({ handle with state := 0 }, handle.eventCb .pressUp)
  | _ => ({ handle with state := 0 }, [])

def buttonHandler (handle : Button) (readGpioLevel : Bool) : Button × List PressEvent :=
  (handle.debounce readGpioLevel).machine

/-! ### What a call does -/

/-- The driver takes the key for pressed: a PRESS_UP is to come. -/
def Held (b : Button) : Prop := b.state = 1 ∨ b.state = 3 ∨ b.state = 5

instance (b : Button) : Decidable b.Held := inferInstanceAs (Decidable (_ ∨ _ ∨ _))

/-- In state 3 the driver stops waiting for the release. -/
def GivesUp (b : Button) (level : Bool) : Prop :=
  b.state = 3 ∧ (b.debounce level).isButtonActive = true ∧ shortTicks < (b.debounce level).ticks

instance (b : Button) (level : Bool) : Decidable (b.GivesUp level) :=
  inferInstanceAs (Decidable (_ ∧ _ ∧ _))

/-- The PRESS_UP event comes. -/
def Lifts (b : Button) (level : Bool) : Prop :=
  b.Held ∧ (b.debounce level).isButtonActive = false

instance (b : Button) (level : Bool) : Decidable (b.Lifts level) :=
  inferInstanceAs (Decidable (_ ∧ _))

@[simp] theorem debounce_state (b : Button) (level : Bool) : (b.debounce level).state = b.state := by
  simp only [debounce]
  split <;> split <;> (try split) <;> rfl

@[simp] theorem debounce_cb (b : Button) (level : Bool) : (b.debounce level).cb = b.cb := by
  simp only [debounce]
  split <;> split <;> (try split) <;> rfl

/-- Callbacks for the press events, attached one after the other. -/
def OnPress (b : Button) : Prop := b.cb = [.pressUp, .pressDown]

/-- What a call of the handler does, seen from outside: a press, a release, or
nothing. -/
inductive Outcome (b : Button) (level : Bool) : Button × List PressEvent → Prop where
  | quiet {b' : Button} (held : b'.Held ↔ b.Held) (active : b'.Held → b'.isButtonActive = true) :
    Outcome b level (b', [])
  | down {b' : Button} (was : ¬ b.Held) (held : b'.Held) (active : b'.isButtonActive = true) :
    Outcome b level (b', [.pressDown])
  | up {b' : Button} (lifts : b.Lifts level) (held : ¬ b'.Held) : Outcome b level (b', [.pressUp])
  /-- it gives up: the key is still down, but no release will be seen -/
  | drop {b' : Button} (gives : b.GivesUp level) (held : ¬ b'.Held) : Outcome b level (b', [])

theorem Outcome.still {b b' : Button} {level : Bool} (was : ¬ b.Held) (held : ¬ b'.Held) :
    Outcome b level (b', []) :=
  .quiet (iff_of_false held was) fun h => absurd h held

theorem Outcome.stays {b b' : Button} {level : Bool} (was : b.Held) (held : b'.Held)
    (active : b'.isButtonActive = true) : Outcome b level (b', []) :=
  .quiet (iff_of_true held was) fun _ => active

theorem machine_outcome {b d : Button} {level : Bool} (hd : b.debounce level = d)
    (hcb : b.OnPress) : Outcome b level d.machine := by
  have hstate : d.state = b.state := by rw [← hd, debounce_state]
  have hcb' : d.cb = [.pressUp, .pressDown] := by rw [← hd, debounce_cb, hcb]
  unfold machine
  split
  · next h =>
    have hwas : ¬ b.Held := by simp [Held, ← hstate, h]
    split
    · next hon =>
      simp only [eventCb, hcb']
      exact .down hwas (.inl rfl) hon
    · exact .still hwas (by simp [Held, h])
  · next h =>
    have hwas : b.Held := .inl (by rw [← hstate, h])
    split
    · next hoff =>
      simp only [eventCb, hcb']
      exact .up ⟨hwas, by simpa [hd] using hoff⟩ (by simp [Held])
    · next hon =>
      have hactive : d.isButtonActive = true := by simpa using hon
      split
      · simp only [eventCb, hcb']
        exact .stays hwas (.inr (.inr rfl)) hactive
      · exact .stays hwas (.inl h) hactive
  · next h =>
    have hwas : ¬ b.Held := by simp [Held, ← hstate, h]
    split
    · next hon =>
      simp only [eventCb, hcb']
      exact .down hwas (.inr (.inl rfl)) hon
    · split
      · split
        · simp only [eventCb, hcb']
          exact .still hwas (by simp [Held])
        · split
          · simp only [eventCb, hcb']
            exact .still hwas (by simp [Held])
          · exact .still hwas (by simp [Held])
      · exact .still hwas (by simp [Held, h])
  · next h =>
    have hwas : b.Held := .inr (.inl (by rw [← hstate, h]))
    split
    · next hoff =>
      have hlifts : b.Lifts level := ⟨hwas, by simpa [hd] using hoff⟩
      simp only [eventCb, hcb']
      split
      · exact .up hlifts (by simp [Held])
      · exact .up hlifts (by simp [Held])
    · next hon =>
      have hactive : d.isButtonActive = true := by simpa using hon
      split
      · next hticks =>
        exact .drop ⟨by rw [← hstate, h], by rwa [hd], by rwa [hd]⟩ (by simp [Held])
      · exact .stays hwas (.inr (.inl h)) hactive
  · next h =>
    have hwas : b.Held := .inr (.inr (by rw [← hstate, h]))
    split
    · next hon =>
      simp only [eventCb, hcb']
      exact .stays hwas (.inr (.inr h)) hon
    · next hoff =>
      simp only [eventCb, hcb']
      exact .up ⟨hwas, by simpa [hd] using hoff⟩ (by simp [Held])
  · next h0 h1 h2 h3 h5 =>
    have hwas : ¬ b.Held := by
      rintro (h | h | h)
      · exact h1 (hstate.trans h)
      · exact h3 (hstate.trans h)
      · exact h5 (hstate.trans h)
    exact .still hwas (by simp [Held])

/-- **One call of the handler.** -/
theorem buttonHandler_outcome {b : Button} (hcb : b.OnPress) (level : Bool) :
    Outcome b level (b.buttonHandler level) :=
  machine_outcome rfl hcb

/-- The state machine reads the levels and the callbacks. -/
theorem machine_frame (d : Button) :
    d.machine.1.cb = d.cb ∧ d.machine.1.isButtonActive = d.isButtonActive := by
  unfold machine
  split
  · split <;> exact ⟨rfl, rfl⟩
  · split
    · exact ⟨rfl, rfl⟩
    · split <;> exact ⟨rfl, rfl⟩
  · split
    · exact ⟨rfl, rfl⟩
    · split
      · split
        · exact ⟨rfl, rfl⟩
        · split <;> exact ⟨rfl, rfl⟩
      · exact ⟨rfl, rfl⟩
  · split
    · dsimp only
      split <;> exact ⟨rfl, rfl⟩
    · split <;> exact ⟨rfl, rfl⟩
  · split <;> exact ⟨rfl, rfl⟩
  · exact ⟨rfl, rfl⟩

theorem buttonHandler_onPress {b : Button} (h : b.OnPress) (level : Bool) :
    (b.buttonHandler level).1.OnPress := by
  rw [OnPress, buttonHandler, (machine_frame _).1, debounce_cb, h]

theorem buttonHandler_active (b : Button) (level : Bool) :
    (b.buttonHandler level).1.isButtonActive = (b.debounce level).isButtonActive :=
  (machine_frame _).2

/-- A release is reported at once. -/
theorem Lifts.outcome {b : Button} {level : Bool} (h : b.Lifts level) (hcb : b.OnPress) :
    ∃ b', b.buttonHandler level = (b', [.pressUp]) ∧ ¬ b'.Held ∧ b'.isButtonActive = false := by
  have hactive := buttonHandler_active b level
  have hout := buttonHandler_outcome hcb level
  rw [h.2] at hactive
  rcases hr : b.buttonHandler level with ⟨b', calls⟩
  rw [hr] at hactive hout
  cases hout with
  | quiet hheld hon =>
    have hb' := hon (hheld.2 h.1)
    rw [hactive] at hb'
    cases hb'
  | down hwas _ _ => exact absurd h.1 hwas
  | up _ hheld => exact ⟨b', rfl, hheld, hactive⟩
  | drop hgives _ =>
    have hon := hgives.2.1
    rw [h.2] at hon
    cases hon

/-- In state 0 an active key is a new press. -/
theorem buttonHandler_zero {b : Button} {level : Bool} (hcb : b.OnPress) (hstate : b.state = 0) :
    ∃ b', b.buttonHandler level =
        (b', if (b.debounce level).isButtonActive then [.pressDown] else []) ∧
      ((b.debounce level).isButtonActive = false → ¬ b'.Held ∧ b'.isButtonActive = false) := by
  have hd : (b.debounce level).state = 0 := by rw [debounce_state, hstate]
  have hcb' : (b.debounce level).cb = [.pressUp, .pressDown] := by rw [debounce_cb, hcb]
  rw [buttonHandler, machine, hd]
  cases hon : (b.debounce level).isButtonActive with
  | true =>
    simp only [if_true, eventCb, hcb']
    exact ⟨_, rfl, fun h => by cases h⟩
  | false =>
    simp only [Bool.false_eq_true, if_false]
    exact ⟨_, rfl, fun _ => ⟨by simp [Held], hon⟩⟩

end Button

end Stm32Handler.App
