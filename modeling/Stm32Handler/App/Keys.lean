import Stm32Handler.App.MultiButton
import Stm32Handler.Lib.Turns

/-!
# Key 0 and key 1

The press handlers of `monitor.cpp` on the button driver, with a log of the
actions they execute. A handler does nothing while the other key is active, and
it asks anew at the release. If the answer at every release is the one at the
press, the actions of the two keys take turns (`keys_take_turns`); a release
with another answer breaks that at once (`uneven_lift_bad`).
-/

namespace Stm32Handler.App

open Button

inductive Key where
  | key0
  | key1
  deriving DecidableEq

def Key.other : Key → Key
  | key0 => key1
  | key1 => key0

theorem Key.other_ne (k : Key) : k.other ≠ k := by
  cases k <;> decide

theorem Key.eq_or_other (j k : Key) : j = k ∨ j = k.other := by
  cases j <;> cases k <;> decide

/-- A handler: nothing while the other key is active. The action of PRESS_DOWN
is a taking, that of PRESS_UP a giving back. -/
def pressHandler (key : Key) (event : PressEvent) (other : Button) : List (Turn Key) :=
  if other.isButtonActive then []
  else if event = .pressDown then [⟨key, true⟩]
  else if event = .pressUp then [⟨key, false⟩]
  else []

/-- `BTN0_PRESS_Handler`: the actions switch the BEEP on and off. -/
def btn0PressHandler : PressEvent → Button → List (Turn Key) := pressHandler .key0

/-- `BTN1_PRESS_Handler` -/
def btn1PressHandler : PressEvent → Button → List (Turn Key) := pressHandler .key1

def callback : Key → PressEvent → Button → List (Turn Key)
  | .key0 => btn0PressHandler
  | .key1 => btn1PressHandler

structure Keys where
  btn : Key → Button
  /-- the list behind `head_handle` -/
  handles : List Key
  /-- the actions executed so far -/
  actions : List (Turn Key)
  /-- history: the other key was not active at the last PRESS_DOWN -/
  free : Key → Bool

def buttonStart (handle : Key) (handles : List Key) : List Key :=
  if handle ∈ handles then handles else handle :: handles

/-- The set-up in `key_motion`, with the levels of the pins there. -/
def keysSetUp (levels : Key → Bool) : Keys where
  btn k := ((buttonInit (levels k) false).buttonAttach .pressDown).buttonAttach .pressUp
  handles := buttonStart .key1 (buttonStart .key0 [])
  actions := []
  free _ := false

/-- `button_handler` for one key of the list. -/
def keyTick (levels : Key → Bool) (s : Keys) (k : Key) : Keys :=
  let (b, calls) := (s.btn k).buttonHandler (levels k)
  { s with
    btn := Function.update s.btn k b
    actions := s.actions ++ calls.flatMap fun event => callback k event (s.btn k.other)
    free :=
      if .pressDown ∈ calls then Function.update s.free k (!(s.btn k.other).isButtonActive)
      else s.free }

def buttonTicks (levels : Key → Bool) (s : Keys) : Keys := s.handles.foldl (keyTick levels) s

/-- One `button_ticks`, with the levels it reads. -/
def keysStep (s : Keys) (levels : Key → Bool) : Option Keys := some (buttonTicks levels s)

/-! ### The property -/

/-- The keys exclude each other and their actions stay paired. -/
structure Paired (s : Keys) : Prop where
  exclusive : ∀ pre mid post k k', k ≠ k' →
    s.actions = pre ++ ⟨k, true⟩ :: (mid ++ ⟨k', true⟩ :: post) → ⟨k, false⟩ ∈ mid
  alternates : ∀ k, Alternates true ((turnsOf k s.actions).map Turn.take)
  /-- a released key with no PRESS_UP to come has nothing switched on -/
  released : ∀ k, (s.btn k).isButtonActive = false → ¬ (s.btn k).Held →
    (turnsOf k s.actions).getLast? ≠ some ⟨k, true⟩

/-- The call for a key goes well: at a PRESS_UP the other key is active iff it
was at the PRESS_DOWN, and the driver does not give up on a key whose
PRESS_DOWN went through. -/
def GoesWell (levels : Key → Bool) (s : Keys) (k : Key) : Prop :=
  ((s.btn k).Lifts (levels k) → (s.btn k.other).isButtonActive = !s.free k) ∧
    ((s.btn k).GivesUp (levels k) → s.free k = false)

instance (levels : Key → Bool) (s : Keys) (k : Key) : Decidable (GoesWell levels s k) :=
  inferInstanceAs (Decidable (_ ∧ _))

/-- The calls of one tick go well. -/
def Fair (s : Keys) (levels : Key → Bool) : Prop :=
  Along (fun s k => some (keyTick levels s k)) (GoesWell levels) s s.handles

instance (s : Keys) (levels : Key → Bool) : Decidable (Fair s levels) :=
  inferInstanceAs (Decidable (Along _ _ _ _))

theorem exec_keyTick (levels : Key → Bool) (ks : List Key) (s : Keys) :
    exec (fun s k => some (keyTick levels s k)) s ks = some (ks.foldl (keyTick levels) s) := by
  induction ks generalizing s with
  | nil => rfl
  | cons k ks ih => exact ih (keyTick levels s k)

/-! ### The invariant -/

/-- The log is in order, and the key it leaves in charge is the one that is held
and whose PRESS_DOWN went through. -/
structure Owned (s : Keys) (owner : Option Key) : Prop where
  onPress : ∀ k, (s.btn k).OnPress
  active : ∀ k, (s.btn k).Held → (s.btn k).isButtonActive = true
  orderly : Orderly s.actions owner
  owner_iff : ∀ k, owner = some k ↔ (s.btn k).Held ∧ s.free k = true

def KeysInv (s : Keys) : Prop := ∃ owner, Owned s owner

theorem keysSetUp_inv (levels : Key → Bool) : KeysInv (keysSetUp levels) := by
  have hheld : ∀ k, ¬ ((keysSetUp levels).btn k).Held := fun k h => by
    rcases h with h | h | h <;> cases h
  exact ⟨none, fun _ => rfl, fun k h => absurd h (hheld k), rfl,
    fun k => iff_of_false (by simp) fun h => hheld k h.1⟩

theorem Owned.paired {s : Keys} {owner : Option Key} (h : Owned s owner) : Paired s := by
  refine ⟨fun pre mid post k k' _ hlog => ?_, h.orderly.alternates, fun k _ hheld hlast => ?_⟩
  · have horderly := h.orderly
    rw [hlog] at horderly
    exact horderly.exclusive
  · exact hheld ((h.owner_iff k).1 ((h.orderly.last k).1 hlast)).1

/-- A key that is not active is not held, so it is not in charge. -/
theorem Owned.ne_of_inactive {s : Keys} {owner : Option Key} (h : Owned s owner) {k : Key}
    (hk : (s.btn k).isButtonActive = false) : owner ≠ some k := fun ho => by
  have := h.active k ((h.owner_iff k).1 ho).1
  rw [hk] at this
  cases this

/-- After a call for `k`: what is new concerns `k` only. -/
theorem Owned.call {s : Keys} {owner owner' : Option Key} (hs : Owned s owner) {k : Key}
    {b : Button} {log : List (Turn Key)} {free : Key → Bool} (hpress : b.OnPress)
    (hactive : b.Held → b.isButtonActive = true) (hlog : exec turnStep owner log = some owner')
    (hk : owner' = some k ↔ b.Held ∧ free k = true)
    (hother : owner' = some k.other ↔ owner = some k.other)
    (hfree : free k.other = s.free k.other) :
    Owned { s with btn := Function.update s.btn k b, actions := s.actions ++ log, free := free }
      owner' := by
  have honPress : ∀ j, (Function.update s.btn k b j).OnPress :=
    (Function.forall_update_iff s.btn fun _ b => b.OnPress).2 ⟨hpress, fun j _ => hs.onPress j⟩
  have hon : ∀ j, (Function.update s.btn k b j).Held →
      (Function.update s.btn k b j).isButtonActive = true :=
    (Function.forall_update_iff s.btn fun _ b => b.Held → b.isButtonActive = true).2
      ⟨hactive, fun j _ => hs.active j⟩
  refine ⟨honPress, hon, hs.orderly.append hlog, fun j => ?_⟩
  · dsimp only
    rcases j.eq_or_other k with rfl | rfl
    · rwa [Function.update_self]
    · rw [Function.update_of_ne k.other_ne, hother, hfree]
      exact hs.owner_iff k.other

theorem keyTick_eq {levels : Key → Bool} {s : Keys} {k : Key} {b : Button} {calls : List PressEvent}
    (h : (s.btn k).buttonHandler (levels k) = (b, calls)) :
    keyTick levels s k =
      { s with
        btn := Function.update s.btn k b
        actions := s.actions ++ calls.flatMap fun event => callback k event (s.btn k.other)
        free :=
          if .pressDown ∈ calls then Function.update s.free k (!(s.btn k.other).isButtonActive)
          else s.free } := by
  rw [keyTick, h]

theorem callback_eq (k : Key) : callback k = pressHandler k := by
  cases k <;> rfl

/-- A PRESS_DOWN: the key takes charge iff the other is not active. -/
theorem Owned.pressed {s : Keys} {owner : Option Key} (ho : Owned s owner) {k : Key} {b : Button}
    (hpress : b.OnPress) (hwas : ¬ (s.btn k).Held) (hheld : b.Held)
    (hactive : b.isButtonActive = true) :
    KeysInv
      { s with
        btn := Function.update s.btn k b
        actions := s.actions ++ pressHandler k .pressDown (s.btn k.other)
        free := Function.update s.free k (!(s.btn k.other).isButtonActive) } := by
  have hk : owner ≠ some k := fun h => hwas ((ho.owner_iff k).1 h).1
  have hfree : Function.update s.free k (!(s.btn k.other).isButtonActive) k.other =
      s.free k.other := Function.update_of_ne k.other_ne ..
  cases hother : (s.btn k.other).isButtonActive with
  | true =>
    rw [hother] at hfree
    refine ⟨owner, ho.call hpress (fun _ => hactive) ?_ ?_ Iff.rfl hfree⟩
    · simp [pressHandler, hother]
    · simp [hk]
  | false =>
    rw [hother] at hfree
    have hnone : owner = none := by
      rcases owner with _ | j
      · rfl
      · rcases j.eq_or_other k with rfl | rfl
        · exact absurd rfl hk
        · exact absurd rfl (ho.ne_of_inactive hother)
    refine ⟨some k, ho.call hpress (fun _ => hactive) ?_ ?_ ?_ hfree⟩
    · rw [hnone]
      simpa [pressHandler, hother] using exec_take k
    · simp [hheld]
    · simp [hnone, k.other_ne.symm]

/-- A key whose PRESS_DOWN did not go through is not in charge. -/
theorem Owned.ne_of_not_free {s : Keys} {owner : Option Key} (h : Owned s owner) {k : Key}
    (hfree : s.free k = false) : owner ≠ some k := fun howner => by
  have := ((h.owner_iff k).1 howner).2
  rw [hfree] at this
  cases this

/-- A PRESS_UP with the other key as it was at the PRESS_DOWN. -/
theorem Owned.lifted {s : Keys} {owner : Option Key} (ho : Owned s owner) {k : Key} {b : Button}
    (hpress : b.OnPress) (hwas : (s.btn k).Held) (hheld : ¬ b.Held)
    (hcheck : (s.btn k.other).isButtonActive = !s.free k) :
    KeysInv
      { s with
        btn := Function.update s.btn k b
        actions := s.actions ++ pressHandler k .pressUp (s.btn k.other) } := by
  cases hfree : s.free k with
  | true =>
    have hother : (s.btn k.other).isButtonActive = false := by rw [hcheck, hfree]; rfl
    have howner : owner = some k := (ho.owner_iff k).2 ⟨hwas, hfree⟩
    refine ⟨none, ho.call hpress (fun h => absurd h hheld) ?_ ?_ ?_ rfl⟩
    · rw [howner]
      simpa [pressHandler, hother] using exec_give k
    · simp [hheld]
    · simp [howner, k.other_ne.symm]
  | false =>
    have hother : (s.btn k.other).isButtonActive = true := by rw [hcheck, hfree]; rfl
    refine ⟨owner, ho.call hpress (fun h => absurd h hheld) ?_ ?_ Iff.rfl rfl⟩
    · simp [pressHandler, hother]
    · exact iff_of_false (ho.ne_of_not_free hfree) fun h => hheld h.1

/-- **One call** that goes well. -/
theorem keyTick_inv {levels : Key → Bool} {s : Keys} {k : Key} (hs : KeysInv s)
    (hwell : GoesWell levels s k) : KeysInv (keyTick levels s k) := by
  obtain ⟨owner, ho⟩ := hs
  have hpress := buttonHandler_onPress (ho.onPress k) (levels k)
  have hout := buttonHandler_outcome (ho.onPress k) (levels k)
  rcases hr : (s.btn k).buttonHandler (levels k) with ⟨b, calls⟩
  rw [hr] at hpress hout
  rw [keyTick_eq hr, callback_eq]
  cases hout with
  | quiet hheld hactive =>
    refine ⟨owner, ho.call hpress hactive rfl ?_ Iff.rfl rfl⟩
    rw [hheld]
    exact ho.owner_iff k
  | drop hgives hheld =>
    have hk := ho.ne_of_not_free (hwell.2 hgives)
    exact ⟨owner, ho.call hpress (fun h => absurd h hheld) rfl
      (iff_of_false hk fun h => hheld h.1) Iff.rfl rfl⟩
  | down hwas hheld hactive => simpa using ho.pressed hpress hwas hheld hactive
  | up hlifts hheld => simpa using ho.lifted hpress hlifts.1 hheld (hwell.1 hlifts)

/-- **One tick** that goes well. -/
theorem keysStep_inv (s : Keys) (levels : Key → Bool) (s' : Keys) (hs : KeysInv s)
    (hfair : Fair s levels) (h : keysStep s levels = some s') : KeysInv s' := by
  obtain rfl : buttonTicks levels s = s' := Option.some.inj h
  refine exec_inv (fun s k s' hs hwell hk => ?_) hs hfair (exec_keyTick levels s.handles s)
  cases hk
  exact keyTick_inv hs hwell

/-- **The keys take turns**: whatever the levels of the pins, in a run whose
ticks go well the keys exclude each other and their actions stay paired. -/
theorem keys_take_turns {levels : Key → Bool} {ticks : List (Key → Bool)} {s : Keys}
    (hfair : Along keysStep Fair (keysSetUp levels) ticks)
    (h : exec keysStep (keysSetUp levels) ticks = some s) : Paired s := by
  obtain ⟨owner, ho⟩ := exec_inv keysStep_inv (keysSetUp_inv levels) hfair h
  exact ho.paired

/-- The levels of the pins: 0 while a key is down. -/
def pins (up0 up1 : Bool) : Key → Bool
  | .key0 => up0
  | .key1 => up1

/-- Key 1 goes down and up while key 0 is down: its actions are suppressed. -/
theorem keys_take_turns_inside :
    let ticks := List.replicate 3 (pins false true) ++ List.replicate 3 (pins false false) ++
      List.replicate 3 (pins false true) ++ List.replicate 3 (pins true true)
    ∃ s, exec keysStep (keysSetUp (pins true true)) ticks = some s ∧
      s.actions = [⟨.key0, true⟩, ⟨.key0, false⟩] ∧ Paired s := by
  intro ticks
  have hrun : (exec keysStep (keysSetUp (pins true true)) ticks).map (·.actions) =
      some [⟨.key0, true⟩, ⟨.key0, false⟩] := by decide +kernel
  have hfair : Along keysStep Fair (keysSetUp (pins true true)) ticks := by decide +kernel
  obtain ⟨s, hs, hactions⟩ := Option.map_eq_some_iff.1 hrun
  exact ⟨s, hs, hactions, keys_take_turns hfair hs⟩

/-- Key 1 goes down while key 0 is down and stays down longer: the release of
key 0 is not executed and the BEEP stays on. -/
theorem beep_left_on :
    ¬ ∀ (levels : Key → Bool) (ticks : List (Key → Bool)) (s : Keys),
      exec keysStep (keysSetUp levels) ticks = some s → Paired s := by
  intro hall
  let ticks := List.replicate 3 (pins false true) ++ List.replicate 3 (pins false false) ++
    List.replicate 3 (pins true false)
  have hrun : (exec keysStep (keysSetUp (pins true true)) ticks).map
      (fun s => ((s.btn .key0).isButtonActive, decide (s.btn .key0).Held,
        (turnsOf .key0 s.actions).getLast?)) =
      some (false, false, some ⟨.key0, true⟩) := by decide +kernel
  obtain ⟨s, hs, hview⟩ := Option.map_eq_some_iff.1 hrun
  simp only [Prod.mk.injEq, decide_eq_false_iff_not] at hview
  obtain ⟨hinactive, hheld, hlast⟩ := hview
  exact (hall _ ticks s hs).released .key0 hinactive hheld hlast

/-! ### The condition -/

/-- A release at which the other key's level is not the one at the press breaks
the property at once: either the action is left switched on, or something is
switched off that was not on. -/
theorem uneven_lift_bad {levels : Key → Bool} {s : Keys} {k : Key} (hs : KeysInv s)
    (hlift : (s.btn k).Lifts (levels k)) (hne : (s.btn k.other).isButtonActive ≠ !s.free k) :
    ¬ Paired (keyTick levels s k) := by
  obtain ⟨owner, ho⟩ := hs
  obtain ⟨b, hr, hheld, hinactive⟩ := hlift.outcome (ho.onPress k)
  rw [keyTick_eq hr, callback_eq]
  intro hpaired
  cases hfree : s.free k with
  | true =>
    have hother : (s.btn k.other).isButtonActive = true := by simpa [hfree] using hne
    have howner : owner = some k := (ho.owner_iff k).2 ⟨hlift.1, hfree⟩
    apply hpaired.released k
    · simpa only [Function.update_self] using hinactive
    · simpa only [Function.update_self] using hheld
    · simpa [pressHandler, hother] using (ho.orderly.last k).2 howner
  | false =>
    have hother : (s.btn k.other).isButtonActive = false := by simpa [hfree] using hne
    have hlast : (turnsOf k s.actions).getLast? ≠ some ⟨k, !false⟩ :=
      mt (ho.orderly.last k).1 (ho.ne_of_not_free hfree)
    refine not_alternates hlast (fun h => by cases h) ?_
    simpa [pressHandler, hother] using hpaired.alternates k

/-- After the driver has given up on a key whose PRESS_DOWN went through, the
next call for it with the other key inactive breaks the property: a second
PRESS_DOWN, or a release nobody reports. -/
theorem given_up_bad {levels : Key → Bool} {s : Keys} {k : Key} (hpress : (s.btn k).OnPress)
    (hstate : (s.btn k).state = 0) (hlast : (turnsOf k s.actions).getLast? = some ⟨k, true⟩)
    (hother : (s.btn k.other).isButtonActive = false) : ¬ Paired (keyTick levels s k) := by
  obtain ⟨b, hr, hoff⟩ := buttonHandler_zero hpress hstate
  rw [keyTick_eq hr, callback_eq]
  intro hpaired
  cases hon : ((s.btn k).debounce (levels k)).isButtonActive with
  | true =>
    have hno : (turnsOf k s.actions).getLast? ≠ some ⟨k, !true⟩ := by
      rw [hlast]
      simp
    refine not_alternates hno (fun _ hnil => by simp [hnil] at hlast) ?_
    simpa [pressHandler, hother, hon] using hpaired.alternates k
  | false =>
    obtain ⟨hheld, hinactive⟩ := hoff hon
    apply hpaired.released k
    · simpa only [Function.update_self] using hinactive
    · simpa only [Function.update_self] using hheld
    · simpa [hon] using hlast

end Stm32Handler.App
