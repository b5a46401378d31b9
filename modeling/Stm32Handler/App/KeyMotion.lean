import Mathlib.Data.List.Infix
import Stm32Handler.Lib.Bytes

/-!
# The debounced keys of the monitor

`anti_shake` and the end of `key_motion` in `monitor.cpp`, for the two keys the
monitor samples itself. The tick of a key starts over at the value of the level
that it sees, 0 or 1, so it is the number of samples against `key_now_` or one
more (`Lane.Settled`): the state changes with the fourth or the fifth such
sample in a row.
-/

namespace Stm32Handler.App

/-- `KEY_STATE`: `KEY_ON` is `GPIO_PIN_RESET`, `KEY_OFF` is `GPIO_PIN_SET`. -/
inductive KeyState where
  | on
  | off
  deriving DecidableEq

namespace KeyState

def value : KeyState → Byte
  | on => 0
  | off => 1

def flip : KeyState → KeyState
  | on => off
  | off => on

theorem flip_ne (v : KeyState) : v.flip ≠ v := by
  cases v <;> decide

theorem value_le (v : KeyState) : v.value.toNat ≤ 1 := by
  cases v <;> decide

theorem eq_or_flip (v x : KeyState) : x = v ∨ x = v.flip := by
  cases v <;> cases x <;> decide

end KeyState

/-- The indices 0 and 1 of the key arrays. -/
inductive MonitorKey where
  | tpad
  | exio
  deriving DecidableEq

def antiShakeTick : ℕ := 4

/-- `anti_shake`, with what it leaves in `*pTick`. -/
def antiShake (tick : Byte) (nowIoStatus readIoStatus : KeyState) : Byte × KeyState :=
  let tick := tick + 1
  if nowIoStatus = .on then
    if readIoStatus = .off then
      if tick.toNat > antiShakeTick then (0, .off) else (tick, nowIoStatus)
    else (KeyState.on.value, nowIoStatus)
  else
    if readIoStatus = .on then
      if tick.toNat > antiShakeTick then (0, .on) else (tick, nowIoStatus)
    else (KeyState.off.value, nowIoStatus)

/-- What `key_motion` reads: `tpad_scan_key()` and the bit `exio`. -/
structure KeyReads where
  tpadScanKey : Byte
  exio : BitVec 1

def KeyReads.state (io : KeyReads) : MonitorKey → KeyState
  | .tpad => if io.tpadScanKey = 1 then .on else .off
  | .exio => if io.exio = 0 then .on else .off

structure MonitorManage where
  keyLast : MonitorKey → KeyState
  keyNow : MonitorKey → KeyState
  tick : MonitorKey → Byte

namespace MonitorManage

/-- `monitor_manage::init` -/
def init : MonitorManage where
  keyLast _ := .off
  keyNow _ := .off
  tick _ := 0

def shake (s : MonitorManage) (index : MonitorKey) (readIoStatus : KeyState) : MonitorManage :=
  let (tick, now) := antiShake (s.tick index) (s.keyNow index) readIoStatus
  { s with keyNow := Function.update s.keyNow index now, tick := Function.update s.tick index tick }

/-- The loop body of `key_motion`, with the calls of `key_func_list` so far. -/
def noticeKey (acc : MonitorManage × List (MonitorKey)) (index : MonitorKey) :
    MonitorManage × List (MonitorKey) :=
  let (s, calls) := acc
  let seen := { s with keyLast := Function.update s.keyLast index (s.keyNow index) }
  if s.keyNow index = .on then
    if s.keyLast index ≠ s.keyNow index then (seen, calls ++ [index]) else (s, calls)
  else (seen, calls)

/-- `key_motion` behind `button_ticks`. -/
def keyMotion (s : MonitorManage) (io : KeyReads) : MonitorManage × List (MonitorKey) :=
  [.tpad, .exio].foldl noticeKey
    ((s.shake .tpad (io.state .tpad)).shake .exio (io.state .exio), [])

/-- After `init` and the calls with the given reads. -/
def afterReads (ios : List KeyReads) : MonitorManage :=
  ios.foldl (fun s io => (s.keyMotion io).1) init

end MonitorManage

/-! ## One key -/

/-- What `monitor_manage` keeps of one key. -/
structure Lane where
  last : KeyState
  now : KeyState
  tick : Byte

namespace Lane

/-- A call of `key_motion` for one key, and whether its function is called. -/
def step (l : Lane) (readIoStatus : KeyState) : Lane × Bool :=
  let shaken := antiShake l.tick l.now readIoStatus
  (⟨shaken.2, shaken.2, shaken.1⟩, shaken.2 = .on ∧ l.last ≠ shaken.2)

/-- The samples `xs` have led to `l`. -/
structure Settled (xs : List KeyState) (l : Lane) : Prop where
  last_eq : l.last = l.now
  tick_le : l.tick.toNat ≤ antiShakeTick
  /-- the tick counts the last samples against `now`, or is one ahead -/
  counts : ∃ c, c ≤ l.tick.toNat ∧ l.tick.toNat ≤ c + 1 ∧ List.replicate c l.now.flip <:+ xs ∧
    ¬ List.replicate (c + 1) l.now.flip <:+ xs

theorem replicate_suffix_concat {α : Type*} (n : ℕ) (v x : α) (xs : List α) :
    List.replicate (n + 1) v <:+ xs ++ [x] ↔ x = v ∧ List.replicate n v <:+ xs := by
  rw [List.replicate_succ', List.suffix_concat_iff]
  constructor
  · rintro (hnil | ⟨t, ht, hsuffix⟩)
    · simp at hnil
    · obtain ⟨rfl, hx⟩ := List.append_inj' ht rfl
      exact ⟨(List.cons.inj hx).1.symm, hsuffix⟩
  · rintro ⟨rfl, hsuffix⟩
    exact .inr ⟨_, rfl, hsuffix⟩

theorem replicate_suffix_of_le {α : Type*} {n m : ℕ} {v : α} (h : n ≤ m) :
    List.replicate n v <:+ List.replicate m v :=
  ⟨List.replicate (m - n) v, by rw [List.replicate_append_replicate, Nat.sub_add_cancel h]⟩

theorem settled_init : Settled [] ⟨.off, .off, 0⟩ where
  last_eq := rfl
  tick_le := by decide
  counts := ⟨0, Nat.le_refl 0, by decide, List.suffix_refl _, by simp⟩

/-- A sample like the state starts the count over. -/
theorem antiShake_same (tick : Byte) (v : KeyState) : antiShake tick v v = (v.value, v) := by
  cases v <;> rfl

theorem antiShake_flip (tick : Byte) (v : KeyState) :
    antiShake tick v v.flip =
      if (tick + 1).toNat > antiShakeTick then (0, v.flip) else (tick + 1, v) := by
  cases v <;> rfl

theorem Settled.step {xs : List KeyState} {l : Lane} (h : Settled xs l) (x : KeyState) :
    Settled (xs ++ [x]) (l.step x).1 ∧
      ((l.step x).1.now ≠ l.now → List.replicate antiShakeTick l.now.flip <:+ xs ++ [x]) := by
  obtain ⟨c, hc, htick, hsuffix, hmore⟩ := h.counts
  have htick_le := h.tick_le
  rcases l.now.eq_or_flip x with rfl | rfl
  · rw [Lane.step, antiShake_same]
    have htick' := l.now.value_le
    refine ⟨⟨rfl, htick'.trans (by decide), 0, Nat.zero_le _, htick', List.nil_suffix, ?_⟩,
      fun hne => absurd rfl hne⟩
    rw [replicate_suffix_concat]
    exact fun h => l.now.flip_ne h.1.symm
  · have hnext : (l.tick + 1).toNat = l.tick.toNat + 1 := by
      have hlt : l.tick.toNat + 1 < 256 := (Nat.succ_le_succ htick_le).trans_lt (by decide)
      rw [BitVec.toNat_add]
      exact Nat.mod_eq_of_lt hlt
    have hone : List.replicate (c + 1) l.now.flip <:+ xs ++ [l.now.flip] :=
      (replicate_suffix_concat ..).2 ⟨rfl, hsuffix⟩
    rw [Lane.step, antiShake_flip, hnext]
    by_cases hover : l.tick.toNat + 1 > antiShakeTick
    · rw [if_pos hover]
      refine ⟨⟨rfl, Nat.zero_le _, 0, Nat.zero_le _, Nat.zero_le _, List.nil_suffix, ?_⟩, fun _ => ?_⟩
      · rw [replicate_suffix_concat]
        exact fun h => l.now.flip.flip_ne h.1.symm
      · -- the tick is one ahead of the count at most
        exact (replicate_suffix_of_le (by omega)).trans hone
    · rw [if_neg hover]
      refine ⟨⟨rfl, ?_, c + 1, ?_, ?_, hone, ?_⟩, fun hne => absurd rfl hne⟩
      · exact hnext.trans_le (Nat.le_of_not_lt hover)
      · exact hnext.ge.trans' (Nat.succ_le_succ hc)
      · exact hnext.trans_le (Nat.succ_le_succ htick)
      · rw [replicate_suffix_concat]
        exact fun h => hmore h.2

/-- Five samples in a row have been noticed. -/
theorem Settled.now_eq {xs : List KeyState} {l : Lane} (h : Settled xs l) {v : KeyState}
    (hv : List.replicate (antiShakeTick + 1) v <:+ xs) : l.now = v := by
  obtain ⟨c, hc, -, -, hmore⟩ := h.counts
  have htick_le := h.tick_le
  rcases l.now.eq_or_flip v with rfl | rfl
  · rfl
  · exact absurd ((replicate_suffix_of_le (Nat.succ_le_succ (hc.trans htick_le))).trans hv) hmore

theorem Settled.called_iff {xs : List KeyState} {l : Lane} (h : Settled xs l) (x : KeyState) :
    (l.step x).2 = true ↔ l.now = .off ∧ (l.step x).1.now = .on := by
  rw [Lane.step, h.last_eq, decide_eq_true_eq]
  constructor
  · rintro ⟨hon, hne⟩
    rw [hon] at hne
    exact ⟨(KeyState.on.eq_or_flip _).resolve_left hne, hon⟩
  · rintro ⟨hoff, hon⟩
    exact ⟨hon, fun heq => KeyState.noConfusion (hoff.symm.trans (heq.trans hon))⟩

end Lane

namespace MonitorManage

def lane (s : MonitorManage) (index : MonitorKey) : Lane :=
  ⟨s.keyLast index, s.keyNow index, s.tick index⟩

theorem noticeKey_eq (s : MonitorManage) (calls : List MonitorKey) (index : MonitorKey) :
    noticeKey (s, calls) index =
      ({ s with keyLast := Function.update s.keyLast index (s.keyNow index) },
        calls ++ if s.keyNow index = .on ∧ s.keyLast index ≠ s.keyNow index then [index] else []) := by
  unfold noticeKey
  by_cases hlast : s.keyLast index = s.keyNow index
  · have hself : Function.update s.keyLast index (s.keyNow index) = s.keyLast := by
      rw [← hlast, Function.update_eq_self]
    simp [hself, hlast]
  · by_cases hon : s.keyNow index = .on
    · rw [hon] at hlast
      simp [hlast, hon]
    · simp [hon]

/-- **The keys are debounced one by one.** -/
theorem keyMotion_lane (s : MonitorManage) (io : KeyReads) (index : MonitorKey) :
    (s.keyMotion io).1.lane index = ((s.lane index).step (io.state index)).1 ∧
      (s.keyMotion io).2.count index = if ((s.lane index).step (io.state index)).2 then 1 else 0 := by
  have hcount : ∀ (p : Prop) [Decidable p] (i : MonitorKey),
      List.count index (if p then [i] else []) = if p ∧ i = index then 1 else 0 := by
    intro p _ i
    by_cases hp : p <;> by_cases hi : i = index <;> simp [hp, hi]
  simp only [keyMotion, List.foldl_cons, List.foldl_nil, noticeKey_eq, List.nil_append,
    List.count_append, hcount, Lane.step, decide_eq_true_eq]
  cases index <;> simp [lane, shake] <;> exact if_congr Iff.rfl rfl rfl

theorem afterReads_concat (ios : List KeyReads) (io : KeyReads) :
    afterReads (ios ++ [io]) = ((afterReads ios).keyMotion io).1 := by
  rw [afterReads, List.foldl_append]
  rfl

theorem afterReads_settled (ios : List KeyReads) (index : MonitorKey) :
    ((afterReads ios).lane index).Settled (ios.map (·.state index)) := by
  induction ios using List.reverseRecOn with
  | nil => exact Lane.settled_init
  | append_singleton ios io ih =>
    rw [afterReads_concat, (keyMotion_lane _ io index).1, List.map_append]
    exact (ih.step _).1

/-- A key depends on its own samples only. -/
theorem afterReads_lane_congr (ios ios' : List KeyReads) (index : MonitorKey)
    (h : ios'.map (·.state index) = ios.map (·.state index)) :
    (afterReads ios').lane index = (afterReads ios).lane index := by
  have hlane : ∀ ios : List KeyReads, (afterReads ios).lane index =
      (ios.map (·.state index)).foldl (fun l x => (l.step x).1) ⟨.off, .off, 0⟩ := by
    intro ios
    induction ios using List.reverseRecOn with
    | nil => rfl
    | append_singleton ios io ih =>
      rw [afterReads_concat, (keyMotion_lane _ io index).1, ih, List.map_append, List.foldl_append]
      rfl
  rw [hlane, hlane, h]

end MonitorManage

open MonitorManage

/-- **The debounced keys**: after any reads `ios`, the call with the reads `io`
changes the state of a key only if the last four samples are against it, has it
changed if the last five are, and calls the key's function exactly if it turned
on; all this by the samples of that key alone. -/
theorem key_debounce (ios : List KeyReads) (io : KeyReads) (index : MonitorKey) :
    (((afterReads ios).keyMotion io).1.keyNow index ≠ (afterReads ios).keyNow index →
        List.replicate antiShakeTick ((afterReads ios).keyNow index).flip <:+
          (ios ++ [io]).map (·.state index)) ∧
      (∀ v, List.replicate (antiShakeTick + 1) v <:+ (ios ++ [io]).map (·.state index) →
        ((afterReads ios).keyMotion io).1.keyNow index = v) ∧
      ((afterReads ios).keyMotion io).2.count index =
        (if (afterReads ios).keyNow index = .off ∧
          ((afterReads ios).keyMotion io).1.keyNow index = .on then 1 else 0) ∧
      ∀ ios' io', (ios' ++ [io']).map (·.state index) = (ios ++ [io]).map (·.state index) →
        ((afterReads ios').keyMotion io').1.keyNow index =
            ((afterReads ios).keyMotion io).1.keyNow index ∧
          ((afterReads ios').keyMotion io').2.count index =
            ((afterReads ios).keyMotion io).2.count index := by
  have hsettled := afterReads_settled ios index
  obtain ⟨hlane, hcalls⟩ := keyMotion_lane (afterReads ios) io index
  have hnow : ((afterReads ios).keyMotion io).1.keyNow index =
      (((afterReads ios).lane index).step (io.state index)).1.now := congrArg Lane.now hlane
  refine ⟨?_, fun v hv => ?_, ?_, fun ios' io' hsame => ?_⟩
  · rw [hnow, List.map_append]
    exact (hsettled.step (io.state index)).2
  · rw [List.map_append] at hv
    rw [hnow]
    exact (hsettled.step (io.state index)).1.now_eq hv
  · rw [hcalls, hnow]
    exact if_congr (hsettled.called_iff _) rfl rfl
  · have hbefore : ios'.map (·.state index) = ios.map (·.state index) ∧
        [io'].map (·.state index) = [io].map (·.state index) := by
      rw [List.map_append, List.map_append] at hsame
      exact List.append_inj' hsame rfl
    have hread : io'.state index = io.state index := (List.cons.inj hbefore.2).1
    have hsamelane := afterReads_lane_congr ios ios' index hbefore.1
    obtain ⟨hlane', hcalls'⟩ := keyMotion_lane (afterReads ios') io' index
    rw [hsamelane, hread] at hlane' hcalls'
    exact ⟨congrArg Lane.now (hlane'.trans hlane.symm), hcalls'.trans hcalls.symm⟩

end Stm32Handler.App
