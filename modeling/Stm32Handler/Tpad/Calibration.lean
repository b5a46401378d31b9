import Mathlib.Data.List.Sort
import Stm32Handler.Lib.Bytes
import Stm32Handler.Lib.Trimmed

/-!
# The calibration of the touch pad

`tpad_driver_init` of `drv_tpad.c`: ten captures, sorted by `qsort` with `comp`,
and the average of the first eight. `comp` sorts in descending order, so the
first eight are the largest ones, and what is left out are the two smallest.
-/

namespace Stm32Handler.Tpad

def tpadTimesCaptureHigh : BitVec 32 := 2500

/-! ## Captures -/

/-- What one turn of the loop in `tpad_get_value` finds in the timer, and what it
reads there on the way out. -/
structure TimerPoll where
  cc1Flag : Bool
  counter : BitVec 32
  /-- the counter once more, for the return -/
  counterNext : BitVec 32
  capturedValue : BitVec 32

/-- `tpad_get_value`, with what the timer shows after `tpad_reset`. -/
def tpadGetValue : List TimerPoll → Option (BitVec 16)
  | [] => none
  | p :: ps =>
    if p.cc1Flag = false then
      if p.counter > tpadTimesCaptureHigh then some (p.counterNext.setWidth 16)
      else tpadGetValue ps
    else some (p.capturedValue.setWidth 16)

/-! ## The average -/

def comp (a b : BitVec 16) : ℤ := b.toNat - a.toNat

/-- `qsort` with `comp`; equal values cannot be told apart. -/
def qsort (buf : List (BitVec 16)) : List (BitVec 16) := buf.insertionSort (comp · · ≤ 0)

def avg (buf : List (BitVec 16)) (size : Byte) : BitVec 16 :=
  (buf.take size.toNat).foldl (· + ·) 0 / size.setWidth 16

def tpadInitCheckTimes : Byte := 10

/-- `tpad_driver_init`, with the captures: the value of `no_push_value_`. -/
def tpadDriverInit (captures : List (List TimerPoll)) : Option (BitVec 16) := do
  let buf ← captures.mapM tpadGetValue
  return avg (qsort buf) (tpadInitCheckTimes - 2)

/-! ## The middle samples -/

def values (buf : List (BitVec 16)) : List ℕ := buf.map BitVec.toNat

/-- Ten capture values. -/
structure Samples where
  buf : List (BitVec 16)
  length_eq : buf.length = tpadInitCheckTimes.toNat

namespace Samples

variable (b : Samples)

/-- From captures with these values: the average of what remains without one
smallest and one largest value, and a sum of 16 bits that holds what is added. -/
structure Calibrated : Prop where
  mean : ∀ captures rest, captures.mapM tpadGetValue = some b.buf → Trimmed (values b.buf) rest →
    (tpadDriverInit captures).map BitVec.toNat = some (rest.sum / 8)
  sum_lt : (values ((qsort b.buf).take 8)).sum < 65536

/-- The values in descending order. -/
def descending : List ℕ := values (qsort b.buf)

/-- The largest value is so close to the second smallest that the average does not
tell one from the other, and the eight largest add up to 16 bits. -/
structure Close : Prop where
  remainder_lt : b.descending.tail.dropLast.sum % 8 +
    (b.descending.getD 0 0 - b.descending.getD 8 0) < 8
  largest_lt : (b.descending.take 8).sum < 65536

end Samples

/-! ## The sort -/

theorem comp_le_iff (a b : BitVec 16) : comp a b ≤ 0 ↔ b.toNat ≤ a.toNat := by
  unfold comp
  omega

instance : Std.Total fun a b : BitVec 16 => comp a b ≤ 0 :=
  ⟨fun a b => by
    rw [comp_le_iff, comp_le_iff]
    exact Nat.le_total ..⟩

instance : IsTrans (BitVec 16) fun a b => comp a b ≤ 0 :=
  ⟨fun a b c => by
    rw [comp_le_iff, comp_le_iff, comp_le_iff]
    exact fun hab hbc => hbc.trans hab⟩

instance : Std.Antisymm fun a b : BitVec 16 => comp a b ≤ 0 :=
  ⟨fun a b hab hba =>
    BitVec.eq_of_toNat_eq (Nat.le_antisymm ((comp_le_iff b a).1 hba) ((comp_le_iff a b).1 hab))⟩

theorem qsort_perm (buf : List (BitVec 16)) : (qsort buf).Perm buf := List.perm_insertionSort _ _

theorem values_qsort_pairwise (buf : List (BitVec 16)) : (values (qsort buf)).Pairwise (· ≥ ·) := by
  rw [values, List.pairwise_map]
  exact (List.pairwise_insertionSort _ buf).imp fun {a b} => (comp_le_iff a b).1

/-- The order of the samples does not matter. -/
theorem qsort_congr {buf buf' : List (BitVec 16)} (h : buf.Perm buf') : qsort buf = qsort buf' := by
  have hperm := (qsort_perm buf).trans (h.trans (qsort_perm buf').symm)
  exact hperm.eq_of_pairwise' (List.pairwise_insertionSort _ buf) (List.pairwise_insertionSort _ buf')

theorem foldl_add_toNat (l : List (BitVec 16)) (sum : BitVec 16) :
    (l.foldl (· + ·) sum).toNat = (sum.toNat + (values l).sum) % 65536 := by
  induction l generalizing sum with
  | nil => exact (Nat.mod_eq_of_lt sum.isLt).symm
  | cons x l ih =>
    rw [List.foldl_cons, ih, BitVec.toNat_add, values, values, List.map_cons, List.sum_cons]
    omega

theorem avg_toNat (buf : List (BitVec 16)) (size : Byte) :
    (avg buf size).toNat = (values (buf.take size.toNat)).sum % 65536 / size.toNat := by
  have hsize : (size.setWidth 16).toNat = size.toNat := by
    rw [BitVec.toNat_setWidth]
    omega
  rw [avg, BitVec.toNat_udiv, foldl_add_toNat, hsize, show (0 : BitVec 16).toNat = 0 from rfl,
    Nat.zero_add]

/-! ## The captures -/

/-- Every value can be captured. -/
theorem exists_captures (buf : List (BitVec 16)) :
    ∃ captures : List (List TimerPoll), captures.mapM tpadGetValue = some buf := by
  refine ⟨buf.map fun v => [⟨true, 0, 0, v.setWidth 32⟩], ?_⟩
  induction buf with
  | nil => rfl
  | cons v buf ih =>
    have hvalue : tpadGetValue [⟨true, 0, 0, v.setWidth 32⟩] = some v := by
      rw [tpadGetValue, if_neg nofun, BitVec.setWidth_setWidth_of_le _ (by decide),
        BitVec.setWidth_eq]
    rw [List.map_cons, List.mapM_cons, hvalue, ih]
    rfl

theorem tpadDriverInit_eq {captures : List (List TimerPoll)} {buf : List (BitVec 16)}
    (h : captures.mapM tpadGetValue = some buf) : (tpadDriverInit captures).map BitVec.toNat =
      some ((values ((qsort buf).take 8)).sum % 65536 / 8) := by
  rw [tpadDriverInit, h]
  exact congrArg some (avg_toNat (qsort buf) (tpadInitCheckTimes - 2))

/-- The samples may come in any order. -/
theorem tpadDriverInit_perm {captures captures' : List (List TimerPoll)} {buf buf' : List (BitVec 16)}
    (h : captures.mapM tpadGetValue = some buf) (h' : captures'.mapM tpadGetValue = some buf')
    (hperm : buf.Perm buf') : tpadDriverInit captures = tpadDriverInit captures' := by
  rw [tpadDriverInit, tpadDriverInit, h, h']
  exact congrArg (fun l => some (avg l (tpadInitCheckTimes - 2))) (qsort_congr hperm)

namespace Samples

variable {b : Samples}

/-- The largest value, the seven in the middle, and the two smallest. -/
theorem exists_ranks (b : Samples) : ∃ hi mid second lo,
    b.descending = hi :: (mid ++ [second] ++ [lo]) ∧ mid.length = 7 := by
  have hlength : b.descending.length = 10 := by
    rw [descending, values, List.length_map, (qsort_perm b.buf).length_eq]
    exact b.length_eq
  obtain ⟨hi, rest, hfirst⟩ := List.exists_cons_of_length_eq_add_one hlength
  rw [hfirst, List.length_cons] at hlength
  obtain ⟨front, lo, rfl⟩ := (List.eq_nil_or_concat' rest).resolve_left (by rintro rfl; simp at hlength)
  rw [List.length_append, List.length_singleton] at hlength
  obtain ⟨mid, second, rfl⟩ :=
    (List.eq_nil_or_concat' front).resolve_left (by rintro rfl; simp at hlength)
  rw [List.length_append, List.length_singleton] at hlength
  exact ⟨hi, mid, second, lo, hfirst, by omega⟩

theorem descending_perm (b : Samples) : b.descending.Perm (values b.buf) := (qsort_perm b.buf).map _

section Ranks

variable {hi second lo : ℕ} {mid : List ℕ}
  (hranks : b.descending = hi :: (mid ++ [second] ++ [lo])) (hmid : mid.length = 7)
include hranks

theorem second_le : second ≤ hi := by
  have hpairwise := values_qsort_pairwise b.buf
  rw [← descending, hranks, List.pairwise_cons] at hpairwise
  exact hpairwise.1 second (by simp)

/-- What remains without one smallest and one largest value. -/
theorem trimmed_ranks : Trimmed (values b.buf) (mid ++ [second]) := by
  have hpairwise := values_qsort_pairwise b.buf
  rw [← descending, hranks] at hpairwise
  have htrimmed := trimmed_descending hpairwise
  rw [← hranks] at htrimmed
  exact htrimmed.perm b.descending_perm

include hmid

theorem largest_eq : values ((qsort b.buf).take 8) = hi :: mid := by
  rw [values, List.map_take]
  show b.descending.take 8 = _
  rw [hranks, List.take_succ_cons, List.append_assoc, List.take_append_of_le_length hmid.ge,
    List.take_of_length_le hmid.le]

theorem close_iff : b.Close ↔ (mid.sum + second) % 8 + (hi - second) < 8 ∧ hi + mid.sum < 65536 := by
  have htake : b.descending.take 8 = hi :: mid := by
    rw [← largest_eq hranks hmid, values, List.map_take]
    rfl
  have hget : b.descending.getD 8 0 = second := by
    rw [hranks, List.getD_cons_succ, List.append_assoc, List.getD_append_right _ _ _ _ hmid.le, hmid]
    rfl
  have hmiddle : b.descending.tail.dropLast = mid ++ [second] := by
    rw [hranks, List.tail_cons, List.dropLast_concat]
  have hsum : (b.descending.tail.dropLast).sum = mid.sum + second := by
    rw [hmiddle, List.sum_append, List.sum_singleton]
  have hfirst : b.descending.getD 0 0 = hi := by
    rw [hranks]
    rfl
  constructor
  · intro h
    have hremainder := h.remainder_lt
    have hlargest := h.largest_lt
    rw [hsum, hfirst, hget] at hremainder
    rw [htake, List.sum_cons] at hlargest
    exact ⟨hremainder, hlargest⟩
  · rintro ⟨hremainder, hlargest⟩
    refine ⟨?_, ?_⟩
    · rwa [hsum, hfirst, hget]
    · rwa [htake, List.sum_cons]

end Ranks

end Samples

/-- **The calibration uses the middle samples exactly when** the largest value
is close to the second smallest. -/
theorem calibrated_iff (b : Samples) : b.Calibrated ↔ b.Close := by
  obtain ⟨hi, mid, second, lo, hranks, hmid⟩ := b.exists_ranks
  have hle := Samples.second_le hranks
  have htrimmed := Samples.trimmed_ranks hranks
  have hlargest : (values ((qsort b.buf).take 8)).sum = hi + mid.sum := by
    rw [Samples.largest_eq hranks hmid, List.sum_cons]
  rw [Samples.close_iff hranks hmid]
  constructor
  · rintro ⟨hmean, hsum⟩
    obtain ⟨captures, hcaptures⟩ := exists_captures b.buf
    have hvalue := hmean captures _ hcaptures htrimmed
    rw [tpadDriverInit_eq hcaptures, hlargest, Option.some.injEq, List.sum_append,
      List.sum_singleton] at hvalue
    rw [hlargest] at hsum
    omega
  · rintro ⟨hremainder, hsum⟩
    refine ⟨fun captures rest hcaptures hrest => ?_, hlargest.trans_lt hsum⟩
    have hmiddle : rest.sum = mid.sum + second := by
      rw [(hrest.perm_rest htrimmed).sum_nat, List.sum_append, List.sum_singleton]
    rw [tpadDriverInit_eq hcaptures, hlargest, hmiddle]
    congr 1
    omega

/-- Where the calibration is right, a largest sample may be any larger. -/
theorem Samples.Calibrated.raise {b b' : Samples} (h : b.Calibrated) (h' : b'.Calibrated)
    {hi hi' : ℕ} {l : List ℕ} (hb : (values b.buf).Perm (hi :: l))
    (hb' : (values b'.buf).Perm (hi' :: l)) (hl : ∀ x ∈ l, x ≤ hi) (hle : hi ≤ hi')
    {captures captures' : List (List TimerPoll)} (hc : captures.mapM tpadGetValue = some b.buf)
    (hc' : captures'.mapM tpadGetValue = some b'.buf) :
    (tpadDriverInit captures').map BitVec.toNat = (tpadDriverInit captures).map BitVec.toNat := by
  obtain ⟨hi₀, mid, second, lo, hranks, -⟩ := b.exists_ranks
  have htrimmed := trimmed_ranks hranks
  have hraised := ((htrimmed.perm hb).raise hl hle).perm hb'.symm
  rw [h.mean _ _ hc htrimmed, h'.mean _ _ hc' hraised]

/-- And a smallest one any smaller. -/
theorem Samples.Calibrated.lower {b b' : Samples} (h : b.Calibrated) (h' : b'.Calibrated)
    {lo lo' : ℕ} {l : List ℕ} (hb : (values b.buf).Perm (lo :: l))
    (hb' : (values b'.buf).Perm (lo' :: l)) (hl : ∀ x ∈ l, lo ≤ x) (hle : lo' ≤ lo)
    {captures captures' : List (List TimerPoll)} (hc : captures.mapM tpadGetValue = some b.buf)
    (hc' : captures'.mapM tpadGetValue = some b'.buf) :
    (tpadDriverInit captures').map BitVec.toNat = (tpadDriverInit captures).map BitVec.toNat := by
  obtain ⟨hi, mid, second, lo₀, hranks, -⟩ := b.exists_ranks
  have htrimmed := trimmed_ranks hranks
  have hlowered := ((htrimmed.perm hb).lower hl hle).perm hb'.symm
  rw [h.mean _ _ hc htrimmed, h'.mean _ _ hc' hlowered]

/-- A finger on the pad in one of the ten captures. -/
theorem touched_once : ¬ ∀ b : Samples, b.Calibrated := by
  intro hall
  obtain ⟨captures, hcaptures⟩ := exists_captures (1000 :: List.replicate 9 100)
  have hmean := (hall ⟨1000 :: List.replicate 9 100, rfl⟩).mean captures (List.replicate 8 100)
    hcaptures ⟨100, 1000, by decide, by decide⟩
  rw [tpadDriverInit_eq hcaptures] at hmean
  exact absurd hmean (by decide)

end Stm32Handler.Tpad
