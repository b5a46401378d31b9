import Mathlib.Data.List.Basic
import Mathlib.Data.List.TakeWhile
import Mathlib.Data.Nat.Notation

/-!
# C strings

A pointer is the list of the bytes from it to the end of the object it points
into, and `cstr s` the string there: what comes before the first zero. The
library functions read on until they find their zero; a read past the end of
the object is `none`. Where there is a zero they are functions of the string
alone (`strlen_eq`, `strchr_eq`, `strncmpEq_eq`).

An array is a `Vector`; `storeBytes` stores one byte after another and is
`none` when one of them falls outside. `snprintf` and `sprintf` get the text
already formatted.
-/

namespace Stm32Handler

def lf : UInt8 := 10
def cr : UInt8 := 13
def space : UInt8 := 32

/-- The bytes of a literal, without the closing zero. -/
def ascii (s : String) : List UInt8 := s.toList.map fun c => UInt8.ofNat c.toNat

def cstr (s : List UInt8) : List UInt8 := s.takeWhile (· ≠ 0)

/-- `strlen`. -/
def strlen : List UInt8 → Option ℕ
  | [] => none
  | b :: s => if b = 0 then some 0 else (strlen s).map (· + 1)

/-- `strchr`, as the distance from the pointer; `some none` is `NULL`. -/
def strchr (s : List UInt8) (c : UInt8) : Option (Option ℕ) :=
  match s with
  | [] => none
  | b :: s => if b = c then some (some 0) else if b = 0 then some none else
    (strchr s c).map (Option.map (· + 1))

/-- `strncmp(s, t, n) == 0`. -/
def strncmpEq : List UInt8 → List UInt8 → ℕ → Option Bool
  | _, _, 0 => some true
  | a :: s, b :: t, n + 1 => if a ≠ b then some false else if a = 0 then some true else strncmpEq s t n
  | _, _, _ => none

theorem cstr_cons_zero (s : List UInt8) : cstr (0 :: s) = [] := by
  simp [cstr]

theorem cstr_cons {b : UInt8} (hb : b ≠ 0) (s : List UInt8) : cstr (b :: s) = b :: cstr s := by
  simp [cstr, hb]

/-- The bytes behind a zero do not matter. -/
theorem cstr_append_zero (s t : List UInt8) : cstr (s ++ 0 :: t) = cstr s := by
  induction s with
  | nil => simp [cstr]
  | cons b s ih =>
    by_cases hb : b = 0
    · rw [hb, List.cons_append, cstr_cons_zero, cstr_cons_zero]
    · rw [List.cons_append, cstr_cons hb, cstr_cons hb, ih]

theorem cstr_eq_self {s : List UInt8} (hs : 0 ∉ s) : cstr s = s := by
  refine List.takeWhile_eq_self_iff.2 fun b hb => decide_eq_true ?_
  rintro rfl
  exact hs hb

theorem cstr_isPrefix (s : List UInt8) : cstr s <+: s := List.takeWhile_prefix _

theorem strlen_eq {s : List UInt8} (hs : 0 ∈ s) : strlen s = some (cstr s).length := by
  induction s with
  | nil => cases hs
  | cons b s ih =>
    unfold strlen
    by_cases hb : b = 0
    · rw [if_pos hb, hb, cstr_cons_zero]
      rfl
    · have hs : 0 ∈ s := (List.mem_cons.1 hs).resolve_left (Ne.symm hb)
      rw [if_neg hb, ih hs, cstr_cons hb]
      rfl

theorem strchr_eq {s : List UInt8} (hs : 0 ∈ s) {c : UInt8} (hc : c ≠ 0) :
    strchr s c = some (if c ∈ cstr s then some ((cstr s).idxOf c) else none) := by
  induction s with
  | nil => cases hs
  | cons b s ih =>
    unfold strchr
    by_cases hbc : b = c
    · subst hbc
      rw [if_pos rfl, cstr_cons hc, if_pos List.mem_cons_self, List.idxOf_cons_self]
    by_cases hb : b = 0
    · rw [if_neg hbc, if_pos hb, hb, cstr_cons_zero, if_neg List.not_mem_nil]
    · have hs : 0 ∈ s := (List.mem_cons.1 hs).resolve_left (Ne.symm hb)
      rw [if_neg hbc, if_neg hb, ih hs, cstr_cons hb, List.idxOf_cons_ne _ hbc]
      by_cases hmem : c ∈ cstr s
      · rw [if_pos hmem, if_pos (List.mem_cons_of_mem b hmem)]
        rfl
      · rw [if_neg hmem, if_neg fun h => (List.mem_cons.1 h).elim (Ne.symm hbc) hmem]
        rfl

theorem strncmpEq_eq {s t : List UInt8} (hs : 0 ∈ s) (ht : 0 ∈ t) (n : ℕ) :
    strncmpEq s t n = some (decide ((cstr s).take n = (cstr t).take n)) := by
  induction n generalizing s t with
  | zero => simp [strncmpEq]
  | succ n ih =>
    cases s with
    | nil => cases hs
    | cons a s =>
      cases t with
      | nil => cases ht
      | cons b t =>
        unfold strncmpEq
        by_cases hab : a = b
        · subst hab
          rw [if_neg (not_not.2 rfl)]
          by_cases ha : a = 0
          · rw [if_pos ha, ha, cstr_cons_zero, cstr_cons_zero]
            simp
          · have hs : 0 ∈ s := (List.mem_cons.1 hs).resolve_left (Ne.symm ha)
            have ht : 0 ∈ t := (List.mem_cons.1 ht).resolve_left (Ne.symm ha)
            rw [if_neg ha, ih hs ht, cstr_cons ha, cstr_cons ha]
            simp only [List.take_succ_cons, List.cons.injEq, true_and]
        · -- the first bytes differ, one of them may be the zero
          rw [if_pos hab]
          by_cases ha : a = 0
          · rw [ha, cstr_cons_zero, cstr_cons fun hb => hab (ha.trans hb.symm)]
            simp
          · by_cases hb : b = 0
            · rw [hb, cstr_cons_zero, cstr_cons ha]
              simp
            · rw [cstr_cons ha, cstr_cons hb]
              simp [hab]

/-! ## Stores -/

section Store

variable {n : ℕ}

/-- `bs` from index `off` on. -/
def storeBytes (v : Vector UInt8 n) (off : ℕ) : List UInt8 → Option (Vector UInt8 n)
  | [] => some v
  | b :: bs => if h : off < n then storeBytes (v.set off b h) (off + 1) bs else none

/-- The first `size` bytes at a pointer. -/
def readBytes (s : List UInt8) (size : ℕ) : Option (List UInt8) :=
  if size ≤ s.length then some (s.take size) else none

/-- `sprintf` of a text. -/
def sprintf (v : Vector UInt8 n) (off : ℕ) (text : List UInt8) : Option (Vector UInt8 n) :=
  storeBytes v off (text ++ [0])

/-- Stores that fit replace a stretch of the array. -/
theorem storeBytes_eq (v : Vector UInt8 n) (off : ℕ) {bs : List UInt8} (h : off + bs.length ≤ n) :
    ∃ v', storeBytes v off bs = some v' ∧
      v'.toList = v.toList.take off ++ bs ++ v.toList.drop (off + bs.length) := by
  induction bs generalizing v off with
  | nil => exact ⟨v, rfl, by simp⟩
  | cons b bs ih =>
    rw [List.length_cons] at h
    have hoff : off < n := by omega
    obtain ⟨v', hstore, hlist⟩ := ih (v.set off b hoff) (off + 1) (by omega)
    refine ⟨v', (dif_pos hoff).trans hstore, ?_⟩
    have hset : (v.set off b hoff).toList = v.toList.take off ++ b :: v.toList.drop (off + 1) := by
      rw [Vector.toList_set, List.set_eq_take_append_cons_drop, if_pos (by rwa [Vector.length_toList])]
    have hlen : (v.toList.take off ++ [b]).length = off + 1 := by
      rw [List.length_append, List.length_take, Vector.length_toList, List.length_singleton]
      omega
    have htail : (v.toList.take off ++ b :: v.toList.drop (off + 1)).drop (off + 1 + bs.length) =
        v.toList.drop (off + (bs.length + 1)) := by
      rw [List.append_cons, List.drop_append, hlen, List.drop_eq_nil_of_le (by omega), List.nil_append,
        List.drop_drop]
      congr 1
      omega
    have hhead : (v.toList.take off ++ b :: v.toList.drop (off + 1)).take (off + 1) =
        v.toList.take off ++ [b] := by
      rw [List.append_cons, ← hlen, List.take_left]
    rw [hlist, hset, hhead, htail, List.length_cons, List.append_assoc (v.toList.take off)]
    rfl

variable {v : Vector UInt8 n} {pre : List UInt8} (hpre : pre <+: v.toList)
include hpre

/-- Stores behind the bytes an array starts with. -/
theorem storeBytes_append (bs : List UInt8) (h : pre.length + bs.length ≤ n) :
    ∃ v', storeBytes v pre.length bs = some v' ∧ pre ++ bs <+: v'.toList := by
  obtain ⟨v', hstore, hlist⟩ := storeBytes_eq v _ h
  refine ⟨v', hstore, ?_⟩
  rw [hlist, ← List.prefix_iff_eq_take.1 hpre]
  exact List.prefix_append _ _

theorem sprintf_append (text : List UInt8) (h : pre.length + text.length + 1 ≤ n) :
    ∃ v', sprintf v pre.length text = some v' ∧ pre ++ (text ++ [0]) <+: v'.toList :=
  storeBytes_append hpre _ (by rw [List.length_append, List.length_singleton]; omega)

theorem readBytes_prefix : readBytes v.toList pre.length = some pre := by
  unfold readBytes
  rw [if_pos hpre.length_le, ← List.prefix_iff_eq_take.1 hpre]

end Store

/-! ## Numbers -/

/-- The conversion of a length to `uint8_t`; none if it loses value. -/
def toUint8 (n : ℕ) : Option UInt8 := if n < 256 then some (UInt8.ofNat n) else none

theorem toUint8_eq {n : ℕ} (h : n < 256) : ∃ u : UInt8, toUint8 n = some u ∧ u.toNat = n :=
  ⟨UInt8.ofNat n, if_pos h, UInt8.toNat_ofNat_of_lt' h⟩

/-- `%d` of a number that is not negative. -/
def decimal (n : ℕ) : List UInt8 := (Nat.toDigits 10 n).map fun c => UInt8.ofNat c.toNat

/-- `%02d` of a number that is not negative. -/
def decimal02 (n : ℕ) : List UInt8 := if n < 10 then ascii "0" ++ decimal n else decimal n

theorem decimal02_byte :
    ∀ n < 256, (2 ≤ (decimal02 n).length ∧ (decimal02 n).length ≤ 3) ∧ 0 ∉ decimal02 n := by
  decide +kernel

end Stm32Handler
