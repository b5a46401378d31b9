import Mathlib.Algebra.Polynomial.Div
import Mathlib.Algebra.CharP.Two
import Mathlib.Algebra.Field.ZMod
import Mathlib.Data.BitVec
import Mathlib.Data.ZMod.Basic
import Mathlib.Logic.Function.Iterate
import Mathlib.Tactic.LinearCombination

/-!
# CRC registers and polynomials over GF(2)

A bit vector stands for a polynomial (`wordPoly`), one turn of a register that
shifts to the left multiplies by `X` modulo the generator (`wordPoly_crcTurn`),
so what a message of `k`-bit chunks leaves in a register of `w` bits is a
remainder (`isCrc_iff`). How the message is cut does not matter
(`isCrc_flatMap`), and a register that shifts to the right is the mirror image
(`reverse_crcChunksRight`).
-/

namespace Stm32Handler

open Polynomial

variable {w : ℕ}

/-- The polynomial over GF(2) whose coefficients are the bits of `v`. -/
noncomputable def wordPoly (v : BitVec w) : (ZMod 2)[X] :=
  ∑ i ∈ Finset.range w, if v.getLsbD i then X ^ i else 0

theorem wordPoly_coeff (v : BitVec w) (i : ℕ) :
    (wordPoly v).coeff i = if v.getLsbD i then 1 else 0 := by
  have hterm : ∀ j, (if v.getLsbD j then X ^ j else (0 : (ZMod 2)[X])).coeff i =
      if i = j then if v.getLsbD i then 1 else 0 else 0 := by
    intro j
    by_cases hij : i = j
    · subst hij
      cases v.getLsbD i <;> simp
    · cases v.getLsbD j <;> simp [coeff_X_pow, hij]
  rw [wordPoly, finsetSum_coeff, Finset.sum_congr rfl fun j _ => hterm j, Finset.sum_ite_eq]
  by_cases hi : i < w
  · rw [if_pos (Finset.mem_range.2 hi)]
  · rw [if_neg (by simpa using hi), BitVec.getLsbD_of_ge v i (Nat.le_of_not_gt hi)]
    rfl

theorem wordPoly_degree_lt (v : BitVec w) : (wordPoly v).degree < w := by
  rw [degree_lt_iff_coeff_zero]
  intro i hi
  rw [wordPoly_coeff, BitVec.getLsbD_of_ge v i hi]
  rfl

theorem wordPoly_inj {u v : BitVec w} : wordPoly u = wordPoly v ↔ u = v := by
  constructor
  · intro h
    refine BitVec.eq_of_getLsbD_eq fun i _ => ?_
    have hi := congrArg (coeff · i) h
    simp only [wordPoly_coeff] at hi
    cases hu : u.getLsbD i <;> cases hv : v.getLsbD i <;> simp_all
  · exact congrArg wordPoly

theorem wordPoly_xor (u v : BitVec w) : wordPoly (u ^^^ v) = wordPoly u + wordPoly v := by
  ext i
  simp only [coeff_add, wordPoly_coeff, BitVec.getLsbD_xor]
  cases u.getLsbD i <;> cases v.getLsbD i <;> simp [CharTwo.add_self_eq_zero]


/-- The generator of degree `w` with the low coefficients `g`. -/
noncomputable def generator (g : BitVec w) : (ZMod 2)[X] := X ^ w + wordPoly g

theorem generator_monic (g : BitVec w) : (generator g).Monic :=
  monic_X_pow_add (wordPoly_degree_lt g)

theorem generator_degree (g : BitVec w) : (generator g).degree = w := by
  have hlt : (wordPoly g).degree < (X ^ w : (ZMod 2)[X]).degree := by
    rw [degree_X_pow]
    exact wordPoly_degree_lt g
  rw [generator, degree_add_eq_left_of_degree_lt hlt, degree_X_pow]

/-- A register of `w` bits is the remainder iff it is congruent to it. -/
theorem wordPoly_eq_mod_iff {g v : BitVec w} {p : (ZMod 2)[X]} :
    wordPoly v = p %ₘ generator g ↔ generator g ∣ p - wordPoly v := by
  have hself : wordPoly v %ₘ generator g = wordPoly v := by
    rw [modByMonic_eq_self_iff (generator_monic g), generator_degree]
    exact wordPoly_degree_lt v
  rw [← modByMonic_eq_zero_iff_dvd (generator_monic g), sub_modByMonic, hself, sub_eq_zero, eq_comm]

/-- One turn of a register that shifts to the left: what falls out at the top
is taken off as a multiple of the generator. -/
def crcTurn (g r : BitVec w) : BitVec w := if r.msb then r <<< 1 ^^^ g else r <<< 1

/-- Shifting multiplies by `X`; the top bit is the coefficient that falls out. -/
theorem wordPoly_shiftLeft_one (v : BitVec w) :
    X * wordPoly v = wordPoly (v <<< 1) + if v.msb then X ^ w else 0 := by
  have hout : ∀ j, (if v.msb then X ^ w else (0 : (ZMod 2)[X])).coeff j =
      if v.msb ∧ j = w then 1 else 0 := by
    intro j
    cases v.msb <;> simp [coeff_X_pow]
  ext j
  rw [coeff_add, wordPoly_coeff, hout, BitVec.getLsbD_shiftLeft]
  cases j with
  | zero =>
    rw [coeff_X_mul_zero]
    by_cases hw : w = 0
    · subst hw
      simp [BitVec.msb, BitVec.getMsbD]
    · simp [Ne.symm hw]
  | succ i =>
    rw [coeff_X_mul, wordPoly_coeff]
    rcases Nat.lt_trichotomy (i + 1) w with hlt | heq | hgt
    · simp [hlt, Nat.ne_of_lt hlt]
    · subst heq
      simp [BitVec.msb_eq_getLsbD_last]
    · have hi : ¬ i + 1 < w := Nat.not_lt.2 (Nat.le_of_lt hgt)
      rw [BitVec.getLsbD_of_ge v i (by omega)]
      simp [Nat.ne_of_gt hgt, hi]

theorem wordPoly_crcTurn (g r : BitVec w) :
    X * wordPoly r = wordPoly (crcTurn g r) + if r.msb then generator g else 0 := by
  have htwo : (2 : (ZMod 2)[X]) = 0 := CharTwo.two_eq_zero
  rw [wordPoly_shiftLeft_one, crcTurn]
  split
  · rw [wordPoly_xor, generator]
    linear_combination -wordPoly g * htwo
  · rfl

/-- `n` turns multiply by `X ^ n`. -/
theorem dvd_crcTurn_iterate (g r : BitVec w) (n : ℕ) :
    generator g ∣ X ^ n * wordPoly r - wordPoly ((crcTurn g)^[n] r) := by
  induction n with
  | zero => simp
  | succ n ih =>
    have hstep : X ^ (n + 1) * wordPoly r - wordPoly ((crcTurn g)^[n + 1] r) =
        X * (X ^ n * wordPoly r - wordPoly ((crcTurn g)^[n] r)) +
          if ((crcTurn g)^[n] r).msb then generator g else 0 := by
      rw [Function.iterate_succ_apply']
      linear_combination wordPoly_crcTurn g ((crcTurn g)^[n] r)
    rw [hstep]
    apply dvd_add (dvd_mul_of_dvd_right ih X)
    split
    · exact dvd_rfl
    · exact dvd_zero _

/-! ## Messages -/

variable {k : ℕ}

/-- The message polynomial, the first chunk on top. -/
noncomputable def messagePoly (l : List (BitVec k)) : (ZMod 2)[X] :=
  l.foldl (fun p b => X ^ k * p + wordPoly b) 0

/-- The register takes a chunk in at the top and turns once for every bit. -/
def crcChunk (g r : BitVec w) (b : BitVec k) : BitVec w :=
  (crcTurn g)^[k] (r ^^^ b.setWidth w <<< (w - k))

/-- A chunk as wide as the register. -/
theorem crcChunk_full (g r b : BitVec w) : crcChunk g r b = (crcTurn g)^[w] (r ^^^ b) := by
  rw [crcChunk, BitVec.setWidth_eq, Nat.sub_self, BitVec.shiftLeft_zero]

def crcChunks (g init : BitVec w) (l : List (BitVec k)) : BitVec w := l.foldl (crcChunk g) init

/-- `c` is the remainder of the message, with the first `w` bits XORed with
`init` and `w` zeros after it. -/
def IsCrc (g init : BitVec w) (l : List (BitVec k)) (c : BitVec w) : Prop :=
  wordPoly c = (X ^ (k * l.length) * wordPoly init + X ^ w * messagePoly l) %ₘ generator g

theorem isCrc_singleton {g r b c : BitVec w} :
    IsCrc g r [b] c ↔ wordPoly c = (X ^ w * (wordPoly r + wordPoly b)) %ₘ generator g := by
  rw [IsCrc, messagePoly, List.foldl_cons, List.foldl_nil, List.length_singleton, mul_one, mul_zero,
    zero_add, mul_add]

theorem wordPoly_setWidth_shiftLeft (hk : k ≤ w) (b : BitVec k) :
    wordPoly (b.setWidth w <<< (w - k)) = X ^ (w - k) * wordPoly b := by
  ext j
  rw [wordPoly_coeff, coeff_X_pow_mul', BitVec.getLsbD_shiftLeft, BitVec.getLsbD_setWidth,
    wordPoly_coeff]
  by_cases hj : w - k ≤ j
  · by_cases hjw : j < w
    · simp [hj, hjw, Nat.not_lt.2 hj, show j - (w - k) < w by omega]
    · rw [BitVec.getLsbD_of_ge b (j - (w - k)) (by omega)]
      simp [hjw]
  · simp [hj, Nat.lt_of_not_le hj]

theorem messagePoly_concat (l : List (BitVec k)) (b : BitVec k) :
    messagePoly (l ++ [b]) = X ^ k * messagePoly l + wordPoly b := by
  rw [messagePoly, List.foldl_append]
  rfl

theorem crcChunks_dvd (hk : k ≤ w) (g init : BitVec w) (l : List (BitVec k)) :
    generator g ∣ X ^ (k * l.length) * wordPoly init + X ^ w * messagePoly l -
      wordPoly (crcChunks g init l) := by
  induction l using List.reverseRecOn with
  | nil => simp [messagePoly, crcChunks]
  | append_singleton l b ih =>
    have hturns := dvd_crcTurn_iterate g (crcChunks g init l ^^^ b.setWidth w <<< (w - k)) k
    rw [wordPoly_xor, wordPoly_setWidth_shiftLeft hk] at hturns
    have hlast : crcChunks g init (l ++ [b]) =
        (crcTurn g)^[k] (crcChunks g init l ^^^ b.setWidth w <<< (w - k)) := by
      rw [crcChunks, List.foldl_append]
      rfl
    have hpow : (X : (ZMod 2)[X]) ^ w = X ^ k * X ^ (w - k) := by
      rw [← pow_add, Nat.add_sub_cancel' hk]
    have hlen : (X : (ZMod 2)[X]) ^ (k * (l ++ [b]).length) = X ^ k * X ^ (k * l.length) := by
      rw [List.length_append, List.length_singleton, Nat.mul_add_one, Nat.add_comm, pow_add]
    have hsum := dvd_add (dvd_mul_of_dvd_right ih (X ^ k)) hturns
    rw [hlast, messagePoly_concat, hlen]
    convert hsum using 1
    linear_combination wordPoly b * hpow

/-- **The register is the remainder.** -/
theorem isCrc_iff (hk : k ≤ w) {g init : BitVec w} {l : List (BitVec k)} {c : BitVec w} :
    IsCrc g init l c ↔ c = crcChunks g init l := by
  have hrem := wordPoly_eq_mod_iff.2 (crcChunks_dvd hk g init l)
  rw [IsCrc, ← hrem, wordPoly_inj]

/-! ## Messages taken apart -/

theorem wordPoly_append {m : ℕ} (u : BitVec m) (v : BitVec k) :
    wordPoly (u ++ v) = X ^ k * wordPoly u + wordPoly v := by
  ext j
  rw [wordPoly_coeff, coeff_add, coeff_X_pow_mul', wordPoly_coeff, wordPoly_coeff,
    BitVec.getLsbD_append]
  by_cases hj : j < k
  · simp [hj, Nat.not_le.2 hj]
  · rw [BitVec.getLsbD_of_ge v j (Nat.le_of_not_lt hj)]
    simp [hj, Nat.le_of_not_lt hj]

theorem messagePoly_append (l l' : List (BitVec k)) :
    messagePoly (l ++ l') = X ^ (k * l'.length) * messagePoly l + messagePoly l' := by
  induction l' using List.reverseRecOn with
  | nil => simp [messagePoly]
  | append_singleton l' b ih =>
    rw [← List.append_assoc, messagePoly_concat, ih, messagePoly_concat, List.length_append,
      List.length_singleton, Nat.mul_add_one]
    ring

/-- Chunks cut into smaller ones are the same message. -/
theorem isCrc_flatMap {m : ℕ} {f : BitVec m → List (BitVec k)} (hlen : ∀ b, k * (f b).length = m)
    (hf : ∀ b, messagePoly (f b) = wordPoly b) {g init : BitVec w} {l : List (BitVec m)}
    {c : BitVec w} : IsCrc g init (l.flatMap f) c ↔ IsCrc g init l c := by
  have hsame : k * (l.flatMap f).length = m * l.length ∧ messagePoly (l.flatMap f) = messagePoly l := by
    induction l using List.reverseRecOn with
    | nil => exact ⟨rfl, rfl⟩
    | append_singleton l b ih =>
      obtain ⟨ihlen, ihpoly⟩ := ih
      rw [List.flatMap_append, List.flatMap_singleton]
      constructor
      · rw [List.length_append, Nat.mul_add, ihlen, hlen, List.length_append, List.length_singleton,
          Nat.mul_add_one]
      · rw [messagePoly_append, ihpoly, hlen, hf, messagePoly_concat]
  rw [IsCrc, IsCrc, hsame.1, hsame.2]

/-- The message with its CRC behind it, `init` XORed into its first `w` bits. -/
noncomputable def framePoly (init : BitVec w) (l : List (BitVec k)) : (ZMod 2)[X] :=
  X ^ (k * l.length - w) * wordPoly init + messagePoly l

/-- A register is the CRC iff the message with it is a multiple of the
generator. -/
theorem isCrc_iff_dvd_framePoly {g init : BitVec (k + k)} {l : List (BitVec k)} {u v : BitVec k} :
    IsCrc g init l (u ++ v) ↔ generator g ∣ framePoly init (l ++ [u, v]) := by
  have htwo : (2 : (ZMod 2)[X]) = 0 := CharTwo.two_eq_zero
  have hlen : k * (l ++ [u, v]).length - (k + k) = k * l.length := by
    rw [List.length_append, List.length_cons, List.length_singleton, Nat.mul_add, Nat.mul_two,
      Nat.add_sub_cancel]
  rw [IsCrc, wordPoly_eq_mod_iff, framePoly, hlen,
    show l ++ [u, v] = l ++ [u] ++ [v] by rw [List.append_assoc]; rfl, messagePoly_concat,
    messagePoly_concat, wordPoly_append]
  refine Eq.to_iff (congrArg _ ?_)
  linear_combination -(X ^ k * wordPoly u + wordPoly v) * htwo

/-! ## Registers that shift to the right -/

/-- One turn of the mirrored register. -/
def crcTurnRight (p r : BitVec w) : BitVec w := if r.getLsbD 0 then r >>> 1 ^^^ p else r >>> 1

theorem reverse_xor (u v : BitVec w) : (u ^^^ v).reverse = u.reverse ^^^ v.reverse := by
  refine BitVec.eq_of_getLsbD_eq fun i _ => ?_
  rw [BitVec.getLsbD_reverse, BitVec.getMsbD_xor, BitVec.getLsbD_xor, BitVec.getLsbD_reverse,
    BitVec.getLsbD_reverse]

theorem reverse_ushiftRight_one (v : BitVec w) : (v >>> 1).reverse = v.reverse <<< 1 := by
  refine BitVec.eq_of_getLsbD_eq fun i hi => ?_
  rw [BitVec.getLsbD_reverse, BitVec.getMsbD_ushiftRight, BitVec.getLsbD_shiftLeft,
    BitVec.getLsbD_reverse]
  simp [hi]

theorem reverse_crcTurnRight (p r : BitVec w) :
    (crcTurnRight p r).reverse = crcTurn p.reverse r.reverse := by
  rw [crcTurn, BitVec.msb_reverse, crcTurnRight]
  split
  · rw [reverse_xor, reverse_ushiftRight_one]
  · exact reverse_ushiftRight_one r

theorem reverse_setWidth (hk : k ≤ w) (b : BitVec k) :
    (b.setWidth w).reverse = b.reverse.setWidth w <<< (w - k) := by
  refine BitVec.eq_of_getLsbD_eq fun i hi => ?_
  rw [BitVec.getLsbD_reverse, BitVec.getMsbD_setWidth, BitVec.getLsbD_shiftLeft,
    BitVec.getLsbD_setWidth, BitVec.getLsbD_reverse]
  by_cases hlow : i < w - k
  · simp [hlow, show ¬ w - k ≤ i by omega]
  · have hsub : i - (w - k) < w := by omega
    simp [hi, hsub, show w - k ≤ i by omega, show i + k - w = i - (w - k) by omega]

theorem crcTurnRight_xor (p x y : BitVec w) :
    crcTurnRight p (x ^^^ y) = crcTurnRight p x ^^^ crcTurnRight p y := by
  have heq : ∀ r : BitVec w, crcTurnRight p r = r >>> 1 ^^^ if r.getLsbD 0 then p else 0 := fun r => by
    unfold crcTurnRight
    split
    · rfl
    · exact BitVec.xor_zero.symm
  have hfeed : ∀ a b : Bool, (if (a ^^ b) = true then p else 0) = (if a then p else 0) ^^^ if b then p else 0 := by
    simp
  rw [heq, heq, heq, BitVec.ushiftRight_xor_distrib, BitVec.getLsbD_xor, hfeed]
  ac_rfl

/-- The turns of the register are linear. -/
theorem crcTurnsRight_xor (p : BitVec w) (n : ℕ) (x y : BitVec w) :
    (crcTurnRight p)^[n] (x ^^^ y) = (crcTurnRight p)^[n] x ^^^ (crcTurnRight p)^[n] y := by
  induction n generalizing x y with
  | zero => rfl
  | succ n ih =>
    rw [Function.iterate_succ_apply, crcTurnRight_xor, ih]
    rfl

/-- The mirrored register over a message: the chunks come in at the bottom. -/
def crcChunksRight (p init : BitVec w) (l : List (BitVec k)) : BitVec w :=
  l.foldl (fun r b => (crcTurnRight p)^[k] (r ^^^ b.setWidth w)) init

/-- It is the mirror image of the register over the mirrored message. -/
theorem reverse_crcChunksRight (hk : k ≤ w) (p init : BitVec w) (l : List (BitVec k)) :
    (crcChunksRight p init l).reverse =
      crcChunks p.reverse init.reverse (l.map BitVec.reverse) := by
  have hturns : ∀ n r, ((crcTurnRight p)^[n] r).reverse = (crcTurn p.reverse)^[n] r.reverse :=
    fun n r => Function.Semiconj.iterate_right (reverse_crcTurnRight p) n r
  induction l generalizing init with
  | nil => rfl
  | cons b l ih =>
    have hchunk : ((crcTurnRight p)^[k] (init ^^^ b.setWidth w)).reverse =
        crcChunk p.reverse init.reverse b.reverse := by
      rw [hturns, reverse_xor, reverse_setWidth hk]
      rfl
    rw [List.map_cons, crcChunks, List.foldl_cons, ← hchunk]
    exact ih _

/-- What a register that shifts to the right holds is the mirror image of a
remainder. -/
theorem isCrc_reverse_iff (hk : k ≤ w) {p init c : BitVec w} {l : List (BitVec k)} :
    IsCrc p.reverse init.reverse (l.map BitVec.reverse) c.reverse ↔ c = crcChunksRight p init l := by
  have hinj : Function.Injective (BitVec.reverse (w := w)) :=
    Function.LeftInverse.injective fun _ => BitVec.reverse_reverse_eq
  rw [isCrc_iff hk, ← reverse_crcChunksRight hk, hinj.eq_iff]

end Stm32Handler
