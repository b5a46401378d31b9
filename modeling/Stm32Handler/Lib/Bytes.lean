import Mathlib.Data.BitVec
import Mathlib.Data.List.GetD
import Mathlib.Tactic.Abel

/-!
# Bytes, words and memory regions

A buffer is a function from offsets to bytes, a memory one from `w`-bit
addresses; `Mem.bytes m a` is the buffer that starts at address `a`. `blit`
replaces `n` bytes from an offset on, in a buffer (`Buf.blit`) or in a memory
(`Mem.blit`, where the region may wrap around the address space). What a blit
does to a region is said twice: seen from a base below it, it is the blit of
the buffer (`Mem.bytes_blit`); seen from a region it does not meet, nothing
happens (`Mem.bytes_blit_disjoint`).

`word` reads four bytes, the lowest first, and `wordByte` takes them apart. A
loop that stores word after word is one blit (`Mem.foldl_store32`,
`Buf.foldl_store32`).
-/

namespace Stm32Handler

abbrev Byte := BitVec 8

abbrev Buf := ℕ → Byte

/-- The little-endian word at offset `i`. -/
def word (f : Buf) (i : ℕ) : BitVec 32 := f (i + 3) ++ f (i + 2) ++ f (i + 1) ++ f i

/-- Byte `k` of a word. -/
def wordByte (w : BitVec 32) (k : ℕ) : Byte := w.extractLsb' (8 * k) 8

theorem word_congr {f g : Buf} {i j : ℕ} (h : ∀ k < 4, f (i + k) = g (j + k)) :
    word f i = word g j := by
  have h0 := h 0 (by decide)
  simp only [Nat.add_zero] at h0
  simp only [word, h 3 (by decide), h 2 (by decide), h 1 (by decide), h0]

theorem word_wordByte (w : BitVec 32) {f : Buf} {i : ℕ} (h : ∀ k < 4, f (i + k) = wordByte w k) :
    word f i = w := by
  have h0 := h 0 (by decide)
  simp only [Nat.add_zero] at h0
  simp only [word, h 3 (by decide), h 2 (by decide), h 1 (by decide), h0, wordByte]
  ext k hk
  simp only [BitVec.getElem_append, BitVec.getElem_extractLsb']
  split
  · rw [Nat.mul_zero, Nat.zero_add, BitVec.getLsbD_eq_getElem hk]
  · split
    · rw [show 8 * 1 + (k - 8) = k by omega, BitVec.getLsbD_eq_getElem hk]
    · split
      · rw [show 8 * 2 + (k - 8 - 8) = k by omega, BitVec.getLsbD_eq_getElem hk]
      · rw [show 8 * 3 + (k - 8 - 8 - 8) = k by omega, BitVec.getLsbD_eq_getElem hk]

theorem wordByte_word (f : Buf) (i : ℕ) {k : ℕ} (hk : k < 4) : wordByte (word f i) k = f (i + k) := by
  unfold wordByte word
  match k with
  | 0 =>
    rw [BitVec.extractLsb'_append_eq_of_add_le (by decide)]
    simp
  | 1 =>
    rw [BitVec.extractLsb'_append_eq_of_le (by decide),
      BitVec.extractLsb'_append_eq_of_add_le (by decide)]
    simp
  | 2 =>
    rw [BitVec.extractLsb'_append_eq_of_le (by decide),
      BitVec.extractLsb'_append_eq_of_le (by decide),
      BitVec.extractLsb'_append_eq_of_add_le (by decide)]
    simp
  | 3 =>
    rw [BitVec.extractLsb'_append_eq_of_le (by decide),
      BitVec.extractLsb'_append_eq_of_le (by decide),
      BitVec.extractLsb'_append_eq_of_le (by decide)]
    simp

/-! ## Buffers -/

namespace Buf

/-- `b` with the first `n` bytes of `f` at offset `off`. -/
def blit (b : Buf) (off n : ℕ) (f : Buf) : Buf :=
  fun j => if off ≤ j ∧ j < off + n then f (j - off) else b j

def store32 (b : Buf) (off : ℕ) (v : BitVec 32) : Buf := b.blit off 4 (wordByte v)

theorem blit_in {b f : Buf} {off n j : ℕ} (h : off ≤ j ∧ j < off + n) :
    b.blit off n f j = f (j - off) := if_pos h

theorem blit_out {b f : Buf} {off n j : ℕ} (h : ¬ (off ≤ j ∧ j < off + n)) :
    b.blit off n f j = b j := if_neg h

theorem blit_congr {b b' f : Buf} {off n j : ℕ} (h : b j = b' j) :
    b.blit off n f j = b'.blit off n f j := by
  unfold blit
  rw [h]

/-- A word next to a blit. -/
theorem word_blit_out {b f : Buf} {off n i : ℕ} (h : i + 4 ≤ off ∨ off + n ≤ i) :
    word (b.blit off n f) i = word b i :=
  word_congr fun k hk => blit_out (by omega)

theorem word_store32 (b : Buf) (off : ℕ) (v : BitVec 32) : word (b.store32 off v) off = v := by
  refine word_wordByte v fun k hk => ?_
  unfold store32
  rw [blit_in ⟨by omega, by omega⟩, Nat.add_sub_cancel_left]

/-- The next four bytes of a blit, stored as a word. -/
theorem blit_store32 (b f : Buf) (off n : ℕ) :
    (b.blit off n f).store32 (off + n) (word f n) = b.blit off (n + 4) f := by
  funext j
  unfold store32
  by_cases hw : off + n ≤ j ∧ j < off + n + 4
  · rw [blit_in hw, wordByte_word f n (by omega), blit_in ⟨by omega, by omega⟩]
    congr 1
    omega
  · rw [blit_out hw]
    by_cases hin : off ≤ j ∧ j < off + n
    · rw [blit_in hin, blit_in ⟨hin.1, by omega⟩]
    · rw [blit_out hin, blit_out (by omega)]

/-- A loop that stores word after word. -/
theorem foldl_store32 (b f : Buf) (n : ℕ) :
    (List.range n).foldl (fun b index => b.store32 (index * 4) (word f (index * 4))) b =
      b.blit 0 (n * 4) f := by
  induction n with
  | zero =>
    funext j
    exact (blit_out (by omega)).symm
  | succ n ih =>
    rw [List.range_succ, List.foldl_append, ih, List.foldl_cons, List.foldl_nil]
    have := blit_store32 b f 0 (n * 4)
    rwa [Nat.zero_add, show n * 4 + 4 = (n + 1) * 4 by omega] at this

/-- `vs` from offset `off` on, stored byte after byte. -/
def fill : Buf → ℕ → List Byte → Buf
  | b, _, [] => b
  | b, off, v :: vs => fill (Function.update b off v) (off + 1) vs

theorem fill_apply (b : Buf) (off : ℕ) (vs : List Byte) (i : ℕ) :
    b.fill off vs i = if i < off then b i else vs.getD (i - off) (b i) := by
  induction vs generalizing b off with
  | nil => simp [fill]
  | cons v vs ih =>
    rw [fill, ih]
    rcases Nat.lt_trichotomy i off with h | rfl | h
    · rw [if_pos (by omega), if_pos h, Function.update_of_ne h.ne]
    · rw [if_pos (by omega), if_neg (by omega), Function.update_self, Nat.sub_self,
        List.getD_cons_zero]
    · obtain ⟨k, rfl⟩ := Nat.exists_eq_add_of_lt h
      rw [if_neg (by omega), if_neg (by omega), Function.update_of_ne (by omega),
        show off + k + 1 - (off + 1) = k by omega, show off + k + 1 - off = k + 1 by omega,
        List.getD_cons_succ]

theorem fill_append (b : Buf) (off : ℕ) (vs ws : List Byte) :
    b.fill off (vs ++ ws) = (b.fill off vs).fill (off + vs.length) ws := by
  induction vs generalizing b off with
  | nil => rfl
  | cons v vs ih =>
    rw [List.cons_append, fill, fill, ih, List.length_cons, Nat.add_assoc, Nat.add_comm 1]

end Buf

/-! ## Memories -/

abbrev Mem (w : ℕ) := BitVec w → Byte

namespace Mem

variable {w : ℕ}

/-- The bytes from address `a` on. -/
def bytes (m : Mem w) (a : BitVec w) : Buf := fun i => m (a + BitVec.ofNat w i)

/-- `m` with the first `n` bytes of `f` at address `a`. -/
def blit (m : Mem w) (a : BitVec w) (n : ℕ) (f : Buf) : Mem w :=
  fun x => if (x - a).toNat < n then f (x - a).toNat else m x

theorem blit_zero (m : Mem w) (a : BitVec w) (f : Buf) : m.blit a 0 f = m :=
  funext fun _ => if_neg (Nat.not_lt_zero _)

/-- A `blit` changes nothing where it does not reach. -/
theorem blit_of_ne {m : Mem w} {a x : BitVec w} {n : ℕ} {f : Buf}
    (hx : ∀ i < n, x ≠ a + BitVec.ofNat w i) : m.blit a n f x = m x := by
  unfold blit
  rw [if_neg fun hn => hx (x - a).toNat hn ?_]
  rw [BitVec.ofNat_toNat, BitVec.setWidth_eq, add_sub_cancel]

/-- One byte more. -/
theorem blit_succ (m : Mem w) (a : BitVec w) {n : ℕ} (f : Buf) (hn : n < 2 ^ w) :
    Function.update (m.blit a n f) (a + BitVec.ofNat w n) (f n) = m.blit a (n + 1) f := by
  funext x
  unfold blit
  by_cases hx : x = a + BitVec.ofNat w n
  · have hdist : (x - a).toNat = n := by
      rw [hx, show a + BitVec.ofNat w n - a = BitVec.ofNat w n by abel, BitVec.toNat_ofNat,
        Nat.mod_eq_of_lt hn]
    rw [if_pos (by omega), hdist, hx, Function.update_self]
  · have hdist : (x - a).toNat ≠ n := by
      rintro rfl
      apply hx
      rw [BitVec.ofNat_toNat, BitVec.setWidth_eq, add_sub_cancel]
    rw [Function.update_of_ne hx]
    by_cases hlt : (x - a).toNat < n
    · rw [if_pos hlt, if_pos (by omega)]
    · rw [if_neg hlt, if_neg (by omega)]

/-- A byte of a `blit` changed. -/
theorem update_blit (m : Mem w) (a : BitVec w) {i n : ℕ} (f : Buf) (v : Byte) (hi : i < n)
    (hn : n ≤ 2 ^ w) :
    Function.update (m.blit a n f) (a + BitVec.ofNat w i) v = m.blit a n (Function.update f i v) := by
  funext x
  unfold blit
  by_cases hx : x = a + BitVec.ofNat w i
  · have hdist : (x - a).toNat = i := by
      rw [hx, show a + BitVec.ofNat w i - a = BitVec.ofNat w i by abel, BitVec.toNat_ofNat,
        Nat.mod_eq_of_lt (by omega)]
    rw [if_pos (by omega), hdist, hx, Function.update_self, Function.update_self]
  · have hdist : (x - a).toNat ≠ i := by
      rintro rfl
      apply hx
      rw [BitVec.ofNat_toNat, BitVec.setWidth_eq, add_sub_cancel]
    rw [Function.update_of_ne hx, Function.update_of_ne hdist]

theorem blit_bytes (m : Mem w) (a : BitVec w) (n : ℕ) : m.blit a n (m.bytes a) = m := by
  funext x
  unfold blit bytes
  split
  · rw [BitVec.ofNat_toNat, BitVec.setWidth_eq, add_sub_cancel]
  · rfl

def load32 (m : Mem w) (a : BitVec w) : BitVec 32 := word (m.bytes a) 0

def store32 (m : Mem w) (a : BitVec w) (v : BitVec 32) : Mem w := m.blit a 4 (wordByte v)

/-- Two regions of `n` bytes with no address in common. -/
def Disjoint (a b : BitVec w) (n : ℕ) : Prop :=
  ∀ i j, i < n → j < n → a + BitVec.ofNat w i ≠ b + BitVec.ofNat w j

theorem Disjoint.symm {a b : BitVec w} {n : ℕ} (h : Disjoint a b n) : Disjoint b a n :=
  fun i j hi hj e => h j i hj hi e.symm

/-- Regions that do not wrap around the address space, one behind the other. -/
theorem disjoint_of_le {a b : BitVec w} {n : ℕ} (hab : a.toNat + n ≤ b.toNat)
    (hb : b.toNat + n ≤ 2 ^ w) : Disjoint a b n := by
  intro i j hi hj e
  have h := congrArg BitVec.toNat e
  rw [BitVec.toNat_add, BitVec.toNat_add, BitVec.toNat_ofNat, BitVec.toNat_ofNat,
    Nat.mod_eq_of_lt (show i < 2 ^ w by omega), Nat.mod_eq_of_lt (show j < 2 ^ w by omega),
    Nat.mod_eq_of_lt (by omega), Nat.mod_eq_of_lt (by omega)] at h
  omega

theorem bytes_offset (m : Mem w) (a : BitVec w) (off i : ℕ) :
    m.bytes (a + BitVec.ofNat w off) i = m.bytes a (off + i) := by
  simp only [bytes, BitVec.ofNat_add, BitVec.add_assoc]

theorem load32_offset (m : Mem w) (a : BitVec w) (off : ℕ) :
    m.load32 (a + BitVec.ofNat w off) = word (m.bytes a) off := by
  refine word_congr fun k _ => ?_
  rw [bytes_offset, Nat.zero_add]

/-- Every address is some offset from `a`. -/
theorem ext_bytes {m m' : Mem w} (a : BitVec w) (h : ∀ i < 2 ^ w, m.bytes a i = m'.bytes a i) :
    m = m' := by
  funext x
  have hx := h (x - a).toNat (x - a).isLt
  simp only [bytes, BitVec.ofNat_toNat, BitVec.setWidth_eq] at hx
  rwa [add_sub_cancel] at hx

/-- Seen from a base below it, a blit of memory is a blit of the buffer there. -/
theorem bytes_blit (m : Mem w) (a : BitVec w) {off n i : ℕ} (f : Buf) (hoff : off + n ≤ 2 ^ w)
    (hi : i < 2 ^ w) :
    (m.blit (a + BitVec.ofNat w off) n f).bytes a i = (m.bytes a).blit off n f i := by
  by_cases hn : n = 0
  · subst hn
    simp only [bytes, blit, Buf.blit, Nat.not_lt_zero, ↓reduceIte]
    rw [if_neg (by omega)]
  have hoff' : off < 2 ^ w := by omega
  have hdist : (a + BitVec.ofNat w i - (a + BitVec.ofNat w off)).toNat =
      if off ≤ i then i - off else 2 ^ w + i - off := by
    rw [show a + BitVec.ofNat w i - (a + BitVec.ofNat w off) =
      BitVec.ofNat w i - BitVec.ofNat w off by abel, BitVec.toNat_sub, BitVec.toNat_ofNat,
      BitVec.toNat_ofNat, Nat.mod_eq_of_lt hi, Nat.mod_eq_of_lt hoff']
    by_cases hle : off ≤ i
    · rw [if_pos hle, show 2 ^ w - off + i = i - off + 2 ^ w by omega, Nat.add_mod_right,
        Nat.mod_eq_of_lt (by omega)]
    · rw [if_neg hle, Nat.mod_eq_of_lt (by omega)]
      omega
  simp only [bytes, blit, Buf.blit, hdist]
  by_cases hle : off ≤ i
  · by_cases hlt : i < off + n
    · rw [if_pos hle, if_pos (by omega), if_pos ⟨hle, hlt⟩]
    · rw [if_pos hle, if_neg (by omega), if_neg (by omega)]
  · rw [if_neg hle, if_neg (by omega), if_neg (by omega)]

theorem bytes_blit_disjoint (m : Mem w) {a b : BitVec w} {n i : ℕ} (f : Buf)
    (h : ∀ j < n, b + BitVec.ofNat w i ≠ a + BitVec.ofNat w j) :
    (m.blit a n f).bytes b i = m.bytes b i := by
  simp only [bytes, blit]
  rw [if_neg]
  intro hlt
  apply h _ hlt
  rw [BitVec.ofNat_toNat, BitVec.setWidth_eq]
  exact (add_sub_cancel a _).symm

/-- A loop that stores word after word. -/
theorem foldl_store32 (m : Mem w) (a : BitVec w) (f : Buf) {n : ℕ} (hn : n * 4 ≤ 2 ^ w) :
    (List.range n).foldl
        (fun m index => m.store32 (a + BitVec.ofNat w (index * 4)) (word f (index * 4))) m =
      m.blit a (n * 4) f := by
  induction n with
  | zero =>
    funext x
    simp [blit]
  | succ n ih =>
    rw [List.range_succ, List.foldl_append, ih (by omega), List.foldl_cons, List.foldl_nil]
    refine ext_bytes a fun i hi => ?_
    have hbase : ∀ k, k ≤ 2 ^ w → (m.blit a k f).bytes a i = (m.bytes a).blit 0 k f i := fun k hk => by
      have := @bytes_blit w m a 0 k i f (by omega) hi
      rwa [BitVec.add_zero] at this
    have hsnoc := congrFun (Buf.blit_store32 (m.bytes a) f 0 (n * 4)) i
    rw [Nat.zero_add, show n * 4 + 4 = (n + 1) * 4 by omega] at hsnoc
    rw [hbase _ hn, ← hsnoc]
    unfold store32
    rw [bytes_blit _ a _ (by omega) hi]
    unfold Buf.store32 Buf.blit
    split
    · rfl
    · exact hbase _ (by omega)

end Mem

end Stm32Handler
