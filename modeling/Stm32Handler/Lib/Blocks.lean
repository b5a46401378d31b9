import Mathlib.Data.List.Basic
import Mathlib.Data.Nat.Basic
import Mathlib.Order.Basic

/-!
# Blocks of an interval

Blocks in the order of their addresses, with a gap after each of them
(`Gapped`): the free list of an allocator that joins neighbours. `release` puts
a block back, joined with the one that ends where it begins and with the one
that begins where it ends. What is apart from the list and from the block is
apart from the list after it (`apart_release`), the list stays gapped
(`Gapped.release`) and has the block's bytes more (`bytesOf_release`).

Gapped blocks that fill an interval are one block (`Gapped.eq_singleton`).
-/

namespace Stm32Handler

structure Block where
  addr : ℕ
  size : ℕ
  deriving DecidableEq

namespace Block

def stop (b : Block) : ℕ := b.addr + b.size

/-- No byte in common. -/
def Apart (a b : Block) : Prop := a.stop ≤ b.addr ∨ b.stop ≤ a.addr

theorem Apart.symm {a b : Block} (h : a.Apart b) : b.Apart a := Or.symm h

instance : Std.Symm Apart := ⟨fun _ _ => Apart.symm⟩

/-- Two blocks in one, the second where the first ends. -/
def join (a b : Block) : Block := ⟨a.addr, a.size + b.size⟩

@[simp] theorem join_addr (a b : Block) : (a.join b).addr = a.addr := rfl

@[simp] theorem join_size (a b : Block) : (a.join b).size = a.size + b.size := rfl

theorem join_stop {a b : Block} (h : a.stop = b.addr) : (a.join b).stop = b.stop := by
  simp only [stop, join] at h ⊢
  omega

/-- What is apart from both is apart from the two in one. -/
theorem apart_join {a b y : Block} (h : a.stop = b.addr) (hy : 0 < y.size) (ha : y.Apart a) (hb : y.Apart b) :
    y.Apart (a.join b) := by
  simp only [Apart, stop, join] at *
  omega

/-- Part of a block is apart from what the block is apart from. -/
theorem apart_of_inside {x b c : Block} (h : b.Apart c) (hlow : b.addr ≤ x.addr) (hhigh : x.stop ≤ b.stop) :
    x.Apart c := by
  simp only [Apart, stop] at *
  omega

/-- A cell of a block is no header of a block it is apart from. -/
theorem addr_ne_of_inside {b c : Block} (h : b.Apart c) (hc : 0 < c.size) {k : ℕ} (hlow : b.addr ≤ k)
    (hhigh : k < b.stop) : c.addr ≠ k := by
  simp only [Apart, stop] at *
  omega

theorem addr_ne_of_apart {a b : Block} (hab : a.Apart b) (ha : 0 < a.size) (hb : 0 < b.size) :
    a.addr ≠ b.addr := by
  simp only [Apart, stop] at hab
  omega

end Block

open Block

/-- In order, and no block begins where another ends. -/
def Gapped (bs : List Block) : Prop := bs.Pairwise fun a b => a.stop < b.addr

def bytesOf : List Block → ℕ
  | [] => 0
  | b :: bs => b.size + bytesOf bs

@[simp] theorem bytesOf_nil : bytesOf [] = 0 := rfl

@[simp] theorem bytesOf_cons (b : Block) (bs : List Block) : bytesOf (b :: bs) = b.size + bytesOf bs := rfl

@[simp] theorem bytesOf_append (as bs : List Block) : bytesOf (as ++ bs) = bytesOf as + bytesOf bs := by
  induction as with
  | nil => exact (Nat.zero_add _).symm
  | cons a as ih => rw [List.cons_append, bytesOf_cons, bytesOf_cons, ih, Nat.add_assoc]

theorem le_bytesOf {b : Block} {bs : List Block} (hb : b ∈ bs) : b.size ≤ bytesOf bs := by
  obtain ⟨pre, post, rfl⟩ := List.append_of_mem hb
  rw [bytesOf_append, bytesOf_cons]
  omega

/-- A block at the head, joined with the next one. -/
def putFirst (x : Block) : List Block → List Block
  | [] => [x]
  | b :: bs => if x.stop = b.addr then x.join b :: bs else x :: b :: bs

/-- A block goes back. -/
def release (x : Block) : List Block → List Block
  | [] => [x]
  | b :: bs =>
    if b.addr < x.addr then
      if b.stop = x.addr then putFirst (b.join x) bs else b :: release x bs
    else putFirst x (b :: bs)

theorem putFirst_cons (x b : Block) (bs : List Block) :
    putFirst x (b :: bs) = if x.stop = b.addr then x.join b :: bs else x :: b :: bs := rfl

theorem bytesOf_putFirst (x : Block) (bs : List Block) : bytesOf (putFirst x bs) = x.size + bytesOf bs := by
  cases bs with
  | nil => rfl
  | cons b bs =>
    rw [putFirst_cons]
    split
    · simp [Nat.add_assoc]
    · simp

/-- Before the first block. -/
theorem release_first {x : Block} {bs : List Block} (h : ∀ b ∈ bs.head?, x.addr ≤ b.addr) :
    release x bs = putFirst x bs := by
  cases bs with
  | nil => rfl
  | cons b bs => exact if_neg (Nat.not_lt.2 (h b rfl))

/-- Behind the block `p`. -/
theorem release_behind {x p : Block} {pre post : List Block} (h : Gapped (pre ++ p :: post))
    (hp : p.addr < x.addr) (hpost : ∀ b ∈ post.head?, x.addr ≤ b.addr) :
    release x (pre ++ p :: post) =
      pre ++ if p.stop = x.addr then putFirst (p.join x) post else p :: putFirst x post := by
  induction pre with
  | nil =>
    show (if p.addr < x.addr then _ else _) = _
    rw [if_pos hp, release_first hpost]
    rfl
  | cons b pre ih =>
    obtain ⟨hb, hrest⟩ := List.pairwise_cons.1 h
    have hbp : b.stop < p.addr := hb p (by simp)
    have hle : b.addr ≤ b.stop := Nat.le_add_right _ _
    show (if b.addr < x.addr then _ else _) = _
    rw [if_pos (by omega), if_neg (by omega)]
    exact congrArg (b :: ·) (ih hrest)

theorem bytesOf_release (x : Block) (bs : List Block) : bytesOf (release x bs) = x.size + bytesOf bs := by
  induction bs with
  | nil => rfl
  | cons b bs ih =>
    unfold release
    split
    · split
      · rw [bytesOf_putFirst, join_size, bytesOf_cons]
        omega
      · rw [bytesOf_cons, ih, bytesOf_cons]
        omega
    · exact bytesOf_putFirst x (b :: bs)

/-- What holds of every block and survives joining holds after a release. -/
theorem forall_putFirst {P : Block → Prop} (hjoin : ∀ a b : Block, a.stop = b.addr → P a → P b → P (a.join b))
    {x : Block} {bs : List Block} (hx : P x) (hbs : ∀ b ∈ bs, P b) : ∀ b ∈ putFirst x bs, P b := by
  cases bs with
  | nil => exact List.forall_mem_singleton.2 hx
  | cons b bs =>
    obtain ⟨hb, hbs⟩ := List.forall_mem_cons.1 hbs
    rw [putFirst_cons]
    split
    next heq => exact List.forall_mem_cons.2 ⟨hjoin x b heq hx hb, hbs⟩
    next => exact List.forall_mem_cons.2 ⟨hx, List.forall_mem_cons.2 ⟨hb, hbs⟩⟩

theorem forall_release {P : Block → Prop} (hjoin : ∀ a b : Block, a.stop = b.addr → P a → P b → P (a.join b))
    {x : Block} {bs : List Block} (hx : P x) (hbs : ∀ b ∈ bs, P b) : ∀ b ∈ release x bs, P b := by
  induction bs with
  | nil => exact List.forall_mem_singleton.2 hx
  | cons b bs ih =>
    obtain ⟨hb, hrest⟩ := List.forall_mem_cons.1 hbs
    unfold release
    split
    · split
      next heq => exact forall_putFirst hjoin (hjoin b x heq hb hx) hrest
      next => exact List.forall_mem_cons.2 ⟨hb, ih hrest⟩
    · exact forall_putFirst hjoin hx hbs

theorem apart_release {x y : Block} {bs : List Block} (hy : 0 < y.size) (hx : y.Apart x)
    (hbs : ∀ b ∈ bs, y.Apart b) : ∀ b ∈ release x bs, y.Apart b :=
  forall_release (P := fun b => y.Apart b) (fun _ _ heq ha hb => apart_join heq hy ha hb) hx hbs

theorem Gapped.putFirst {x : Block} {bs : List Block} (h : Gapped bs) (hx : ∀ b ∈ bs, x.stop ≤ b.addr) :
    Gapped (putFirst x bs) := by
  cases bs with
  | nil => exact List.pairwise_singleton _ _
  | cons b bs =>
    obtain ⟨hb, hrest⟩ := List.pairwise_cons.1 h
    rw [putFirst_cons]
    split
    next heq =>
      refine List.pairwise_cons.2 ⟨fun c hc => ?_, hrest⟩
      rw [join_stop heq]
      exact hb c hc
    next hne =>
      have hlt : x.stop < b.addr := Nat.lt_of_le_of_ne (hx b List.mem_cons_self) hne
      refine List.pairwise_cons.2 ⟨fun c hc => ?_, h⟩
      rcases List.mem_cons.1 hc with rfl | hc
      · exact hlt
      · have hle : b.addr ≤ b.stop := Nat.le_add_right _ _
        have hbc := hb c hc
        omega

theorem Gapped.apart {pre post : List Block} {b : Block} (hg : Gapped (pre ++ b :: post)) :
    ∀ c ∈ pre ++ post, b.Apart c := by
  rw [Gapped, List.pairwise_append, List.pairwise_cons] at hg
  intro c hc
  rcases List.mem_append.1 hc with hc | hc
  · exact .inr (hg.2.2 c hc b List.mem_cons_self).le
  · exact .inl (hg.2.1.1 c hc).le

/-- Everything in the list is behind a block that is before its head. -/
theorem Gapped.behind {x b : Block} {bs : List Block} (h : Gapped (b :: bs)) (hx : x.stop ≤ b.addr) :
    ∀ c ∈ b :: bs, x.stop ≤ c.addr := by
  obtain ⟨hb, -⟩ := List.pairwise_cons.1 h
  intro c hc
  rcases List.mem_cons.1 hc with rfl | hc
  · exact hx
  · have hle : b.addr ≤ b.stop := Nat.le_add_right _ _
    have hbc := hb c hc
    omega

theorem Gapped.release {x : Block} {bs : List Block} (h : Gapped bs) (hpos : ∀ b ∈ bs, 0 < b.size)
    (hx : 0 < x.size) (hapart : ∀ b ∈ bs, x.Apart b) : Gapped (release x bs) := by
  induction bs with
  | nil => exact List.pairwise_singleton _ _
  | cons b bs ih =>
    obtain ⟨hb, hrest⟩ := List.pairwise_cons.1 h
    obtain ⟨hbpos, hpos⟩ := List.forall_mem_cons.1 hpos
    obtain ⟨hbapart, hapart⟩ := List.forall_mem_cons.1 hapart
    unfold Stm32Handler.release
    split
    next hlt =>
      have hbx : b.stop ≤ x.addr := by
        simp only [Apart, stop] at hbapart ⊢
        omega
      split
      next heq =>
        refine Gapped.putFirst hrest fun c hc => ?_
        have hbc := hb c hc
        have hxc := hapart c hc
        have hcpos := hpos c hc
        simp only [Apart, stop, join] at hbc hxc heq ⊢
        omega
      next hne =>
        refine List.pairwise_cons.2 ⟨?_, ih hrest hpos hapart⟩
        -- every block of the list after it still begins behind `b`
        refine forall_release (P := fun c => b.stop < c.addr) (fun _ _ _ ha _ => ha) ?_ hb
        exact Nat.lt_of_le_of_ne hbx hne
    next hge =>
      have hxb : x.stop ≤ b.addr := by
        simp only [Apart, stop] at hbapart ⊢
        omega
      exact Gapped.putFirst h (h.behind hxb)

/-- Gapped blocks of an interval leave a byte between any two of them. -/
theorem Gapped.bytesOf_le {bs : List Block} (h : Gapped bs) {lo hi : ℕ}
    (hin : ∀ b ∈ bs, lo ≤ b.addr ∧ b.stop ≤ hi) : bytesOf bs + (bs.length - 1) ≤ hi - lo := by
  induction bs generalizing lo with
  | nil => exact Nat.zero_le _
  | cons b bs ih =>
    obtain ⟨hb, hrest⟩ := List.pairwise_cons.1 h
    obtain ⟨⟨hlo, hhi⟩, hin⟩ := List.forall_mem_cons.1 hin
    have hle := @ih hrest (b.stop + 1) fun c hc => ⟨hb c hc, (hin c hc).2⟩
    rw [bytesOf_cons, List.length_cons]
    simp only [stop] at hhi hle hin hb
    cases bs with
    | nil =>
      simp only [bytesOf_nil, List.length_nil]
      omega
    | cons c cs =>
      have hc := hin c List.mem_cons_self
      have hbc := hb c List.mem_cons_self
      rw [List.length_cons] at hle ⊢
      omega

/-- If they fill it, they are one block. -/
theorem Gapped.eq_singleton {bs : List Block} (h : Gapped bs) {lo hi : ℕ}
    (hin : ∀ b ∈ bs, lo ≤ b.addr ∧ b.stop ≤ hi) (hlt : lo < hi) (hfill : bytesOf bs = hi - lo) :
    bs = [⟨lo, hi - lo⟩] := by
  have hle := h.bytesOf_le hin
  match bs, hin, hfill, hle with
  | [], _, hfill, _ =>
    rw [bytesOf_nil] at hfill
    omega
  | [b], hin, hfill, _ =>
    obtain ⟨hlo, hhi⟩ := hin b List.mem_cons_self
    rw [bytesOf_cons, bytesOf_nil] at hfill
    simp only [stop] at hhi
    obtain ⟨addr, size⟩ := b
    simp only at hlo hhi hfill
    rw [show addr = lo by omega, show size = hi - lo by omega]
  | b :: c :: cs, _, hfill, hle =>
    rw [hfill, List.length_cons, List.length_cons] at hle
    omega

end Stm32Handler
