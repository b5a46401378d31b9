import Mathlib.Data.Nat.Notation
import Mathlib.Logic.Function.Basic

/-!
# A log over two pages

A page is a row of slots. Slot 0 holds the page's header, the slots `1, 2, …`
hold the blocks in the order they were written; a block replaces all before it,
so the current one is the last block of the page whose header is valid. When
that page is full the next block goes to the other page, whose header is
written first, and the full page is erased.

`PageLog` says what the marks of a slot mean and how many slots are searched;
what a slot holds is left open. `writeOps` is the list of puts and erases that
stores a block, so that "stopped after `k` operations" is `List.take k`.

* `current_after`: the new block is current once the operations are done, from
  any contents, unless a block is left above it (`shadow`).
* `Holds` is the shape clean runs have (one valid page, its blocks in front,
  the other page blank); `Holds.after` keeps it.
* `Holds.copy_take`: wherever the operations stop, the current block or the
  new one is still in some slot.
-/

namespace Stm32Handler

/-- Page, slot. -/
abbrev Slots (β : Type*) := Bool → ℕ → β

inductive SlotOp (β : Type*) where
  | put (p : Bool) (s : ℕ) (b : β)
  | erase (p : Bool)

structure PageLog (β : Type*) where
  /-- the mark of a valid page, in its header -/
  page : β → Bool
  /-- the mark of a written block -/
  block : β → Bool
  /-- the mark of an erased slot -/
  free : β → Bool
  /-- what an erased slot holds -/
  blank : β
  /-- the slots `1 … blocks` are searched -/
  blocks : ℕ
  free_blank : free blank = true
  not_page_of_free : ∀ {b}, free b = true → page b = false
  not_block_of_free : ∀ {b}, free b = true → block b = false

namespace Slots

variable {β : Type*}

def put (img : Slots β) (p : Bool) (s : ℕ) (b : β) : Slots β :=
  fun q t => if q = p ∧ t = s then b else img q t

def erase (img : Slots β) (p : Bool) (blank : β) : Slots β :=
  fun q t => if q = p then blank else img q t

@[simp] theorem put_same (img : Slots β) (p : Bool) (s : ℕ) (b : β) : img.put p s b p s = b :=
  if_pos ⟨rfl, rfl⟩

theorem put_slot_ne (img : Slots β) {p q : Bool} {s t : ℕ} (b : β) (h : t ≠ s) :
    img.put p s b q t = img q t := if_neg fun h' => h h'.2

theorem put_page_ne (img : Slots β) {p q : Bool} {s t : ℕ} (b : β) (h : q ≠ p) :
    img.put p s b q t = img q t := if_neg fun h' => h h'.1

@[simp] theorem erase_same (img : Slots β) (p : Bool) (t : ℕ) (blank : β) :
    img.erase p blank p t = blank := if_pos rfl

theorem erase_ne (img : Slots β) {p q : Bool} {t : ℕ} (blank : β) (h : q ≠ p) :
    img.erase p blank q t = img q t := if_neg h

end Slots

namespace PageLog

variable {β : Type*} (L : PageLog β)

/-! ## Searching -/

/-- The page with the valid header, if there is exactly one. -/
def active (img : Slots β) : Option Bool :=
  match L.page (img false 0), L.page (img true 0) with
  | true, false => some false
  | false, true => some true
  | _, _ => none

/-- The first erased slot. -/
def freeSlot (img : Slots β) (p : Bool) : Option ℕ :=
  ((List.range L.blocks).find? fun i => L.free (img p (i + 1))).map (· + 1)

/-- The last slot with a block. -/
def lastBlock (img : Slots β) (p : Bool) : Option ℕ :=
  ((List.range L.blocks).find? fun i => L.block (img p (L.blocks - i))).map (L.blocks - ·)

/-- Where the current block is. -/
def current (img : Slots β) : Option (Bool × ℕ) :=
  (L.active img).bind fun p => (L.lastBlock img p).map fun s => (p, s)

/-- Where the next block goes. -/
def target (img : Slots β) : Bool × ℕ :=
  match L.active img with
  | none => (false, 1)
  | some p =>
    match L.freeSlot img p with
    | some s => (p, s)
    | none => (!p, 1)

variable {L} {img : Slots β} {p : Bool} {s : ℕ}

theorem active_eq_some :
    L.active img = some p ↔ L.page (img p 0) = true ∧ L.page (img (!p) 0) = false := by
  unfold active
  cases p <;> cases h0 : L.page (img false 0) <;> cases h1 : L.page (img true 0) <;> simp [h0, h1]

theorem freeSlot_eq_some :
    L.freeSlot img p = some s ↔ (1 ≤ s ∧ s ≤ L.blocks) ∧ L.free (img p s) = true ∧
      ∀ t, 1 ≤ t → t < s → L.free (img p t) = false := by
  unfold freeSlot
  simp only [Option.map_eq_some_iff, List.find?_range_eq_some, List.mem_range, Bool.not_eq_true']
  constructor
  · rintro ⟨i, ⟨hfree, hi, hbelow⟩, rfl⟩
    refine ⟨⟨by omega, hi⟩, hfree, fun t h1 ht => ?_⟩
    have := hbelow (t - 1) (by omega)
    rwa [show t - 1 + 1 = t by omega] at this
  · rintro ⟨⟨h1, hs⟩, hfree, hbelow⟩
    refine ⟨s - 1, ⟨?_, by omega, fun j hj => hbelow (j + 1) (by omega) (by omega)⟩, by omega⟩
    rwa [show s - 1 + 1 = s by omega]

theorem freeSlot_eq_none :
    L.freeSlot img p = none ↔ ∀ t, 1 ≤ t → t ≤ L.blocks → L.free (img p t) = false := by
  unfold freeSlot
  simp only [Option.map_eq_none_iff, List.find?_range_eq_none, Bool.not_eq_true']
  constructor
  · intro h t h1 ht
    have := h (t - 1) (by omega)
    rwa [show t - 1 + 1 = t by omega] at this
  · exact fun h i hi => h (i + 1) (by omega) (by omega)

theorem lastBlock_eq_some :
    L.lastBlock img p = some s ↔ (1 ≤ s ∧ s ≤ L.blocks) ∧ L.block (img p s) = true ∧
      ∀ t, s < t → t ≤ L.blocks → L.block (img p t) = false := by
  unfold lastBlock
  simp only [Option.map_eq_some_iff, List.find?_range_eq_some, List.mem_range, Bool.not_eq_true']
  constructor
  · rintro ⟨i, ⟨hblock, hi, habove⟩, rfl⟩
    refine ⟨⟨by omega, by omega⟩, hblock, fun t hs ht => ?_⟩
    have := habove (L.blocks - t) (by omega)
    rwa [show L.blocks - (L.blocks - t) = t by omega] at this
  · rintro ⟨⟨h1, hs⟩, hblock, habove⟩
    refine ⟨L.blocks - s, ⟨?_, by omega, fun j hj => habove _ (by omega) (by omega)⟩, by omega⟩
    rwa [show L.blocks - (L.blocks - s) = s by omega]

theorem lastBlock_eq_none :
    L.lastBlock img p = none ↔ ∀ t, 1 ≤ t → t ≤ L.blocks → L.block (img p t) = false := by
  unfold lastBlock
  simp only [Option.map_eq_none_iff, List.find?_range_eq_none, Bool.not_eq_true']
  constructor
  · intro h t h1 ht
    have := h (L.blocks - t) (by omega)
    rwa [show L.blocks - (L.blocks - t) = t by omega] at this
  · exact fun h i hi => h (L.blocks - i) (by omega) (by omega)

theorem current_eq_some :
    L.current img = some (p, s) ↔ L.active img = some p ∧ L.lastBlock img p = some s := by
  unfold current
  simp only [Option.bind_eq_some_iff, Option.map_eq_some_iff, Prod.mk.injEq]
  constructor
  · rintro ⟨q, hq, t, ht, rfl, rfl⟩
    exact ⟨hq, ht⟩
  · rintro ⟨hp, hs⟩
    exact ⟨p, hp, s, hs, rfl, rfl⟩

/-- With no slot to search nothing is ever current. -/
theorem current_eq_none (hb : L.blocks = 0) (img : Slots β) : L.current img = none := by
  cases hcur : L.current img with
  | none => rfl
  | some ps =>
    obtain ⟨p, s⟩ := ps
    have := (lastBlock_eq_some.1 (current_eq_some.1 hcur).2).1
    omega

/-! ## Writing -/

variable (L) in
/-- An erase, unless the page's header is erased already. -/
def eraseUnlessFree (img : Slots β) (p : Bool) : List (SlotOp β) :=
  if L.free (img p 0) then [] else [.erase p]

variable (L) in
/-- The operations that store block `b`; `hdr p` is the header of page `p`. -/
def writeOps (img : Slots β) (hdr : Bool → β) (b : β) : List (SlotOp β) :=
  match L.active img with
  | none =>
    L.eraseUnlessFree img false ++ L.eraseUnlessFree img true ++
      [.put false 0 (hdr false), .put false 1 b]
  | some p =>
    match L.freeSlot img p with
    | some s => [.put p s b]
    | none => L.eraseUnlessFree img (!p) ++ [.put (!p) 0 (hdr (!p)), .put (!p) 1 b, .erase p]

variable (L) in
def applyOp (img : Slots β) : SlotOp β → Slots β
  | .put p s b => img.put p s b
  | .erase p => img.erase p L.blank

variable (L) in
def applyOps (img : Slots β) (ops : List (SlotOp β)) : Slots β := ops.foldl L.applyOp img

variable (L) in
def after (img : Slots β) (hdr : Bool → β) (b : β) : Slots β := L.applyOps img (L.writeOps img hdr b)

variable (L) in
/-- The target page keeps what it holds besides the new block. -/
def keeps (img : Slots β) : Bool :=
  match L.active img with
  | none => L.free (img false 0)
  | some p =>
    match L.freeSlot img p with
    | some _ => true
    | none => L.free (img (!p) 0)

variable (L) in
/-- What the slots of the target page hold besides the new block. -/
def stale (img : Slots β) (t : ℕ) : β := if L.keeps img then img (L.target img).1 t else L.blank

theorem applyOps_append (img : Slots β) (ops ops' : List (SlotOp β)) :
    L.applyOps img (ops ++ ops') = L.applyOps (L.applyOps img ops) ops' := List.foldl_append

theorem applyOps_eraseUnlessFree (img img' : Slots β) (p q : Bool) (t : ℕ) :
    L.applyOps img' (L.eraseUnlessFree img p) q t =
      if q = p ∧ L.free (img p 0) = false then L.blank else img' q t := by
  unfold eraseUnlessFree
  by_cases hf : L.free (img p 0) = true
  · rw [if_pos hf, if_neg (by simp [hf])]
    rfl
  · rw [if_neg hf]
    have hf := Bool.eq_false_iff.2 hf
    by_cases hq : q = p
    · rw [if_pos ⟨hq, hf⟩, hq]
      exact img'.erase_same p t L.blank
    · rw [if_neg fun h => hq h.1]
      exact img'.erase_ne L.blank hq

/-- A page that is erased unless its header is erased has no valid header. -/
theorem not_page_eraseUnlessFree {img img' : Slots β} {p : Bool} (h : img' p 0 = img p 0) :
    L.page (L.applyOps img' (L.eraseUnlessFree img p) p 0) = false := by
  rw [applyOps_eraseUnlessFree]
  by_cases hf : L.free (img p 0) = true
  · rw [if_neg (by simp [hf]), h]
    exact L.not_page_of_free hf
  · rw [if_pos ⟨rfl, Bool.eq_false_iff.2 hf⟩]
    exact L.not_page_of_free L.free_blank

theorem ne_not (p : Bool) : p ≠ !p := by cases p <;> decide

/-- What the operations leave: the new block in slot `s` of page `p`, that page
valid, and the rest of it as `stale` has it. -/
structure Stored (L : PageLog β) (img : Slots β) (b : β) (p : Bool) (s : ℕ) (out : Slots β) :
    Prop where
  pos : 1 ≤ s
  block_eq : out p s = b
  active_eq : L.active out = some p
  stale_eq : ∀ t, t ≠ 0 → t ≠ s → out p t = L.stale img t

theorem stored_none {hdr : Bool → β} (hhdr : ∀ p, L.page (hdr p) = true) (b : β)
    (ha : L.active img = none) : Stored L img b false 1 (L.after img hdr b) := by
  have hstale : ∀ t, L.stale img t = if L.free (img false 0) then img false t else L.blank := fun t => by
    simp only [stale, keeps, target, ha]
  simp only [after, writeOps, ha, applyOps_append]
  have hputs : ∀ (j : Slots β) q t, L.applyOps j [.put false 0 (hdr false), .put false 1 b] q t =
      ((j.put false 0 (hdr false)).put false 1 b) q t := fun _ _ _ => rfl
  refine ⟨Nat.le_refl 1, ?_, active_eq_some.2 ⟨?_, ?_⟩, fun t h0 h1 => ?_⟩
  · rw [hputs, Slots.put_same]
  · rw [hputs, Slots.put_slot_ne _ _ Nat.zero_ne_one, Slots.put_same]
    exact hhdr false
  · rw [hputs, Slots.put_page_ne _ _ (ne_not false).symm, Slots.put_page_ne _ _ (ne_not false).symm]
    apply not_page_eraseUnlessFree
    rw [applyOps_eraseUnlessFree, if_neg fun h => Bool.noConfusion h.1]
  · rw [hputs, Slots.put_slot_ne _ _ h1, Slots.put_slot_ne _ _ h0, applyOps_eraseUnlessFree,
      if_neg fun h => Bool.noConfusion h.1, applyOps_eraseUnlessFree, hstale]
    cases L.free (img false 0) <;> rfl

theorem stored_slot {hdr : Bool → β} (b : β) (ha : L.active img = some p)
    (hs : L.freeSlot img p = some s) : Stored L img b p s (L.after img hdr b) := by
  have hstale : ∀ t, L.stale img t = img p t := fun t => by
    simp only [stale, keeps, target, ha, hs, ↓reduceIte]
  have hpos := (freeSlot_eq_some.1 hs).1.1
  obtain ⟨hp, hq⟩ := active_eq_some.1 ha
  simp only [after, writeOps, ha, hs]
  have hkeep : ∀ q t, t ≠ s → L.applyOps img [.put p s b] q t = img q t := fun q t ht =>
    Slots.put_slot_ne img b ht
  refine ⟨hpos, img.put_same p s b, active_eq_some.2 ⟨?_, ?_⟩, fun t _ ht => ?_⟩
  · rwa [hkeep p 0 (by omega)]
  · rwa [hkeep (!p) 0 (by omega)]
  · rw [hkeep p t ht, hstale]

theorem stored_full {hdr : Bool → β} (hhdr : ∀ p, L.page (hdr p) = true) (b : β)
    (ha : L.active img = some p) (hs : L.freeSlot img p = none) :
    Stored L img b (!p) 1 (L.after img hdr b) := by
  have hstale : ∀ t, L.stale img t = if L.free (img (!p) 0) then img (!p) t else L.blank := fun t => by
    simp only [stale, keeps, target, ha, hs]
  simp only [after, writeOps, ha, hs, applyOps_append]
  have hkeep : ∀ (j : Slots β) t, L.applyOps j [.put (!p) 0 (hdr (!p)), .put (!p) 1 b, .erase p] (!p) t =
      ((j.put (!p) 0 (hdr (!p))).put (!p) 1 b) (!p) t := fun j t =>
    Slots.erase_ne _ L.blank (ne_not p).symm
  refine ⟨Nat.le_refl 1, ?_, active_eq_some.2 ⟨?_, ?_⟩, fun t h0 h1 => ?_⟩
  · rw [hkeep, Slots.put_same]
  · rw [hkeep, Slots.put_slot_ne _ _ Nat.zero_ne_one, Slots.put_same]
    exact hhdr (!p)
  · rw [Bool.not_not]
    apply (congrArg L.page (Slots.erase_same _ p 0 L.blank)).trans
    exact L.not_page_of_free L.free_blank
  · rw [hkeep, Slots.put_slot_ne _ _ h1, Slots.put_slot_ne _ _ h0, applyOps_eraseUnlessFree, hstale]
    cases L.free (img (!p) 0) <;> simp

/-- **Where the new block ends up**, from any contents. -/
theorem stored_after {hdr : Bool → β} (hhdr : ∀ p, L.page (hdr p) = true) (img : Slots β) (b : β) :
    Stored L img b (L.target img).1 (L.target img).2 (L.after img hdr b) := by
  cases ha : L.active img with
  | none =>
    have ht : L.target img = (false, 1) := by simp only [target, ha]
    rw [ht]
    exact stored_none hhdr b ha
  | some p =>
    cases hs : L.freeSlot img p with
    | some s =>
      have ht : L.target img = (p, s) := by simp only [target, ha, hs]
      rw [ht]
      exact stored_slot b ha hs
    | none =>
      have ht : L.target img = (!p, 1) := by simp only [target, ha, hs]
      rw [ht]
      exact stored_full hhdr b ha hs

variable (L) in
/-- The last block left above the target slot: it hides the new one. -/
def shadow (img : Slots β) : Option ℕ :=
  L.lastBlock (fun _ t => if t ≤ (L.target img).2 then L.blank else L.stale img t) (L.target img).1

theorem shadow_eq_some :
    L.shadow img = some s ↔ ((L.target img).2 < s ∧ s ≤ L.blocks) ∧ L.block (L.stale img s) = true ∧
      ∀ t, s < t → t ≤ L.blocks → L.block (L.stale img t) = false := by
  unfold shadow
  rw [lastBlock_eq_some]
  constructor
  · rintro ⟨⟨-, hs⟩, hblock, habove⟩
    have hgt : (L.target img).2 < s := by
      refine Nat.lt_of_not_le fun hle => ?_
      rw [if_pos hle, L.not_block_of_free L.free_blank] at hblock
      cases hblock
    rw [if_neg (Nat.not_le.2 hgt)] at hblock
    refine ⟨⟨hgt, hs⟩, hblock, fun t ht hle => ?_⟩
    have := habove t ht hle
    rwa [if_neg (by omega)] at this
  · rintro ⟨⟨hgt, hs⟩, hblock, habove⟩
    refine ⟨⟨by omega, hs⟩, ?_, fun t ht hle => ?_⟩
    · rwa [if_neg (Nat.not_le.2 hgt)]
    · rw [if_neg (by omega)]
      exact habove t ht hle

theorem shadow_eq_none :
    L.shadow img = none ↔
      ∀ t, (L.target img).2 < t → t ≤ L.blocks → L.block (L.stale img t) = false := by
  unfold shadow
  rw [lastBlock_eq_none]
  constructor
  · intro h t hgt ht
    have := h t (by omega) ht
    rwa [if_neg (Nat.not_le.2 hgt)] at this
  · intro h t _ ht
    split
    · exact L.not_block_of_free L.free_blank
    · next hgt => exact h t (Nat.not_le.1 hgt) ht

theorem target_le (hpos : 0 < L.blocks) (img : Slots β) : (L.target img).2 ≤ L.blocks := by
  unfold target
  split
  · exact hpos
  · next p _ =>
    split
    · next s hs => exact (freeSlot_eq_some.1 hs).1.2
    · exact hpos

section Current

variable {hdr : Bool → β} (hhdr : ∀ p, L.page (hdr p) = true) {b : β}
include hhdr

/-- **What is current after a write** with no block above the target slot: the
new block. -/
theorem current_after (hb : L.block b = true) (hpos : 0 < L.blocks) (hs : L.shadow img = none) :
    L.current (L.after img hdr b) = some ((L.target img).1, (L.target img).2) ∧
      L.after img hdr b (L.target img).1 (L.target img).2 = b := by
  have hout := stored_after hhdr img b
  refine ⟨current_eq_some.2 ⟨hout.active_eq, lastBlock_eq_some.2 ⟨⟨hout.pos, target_le hpos img⟩, ?_,
    fun t ht hle => ?_⟩⟩, hout.block_eq⟩
  · rw [hout.block_eq]
    exact hb
  · rw [hout.stale_eq t (by omega) (by omega)]
    exact shadow_eq_none.1 hs t ht hle

/-- Otherwise the last block above it. -/
theorem current_after_shadow (hs : L.shadow img = some s) :
    L.current (L.after img hdr b) = some ((L.target img).1, s) ∧
      L.after img hdr b (L.target img).1 s = L.stale img s := by
  have hout := stored_after hhdr img b
  obtain ⟨⟨hgt, hs⟩, hblock, habove⟩ := shadow_eq_some.1 hs
  have hstale := hout.stale_eq s (by omega) (by omega)
  refine ⟨current_eq_some.2 ⟨hout.active_eq, lastBlock_eq_some.2 ⟨⟨by omega, hs⟩, ?_,
    fun t ht hle => ?_⟩⟩, hstale⟩
  · rw [hstale]
    exact hblock
  · rw [hout.stale_eq t (by omega) (by omega)]
    exact habove t ht hle

end Current

/-! ## Clean runs -/

/-- The shape of a log that only completed writes have touched: the blocks
`1 … n` of page `p`, the other page blank. -/
structure Holds (L : PageLog β) (img : Slots β) (p : Bool) (n : ℕ) : Prop where
  page : L.page (img p 0) = true
  other : ∀ s, img (!p) s = L.blank
  pos : 1 ≤ n
  le : n ≤ max L.blocks 1
  used : ∀ s, 1 ≤ s → s ≤ n → L.block (img p s) = true
  unused : ∀ s, n < s → img p s = L.blank

namespace Holds

variable {n : ℕ}

theorem active_eq (h : Holds L img p n) : L.active img = some p :=
  active_eq_some.2 ⟨h.page, by rw [h.other]; exact L.not_page_of_free L.free_blank⟩

theorem le_blocks (h : Holds L img p n) (hpos : 0 < L.blocks) : n ≤ L.blocks := by
  have hle := h.le
  rwa [Nat.max_eq_left hpos] at hle

theorem not_free_used (h : Holds L img p n) (h1 : 1 ≤ s) (hs : s ≤ n) : L.free (img p s) = false := by
  cases hf : L.free (img p s) with
  | false => rfl
  | true =>
    have := h.used s h1 hs
    rw [L.not_block_of_free hf] at this
    cases this

theorem current_eq (h : Holds L img p n) (hn : n ≤ L.blocks) : L.current img = some (p, n) := by
  refine current_eq_some.2 ⟨h.active_eq, lastBlock_eq_some.2 ⟨⟨h.pos, hn⟩, h.used n h.pos (Nat.le_refl n),
    fun t ht _ => ?_⟩⟩
  rw [h.unused t ht]
  exact L.not_block_of_free L.free_blank

theorem freeSlot_eq (h : Holds L img p n) (hn : n < L.blocks) : L.freeSlot img p = some (n + 1) := by
  refine freeSlot_eq_some.2 ⟨⟨by omega, hn⟩, ?_, fun t h1 ht => h.not_free_used h1 (by omega)⟩
  rw [h.unused (n + 1) (Nat.lt_succ_self n)]
  exact L.free_blank

theorem freeSlot_eq_none (h : Holds L img p n) (hn : L.blocks ≤ n) : L.freeSlot img p = none :=
  PageLog.freeSlot_eq_none.2 fun _ h1 ht => h.not_free_used h1 (by omega)

/-- The last block replaced by another one. -/
theorem replace (h : Holds L img p n) {b : β} (hb : L.block b = true) :
    Holds L (img.put p n b) p n where
  page := by
    have := h.pos
    rw [Slots.put_slot_ne _ _ (by omega)]
    exact h.page
  other s := by rw [Slots.put_page_ne _ _ (ne_not p).symm, h.other]
  pos := h.pos
  le := h.le
  used s h1 hs := by
    by_cases hsn : s = n
    · rw [hsn, Slots.put_same]
      exact hb
    · rw [Slots.put_slot_ne _ _ hsn]
      exact h.used s h1 hs
  unused s hs := by rw [Slots.put_slot_ne _ _ (by omega), h.unused s hs]

theorem writeOps_slot (h : Holds L img p n) (hn : n < L.blocks) (hdr : Bool → β) (b : β) :
    L.writeOps img hdr b = [.put p (n + 1) b] := by
  simp only [writeOps, h.active_eq, h.freeSlot_eq hn]

theorem writeOps_full (h : Holds L img p n) (hn : L.blocks ≤ n) (hdr : Bool → β) (b : β) :
    L.writeOps img hdr b = [.put (!p) 0 (hdr (!p)), .put (!p) 1 b, .erase p] := by
  simp only [writeOps, h.active_eq, h.freeSlot_eq_none hn, eraseUnlessFree, h.other, L.free_blank,
    ↓reduceIte, List.nil_append]

theorem after_slot (h : Holds L img p n) (hn : n < L.blocks) (hdr : Bool → β) {b : β}
    (hb : L.block b = true) :
    L.after img hdr b = img.put p (n + 1) b ∧ Holds L (img.put p (n + 1) b) p (n + 1) := by
  refine ⟨by rw [PageLog.after, h.writeOps_slot hn]; rfl, ?_, fun s => ?_, by omega, by omega,
    fun s h1 hs => ?_, fun s hs => ?_⟩
  · rw [Slots.put_slot_ne _ _ (Nat.succ_ne_zero n).symm]
    exact h.page
  · rw [Slots.put_page_ne _ _ (ne_not p).symm]
    exact h.other s
  · by_cases hlast : s = n + 1
    · rw [hlast, Slots.put_same]
      exact hb
    · rw [Slots.put_slot_ne _ _ hlast]
      exact h.used s h1 (by omega)
  · rw [Slots.put_slot_ne _ _ (by omega)]
    exact h.unused s (by omega)

theorem after_full (h : Holds L img p n) (hn : L.blocks ≤ n) {hdr : Bool → β}
    (hhdr : ∀ p, L.page (hdr p) = true) {b : β} (hb : L.block b = true) :
    L.after img hdr b (!p) 1 = b ∧ Holds L (L.after img hdr b) (!p) 1 := by
  have hout : ∀ t, L.after img hdr b (!p) t =
      ((img.put (!p) 0 (hdr (!p))).put (!p) 1 b) (!p) t := fun t => by
    rw [PageLog.after, h.writeOps_full hn]
    exact Slots.erase_ne _ L.blank (ne_not p).symm
  have hone : L.after img hdr b (!p) 1 = b := by rw [hout, Slots.put_same]
  refine ⟨hone, ?_, fun s => ?_, Nat.le_refl 1, by omega, fun s h1 hs => ?_, fun s hs => ?_⟩
  · rw [hout, Slots.put_slot_ne _ _ Nat.zero_ne_one, Slots.put_same]
    exact hhdr (!p)
  · rw [Bool.not_not, PageLog.after, h.writeOps_full hn]
    exact Slots.erase_same _ p s L.blank
  · rw [show s = 1 by omega, hone]
    exact hb
  · rw [hout, Slots.put_slot_ne _ _ (by omega), Slots.put_slot_ne _ _ (by omega)]
    exact h.other s

/-- **A completed write keeps the shape**, with the new block as the last one. -/
theorem after (h : Holds L img p n) {hdr : Bool → β} (hhdr : ∀ p, L.page (hdr p) = true) {b : β}
    (hb : L.block b = true) :
    ∃ q k, Holds L (L.after img hdr b) q k ∧ L.after img hdr b q k = b := by
  by_cases hn : n < L.blocks
  · obtain ⟨hout, hholds⟩ := h.after_slot hn hdr hb
    rw [hout]
    exact ⟨p, n + 1, hholds, img.put_same p (n + 1) b⟩
  · obtain ⟨hone, hholds⟩ := h.after_full (Nat.not_lt.1 hn) hhdr hb
    exact ⟨!p, 1, hholds, hone⟩

/-- Wherever a write stops, the last block or the new one is in some slot. -/
theorem copy_take (h : Holds L img p n) {hdr : Bool → β} (b : β) (k : ℕ) :
    ∃ q s, (1 ≤ s ∧ s ≤ max L.blocks 1) ∧
      (L.applyOps img ((L.writeOps img hdr b).take k) q s = img p n ∨
        L.applyOps img ((L.writeOps img hdr b).take k) q s = b) := by
  have hrange : 1 ≤ n ∧ n ≤ max L.blocks 1 := ⟨h.pos, h.le⟩
  by_cases hn : n < L.blocks
  · -- an append touches only the slot above the last block
    rw [h.writeOps_slot hn]
    match k with
    | 0 => exact ⟨p, n, hrange, .inl rfl⟩
    | k + 1 =>
      refine ⟨p, n, hrange, .inl ?_⟩
      rw [List.take_succ_cons, List.take_nil]
      exact Slots.put_slot_ne img b (Nat.succ_ne_self n).symm
  · -- a switch erases the last block only after the new one is stored
    rw [h.writeOps_full (Nat.not_lt.1 hn)]
    have hput : ∀ t c, (img.put (!p) t c) p n = img p n := fun t c => img.put_page_ne c (ne_not p)
    match k with
    | 0 => exact ⟨p, n, hrange, .inl rfl⟩
    | 1 => exact ⟨p, n, hrange, .inl (hput 0 _)⟩
    | 2 => exact ⟨p, n, hrange, .inl ((Slots.put_page_ne _ b (ne_not p)).trans (hput 0 _))⟩
    | k + 3 =>
      refine ⟨!p, 1, ⟨Nat.le_refl 1, by omega⟩, .inr ?_⟩
      rw [List.take_succ_cons, List.take_succ_cons, List.take_succ_cons, List.take_nil]
      exact (Slots.erase_ne _ L.blank (ne_not p).symm).trans (Slots.put_same _ _ _ _)

/-- Between the header of the other page and the erase of the full one, two
pages are valid and no block is current. -/
theorem current_switching (h : Holds L img p n) {hdr : Bool → β}
    (hhdr : ∀ p, L.page (hdr p) = true) (hn : L.blocks ≤ n) (b : β) {k : ℕ} (h1 : 1 ≤ k) (h2 : k ≤ 2) :
    L.current (L.applyOps img ((L.writeOps img hdr b).take k)) = none := by
  have hpage : ∀ q, L.page (L.applyOps img ((L.writeOps img hdr b).take k) q 0) = true := fun q => by
    rw [h.writeOps_full hn]
    have hput : L.page ((img.put (!p) 0 (hdr (!p))) q 0) = true := by
      by_cases hq : q = !p
      · rw [hq, Slots.put_same]
        exact hhdr (!p)
      · rw [Slots.put_page_ne _ _ hq, show q = p by cases p <;> cases q <;> simp_all]
        exact h.page
    match k with
    | 1 => exact hput
    | 2 => exact (congrArg L.page (Slots.put_slot_ne _ b Nat.zero_ne_one)).trans hput
  unfold current active
  rw [hpage, hpage]
  rfl

end Holds

/-- The first write to blank pages. -/
theorem holds_first {hdr : Bool → β} (hhdr : ∀ p, L.page (hdr p) = true) {b : β}
    (hb : L.block b = true) (himg : ∀ p s, img p s = L.blank) :
    Holds L (L.after img hdr b) false 1 ∧ L.after img hdr b false 1 = b := by
  have hnone : L.active img = none := by
    unfold active
    rw [himg, himg, L.not_page_of_free L.free_blank]
  have hout : L.after img hdr b = (img.put false 0 (hdr false)).put false 1 b := by
    simp only [after, writeOps, hnone, eraseUnlessFree, himg, L.free_blank, ↓reduceIte,
      List.nil_append]
    rfl
  rw [hout]
  refine ⟨⟨?_, fun s => ?_, Nat.le_refl 1, by omega, fun s h1 hs => ?_, fun s hs => ?_⟩,
    Slots.put_same _ _ _ _⟩
  · rw [Slots.put_slot_ne _ _ Nat.zero_ne_one, Slots.put_same]
    exact hhdr false
  · rw [Slots.put_page_ne _ _ (ne_not false).symm, Slots.put_page_ne _ _ (ne_not false).symm, himg]
  · rw [show s = 1 by omega, Slots.put_same]
    exact hb
  · rw [Slots.put_slot_ne _ _ (by omega), Slots.put_slot_ne _ _ (by omega), himg]

end PageLog

end Stm32Handler
