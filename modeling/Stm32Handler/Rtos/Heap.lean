import Mathlib.Algebra.Group.Nat.Defs
import Mathlib.Data.List.Basic
import Mathlib.Data.List.Forall2
import Mathlib.Data.List.Pairwise
import Mathlib.Logic.Function.Basic
import Stm32Handler.Lib.Blocks
import Stm32Handler.Lib.Run

/-!
# The FreeRTOS heap

`heap_4.c`: a free list in the order of the addresses, threaded through the
blocks themselves. Memory is read in cells of eight bytes, each of which can be
a block's header or the application's data; the application may write what it
likes into the memory it was given.

`Tiled` is the invariant: the chain of free blocks is gapped, the live blocks
have their headers, all of them are apart from each other, and together they
fill the heap. Whatever is allocated, freed and written in whatever order, no
call gets stuck, memory handed out is never handed out twice, and the allocator
writes nothing into it (`heap_run`, `heap_keeps_data`).
-/

namespace Stm32Handler.Rtos

/-- `BlockLink_t`; the top bit of `xBlockSize` is a field of its own. -/
structure BlockLink where
  pxNextFreeBlock : ℕ
  xBlockSize : ℕ
  isAllocated : Bool
  deriving DecidableEq

/-- A pointer to the list head `xStart` or to a block. -/
inductive Link where
  | xStart
  | block (a : ℕ)
  deriving DecidableEq

/-- The state of `heap_4.c`. The two counts of calls are unbounded here, where
those of the source start again at 0 after `2 ^ 32` calls; nothing reads them
but `vPortGetHeapStats`. -/
structure Heap where
  xStart : BlockLink
  pxEnd : ℕ
  mem : ℕ → BlockLink
  xFreeBytesRemaining : ℕ
  xMinimumEverFreeBytesRemaining : ℕ
  xNumberOfSuccessfulAllocations : ℕ
  xNumberOfSuccessfulFrees : ℕ

def portByteAlignment : ℕ := 8

def xHeapStructSize : ℕ := 8

def heapMinimumBlockSize : ℕ := xHeapStructSize * 2

def configTotalHeapSize : ℕ := 65536

/-- The largest `size_t`. -/
def heapSizeMax : ℕ := 2 ^ 32 - 1

/-- `xWantedSize` with the header and the alignment, 0 if it does not fit. -/
def adjustedSize (xWantedSize : ℕ) : ℕ :=
  if 0 < xWantedSize then
    let xAdditionalRequiredSize := xHeapStructSize + portByteAlignment - xWantedSize % portByteAlignment
    if xWantedSize > heapSizeMax - xAdditionalRequiredSize then 0 else xWantedSize + xAdditionalRequiredSize
  else xWantedSize

namespace Heap

def link (h : Heap) : Link → BlockLink
  | .xStart => h.xStart
  | .block a => h.mem a

def setNext (h : Heap) (l : Link) (q : ℕ) : Heap :=
  match l with
  | .xStart => { h with xStart := { h.xStart with pxNextFreeBlock := q } }
  | .block a => { h with mem := Function.update h.mem a { h.mem a with pxNextFreeBlock := q } }

/-- A store to `xBlockSize` of a size, which clears the top bit. -/
def setSize (h : Heap) (a n : ℕ) : Heap :=
  { h with mem := Function.update h.mem a { h.mem a with xBlockSize := n, isAllocated := false } }

/-- `prvHeapInit`; `ucHeap` is the address of the array. -/
def prvHeapInit (ucHeap : ℕ) (h : Heap) : Heap :=
  let (uxAddress, xTotalHeapSize) :=
    if ucHeap % portByteAlignment ≠ 0 then
      let uxAddress := ucHeap + (portByteAlignment - 1)
      let uxAddress := uxAddress - uxAddress % portByteAlignment
      (uxAddress, configTotalHeapSize - (uxAddress - ucHeap))
    else (ucHeap, configTotalHeapSize)
  let pucAlignedHeap := uxAddress
  let uxAddress := pucAlignedHeap + xTotalHeapSize
  let uxAddress := uxAddress - xHeapStructSize
  let pxEnd := uxAddress - uxAddress % portByteAlignment
  let mem := Function.update h.mem pxEnd ⟨0, 0, false⟩
  { h with
    xStart := ⟨pucAlignedHeap, 0, false⟩
    pxEnd := pxEnd
    mem := Function.update mem pucAlignedHeap ⟨pxEnd, pxEnd - pucAlignedHeap, false⟩
    xMinimumEverFreeBytesRemaining := pxEnd - pucAlignedHeap
    xFreeBytesRemaining := pxEnd - pucAlignedHeap }

/-- The `for` of `prvInsertBlockIntoFreeList`; `none` if it has not ended after
`fuel` rounds. -/
def findPlace (h : Heap) (pxBlockToInsert : ℕ) : ℕ → Link → Option Link
  | 0, _ => none
  | fuel + 1, pxIterator =>
    let next := (h.link pxIterator).pxNextFreeBlock
    if next < pxBlockToInsert then findPlace h pxBlockToInsert fuel (.block next) else some pxIterator

/-- The block and the next one are one if they touch. -/
def joinNext (h : Heap) (pxBlockToInsert next : ℕ) : Heap :=
  if pxBlockToInsert + (h.mem pxBlockToInsert).xBlockSize = next then
    if next ≠ h.pxEnd then
      let h := h.setSize pxBlockToInsert ((h.mem pxBlockToInsert).xBlockSize + (h.mem next).xBlockSize)
      h.setNext (.block pxBlockToInsert) (h.mem next).pxNextFreeBlock
    else h.setNext (.block pxBlockToInsert) h.pxEnd
  else h.setNext (.block pxBlockToInsert) next

/-- `prvInsertBlockIntoFreeList` once the place is found. -/
def insertAfter (h : Heap) (pxIterator : Link) (pxBlockToInsert : ℕ) : Heap :=
  -- `xStart` is not in the heap and ends where no block begins
  let (h, pxBlockToInsert) :=
    match pxIterator with
    | .xStart => (h, pxBlockToInsert)
    | .block p =>
      if p + (h.mem p).xBlockSize = pxBlockToInsert then
        (h.setSize p ((h.mem p).xBlockSize + (h.mem pxBlockToInsert).xBlockSize), p)
      else (h, pxBlockToInsert)
  let h := h.joinNext pxBlockToInsert (h.link pxIterator).pxNextFreeBlock
  if pxIterator ≠ .block pxBlockToInsert then h.setNext pxIterator pxBlockToInsert else h

/-- `none` if a loop does not end or an assertion fails, here and below. -/
def prvInsertBlockIntoFreeList (h : Heap) (pxBlockToInsert : ℕ) : Option Heap :=
  (h.findPlace pxBlockToInsert configTotalHeapSize .xStart).map fun pxIterator =>
    h.insertAfter pxIterator pxBlockToInsert

/-- The `while` of `pvPortMalloc`: `pxPreviousBlock` and `pxBlock` after it. -/
def findFit (h : Heap) (xWantedSize : ℕ) : ℕ → Link → ℕ → Option (Link × ℕ)
  | 0, _, _ => none
  | fuel + 1, pxPreviousBlock, pxBlock =>
    if (h.mem pxBlock).xBlockSize < xWantedSize ∧ (h.mem pxBlock).pxNextFreeBlock ≠ 0 then
      findFit h xWantedSize fuel (.block pxBlock) (h.mem pxBlock).pxNextFreeBlock
    else some (pxPreviousBlock, pxBlock)

/-- A block larger than required is split into two. -/
def cutBlock (h : Heap) (pxBlock xWantedSize : ℕ) : Option Heap :=
  if (h.mem pxBlock).xBlockSize - xWantedSize > heapMinimumBlockSize then
    let pxNewBlockLink := pxBlock + xWantedSize
    if pxNewBlockLink % portByteAlignment ≠ 0 then none
    else
      let h := h.setSize pxNewBlockLink ((h.mem pxBlock).xBlockSize - xWantedSize)
      let h := h.setSize pxBlock xWantedSize
      h.prvInsertBlockIntoFreeList pxNewBlockLink
  else some h

/-- `pvPortMalloc` from the block it has found on. -/
def takeBlock (h : Heap) (pxPreviousBlock : Link) (pxBlock xWantedSize : ℕ) : Option (Heap × ℕ) := do
  let pvReturn := (h.link pxPreviousBlock).pxNextFreeBlock + xHeapStructSize
  let h := h.setNext pxPreviousBlock (h.mem pxBlock).pxNextFreeBlock
  let h ← h.cutBlock pxBlock xWantedSize
  let xFreeBytesRemaining := h.xFreeBytesRemaining - (h.mem pxBlock).xBlockSize
  some ({ h with
    xFreeBytesRemaining := xFreeBytesRemaining
    xMinimumEverFreeBytesRemaining :=
      if xFreeBytesRemaining < h.xMinimumEverFreeBytesRemaining then xFreeBytesRemaining
      else h.xMinimumEverFreeBytesRemaining
    mem := Function.update h.mem pxBlock ⟨0, (h.mem pxBlock).xBlockSize, true⟩
    xNumberOfSuccessfulAllocations := h.xNumberOfSuccessfulAllocations + 1 }, pvReturn)

/-- `pvPortMalloc`; 0 is `NULL`. -/
def pvPortMalloc (ucHeap : ℕ) (h : Heap) (xWantedSize : ℕ) : Option (Heap × ℕ) := do
  let h := if h.pxEnd = 0 then h.prvHeapInit ucHeap else h
  let xWantedSize := adjustedSize xWantedSize
  let (h, pvReturn) ←
    if xWantedSize < 2 ^ 31 ∧ 0 < xWantedSize ∧ xWantedSize ≤ h.xFreeBytesRemaining then do
      let (pxPreviousBlock, pxBlock) ←
        h.findFit xWantedSize configTotalHeapSize .xStart h.xStart.pxNextFreeBlock
      if pxBlock ≠ h.pxEnd then h.takeBlock pxPreviousBlock pxBlock xWantedSize else some (h, 0)
    else some (h, 0)
  if pvReturn % portByteAlignment ≠ 0 then none else some (h, pvReturn)

/-- `vPortFree` -/
def vPortFree (h : Heap) (pv : ℕ) : Option Heap :=
  if pv = 0 then some h
  else
    let pxLink := pv - xHeapStructSize
    if (h.mem pxLink).isAllocated = true ∧ (h.mem pxLink).pxNextFreeBlock = 0 then do
      let h := { h with mem := Function.update h.mem pxLink { h.mem pxLink with isAllocated := false } }
      let h := { h with xFreeBytesRemaining := h.xFreeBytesRemaining + (h.mem pxLink).xBlockSize }
      let h ← h.prvInsertBlockIntoFreeList pxLink
      some { h with xNumberOfSuccessfulFrees := h.xNumberOfSuccessfulFrees + 1 }
    else none

/-- `HeapStats_t` -/
structure Stats where
  xAvailableHeapSpaceInBytes : ℕ
  xSizeOfLargestFreeBlockInBytes : ℕ
  xSizeOfSmallestFreeBlockInBytes : ℕ
  xNumberOfFreeBlocks : ℕ
  xMinimumEverFreeBytesRemaining : ℕ
  xNumberOfSuccessfulAllocations : ℕ
  xNumberOfSuccessfulFrees : ℕ

/-- The `while` of `vPortGetHeapStats`: the number of blocks, the largest and
the smallest size. -/
def walkStats (h : Heap) : ℕ → ℕ → ℕ × ℕ × ℕ → Option (ℕ × ℕ × ℕ)
  | 0, _, _ => none
  | fuel + 1, pxBlock, (xBlocks, xMaxSize, xMinSize) =>
    if pxBlock ≠ h.pxEnd then
      walkStats h fuel (h.mem pxBlock).pxNextFreeBlock
        (xBlocks + 1,
          if (h.mem pxBlock).xBlockSize > xMaxSize then (h.mem pxBlock).xBlockSize else xMaxSize,
          if (h.mem pxBlock).xBlockSize < xMinSize then (h.mem pxBlock).xBlockSize else xMinSize)
    else some (xBlocks, xMaxSize, xMinSize)

/-- `vPortGetHeapStats` -/
def vPortGetHeapStats (h : Heap) : Option Stats := do
  let (xBlocks, xMaxSize, xMinSize) ←
    if h.xStart.pxNextFreeBlock ≠ 0 then
      h.walkStats configTotalHeapSize h.xStart.pxNextFreeBlock (0, 0, heapSizeMax)
    else some (0, 0, heapSizeMax)
  some ⟨h.xFreeBytesRemaining, xMaxSize, xMinSize, xBlocks, h.xMinimumEverFreeBytesRemaining,
    h.xNumberOfSuccessfulAllocations, h.xNumberOfSuccessfulFrees⟩

end Heap

/-! ## The free list in memory -/

open Block

/-- From the pointer `p` the blocks `bs` are chained up to `q`. -/
def Chain (mem : ℕ → BlockLink) : ℕ → List Block → ℕ → Prop
  | p, [], q => p = q
  | p, b :: bs, q =>
    p = b.addr ∧ (mem b.addr).xBlockSize = b.size ∧ Chain mem (mem b.addr).pxNextFreeBlock bs q

/-- The pointer behind the last of the blocks. -/
def endLink (l : Link) (bs : List Block) : Link := (bs.getLast?.map fun b => Link.block b.addr).getD l

section Chains

variable {mem mem' : ℕ → BlockLink} {p q : ℕ} {bs : List Block}

theorem chain_append {as : List Block} :
    Chain mem p (as ++ bs) q ↔ ∃ r, Chain mem p as r ∧ Chain mem r bs q := by
  induction as generalizing p with
  | nil => exact ⟨fun h => ⟨p, rfl, h⟩, fun ⟨r, hr, h⟩ => hr ▸ h⟩
  | cons a as ih =>
    constructor
    · rintro ⟨hp, hsize, hrest⟩
      obtain ⟨r, hr, h⟩ := ih.1 hrest
      exact ⟨r, ⟨hp, hsize, hr⟩, h⟩
    · rintro ⟨r, ⟨hp, hsize, hr⟩, h⟩
      exact ⟨hp, hsize, ih.2 ⟨r, hr, h⟩⟩

/-- A chain reads the headers of its blocks only. -/
theorem Chain.frame (h : Chain mem p bs q) (hag : ∀ b ∈ bs, mem' b.addr = mem b.addr) :
    Chain mem' p bs q := by
  induction bs generalizing p with
  | nil => exact h
  | cons b bs ih =>
    obtain ⟨hp, hsize, hrest⟩ := h
    obtain ⟨hb, hag⟩ := List.forall_mem_cons.1 hag
    refine ⟨hp, ?_, ?_⟩
    · rw [hb, hsize]
    · rw [hb]
      exact ih hrest hag

end Chains

/-! ### Finding a place -/

theorem endLink_cons (l : Link) (b : Block) (bs : List Block) :
    endLink l (b :: bs) = endLink (.block b.addr) bs := by
  cases bs with
  | nil => rfl
  | cons c cs =>
    unfold endLink
    rw [List.getLast?_cons_cons]
    cases hlast : (c :: cs).getLast? with
    | none => simp at hlast
    | some d => rfl

/-- The loop ends behind the last block before `x`. -/
theorem findPlace_spec {h : Heap} {x : ℕ} (hx : x ≤ h.pxEnd) {bs : List Block} {l : Link} {fuel : ℕ}
    (hchain : Chain h.mem (h.link l).pxNextFreeBlock bs h.pxEnd) (hfuel : bs.length < fuel) :
    ∃ pre post, bs = pre ++ post ∧ (∀ b ∈ pre, b.addr < x) ∧ (∀ b ∈ post.head?, x ≤ b.addr) ∧
      h.findPlace x fuel l = some (endLink l pre) := by
  induction bs generalizing l fuel with
  | nil =>
    obtain ⟨fuel, rfl⟩ := Nat.exists_eq_succ_of_ne_zero (by omega : fuel ≠ 0)
    have hend : (h.link l).pxNextFreeBlock = h.pxEnd := hchain
    refine ⟨[], [], rfl, nofun, nofun, ?_⟩
    exact if_neg (by rw [hend]; exact Nat.not_lt.2 hx)
  | cons b bs ih =>
    obtain ⟨fuel, rfl⟩ := Nat.exists_eq_succ_of_ne_zero (by omega : fuel ≠ 0)
    obtain ⟨hnext, -, hrest⟩ := hchain
    by_cases hlt : b.addr < x
    · obtain ⟨pre, post, rfl, hpre, hpost, hfind⟩ := @ih (.block b.addr) fuel hrest
        (by rw [List.length_cons] at hfuel; omega)
      refine ⟨b :: pre, post, rfl, List.forall_mem_cons.2 ⟨hlt, hpre⟩, hpost, ?_⟩
      rw [endLink_cons, ← hfind]
      show (if (h.link l).pxNextFreeBlock < x then _ else _) = _
      rw [hnext, if_pos hlt]
    · refine ⟨[], b :: bs, rfl, nofun, fun c hc => ?_, ?_⟩
      · obtain rfl := Option.some.inj hc
        exact Nat.not_lt.1 hlt
      · show (if (h.link l).pxNextFreeBlock < x then _ else _) = _
        rw [hnext, if_neg hlt]
        rfl

/-- First fit: the loop ends at the first block of at least `w` bytes, or at
`pxEnd`. -/
theorem findFit_spec {h : Heap} {w : ℕ} (hend : (h.mem h.pxEnd).pxNextFreeBlock = 0) {bs : List Block}
    (hpos : ∀ b ∈ bs, 0 < b.addr) (hpxEnd : 0 < h.pxEnd) {l : Link} {p fuel : ℕ}
    (hchain : Chain h.mem p bs h.pxEnd) (hfuel : bs.length < fuel) :
    ∃ pre post, bs = pre ++ post ∧ (∀ b ∈ pre, b.size < w) ∧ (∀ b ∈ post.head?, w ≤ b.size) ∧
      h.findFit w fuel l p = some (endLink l pre, (post.head?.map Block.addr).getD h.pxEnd) := by
  induction bs generalizing l p fuel with
  | nil =>
    obtain ⟨fuel, rfl⟩ := Nat.exists_eq_succ_of_ne_zero (by omega : fuel ≠ 0)
    obtain rfl : p = h.pxEnd := hchain
    refine ⟨[], [], rfl, nofun, nofun, ?_⟩
    exact if_neg fun hand => hand.2 hend
  | cons b bs ih =>
    obtain ⟨fuel, rfl⟩ := Nat.exists_eq_succ_of_ne_zero (by omega : fuel ≠ 0)
    obtain ⟨rfl, hsize, hrest⟩ := hchain
    obtain ⟨-, hpos⟩ := List.forall_mem_cons.1 hpos
    have hnext : (h.mem b.addr).pxNextFreeBlock ≠ 0 := by
      cases bs with
      | nil =>
        rw [show (h.mem b.addr).pxNextFreeBlock = h.pxEnd from hrest]
        exact hpxEnd.ne'
      | cons c cs =>
        rw [hrest.1]
        exact (hpos c List.mem_cons_self).ne'
    by_cases hlt : b.size < w
    · obtain ⟨pre, post, rfl, hpre, hpost, hfind⟩ := @ih hpos (.block b.addr) _ fuel hrest
        (by rw [List.length_cons] at hfuel; omega)
      refine ⟨b :: pre, post, rfl, List.forall_mem_cons.2 ⟨hlt, hpre⟩, hpost, ?_⟩
      rw [endLink_cons, ← hfind]
      exact if_pos ⟨hsize ▸ hlt, hnext⟩
    · refine ⟨[], b :: bs, rfl, nofun, fun c hc => ?_, ?_⟩
      · obtain rfl := Option.some.inj hc
        exact Nat.not_lt.1 hlt
      · exact if_neg fun hand => hlt (hsize ▸ hand.1)

/-! ### Putting a block in -/

/-- Only headers have changed, and those of the blocks of `as` alone. -/
structure Touches (h h' : Heap) (as : List ℕ) : Prop where
  rest : h' = { h with xStart := h'.xStart, mem := h'.mem }
  mem : ∀ k, k ∉ as → h'.mem k = h.mem k

theorem Touches.pxEnd {h h' : Heap} {as : List ℕ} (ht : Touches h h' as) : h'.pxEnd = h.pxEnd := by
  rw [ht.rest]

theorem Touches.xFreeBytesRemaining {h h' : Heap} {as : List ℕ} (ht : Touches h h' as) :
    h'.xFreeBytesRemaining = h.xFreeBytesRemaining := by
  rw [ht.rest]

/-- The counters of calls. -/
def calls (h : Heap) : ℕ × ℕ := (h.xNumberOfSuccessfulAllocations, h.xNumberOfSuccessfulFrees)

theorem Touches.calls {h h' : Heap} {as : List ℕ} (ht : Touches h h' as) : calls h' = calls h := by
  rw [ht.rest]
  rfl

theorem joinNext_spec {h : Heap} {a : Block} {r : ℕ} {post : List Block}
    (hsize : (h.mem a.addr).xBlockSize = a.size) (hchain : Chain h.mem r post h.pxEnd)
    (hne : ∀ b ∈ post, b.addr ≠ a.addr) (hend : ∀ b ∈ post, b.addr ≠ h.pxEnd) :
    (h.joinNext a.addr r).xStart = h.xStart ∧ Touches h (h.joinNext a.addr r) [a.addr] ∧
      Chain (h.joinNext a.addr r).mem a.addr (putFirst a post) h.pxEnd := by
  cases post with
  | nil =>
    obtain rfl : r = h.pxEnd := hchain
    have hjoin : h.joinNext a.addr h.pxEnd = h.setNext (.block a.addr) h.pxEnd := by
      unfold Heap.joinNext
      split
      · rw [if_neg (by simp)]
      · rfl
    rw [hjoin]
    refine ⟨rfl, ⟨rfl, fun k hk => ?_⟩, rfl, ?_, ?_⟩
    · exact Function.update_of_ne (by simpa using hk) ..
    · simpa [Heap.setNext] using hsize
    · simp [Heap.setNext, Chain]
  | cons c cs =>
    obtain ⟨rfl, hcsize, hrest⟩ := hchain
    obtain ⟨hca, hne⟩ := List.forall_mem_cons.1 hne
    obtain ⟨hcend, -⟩ := List.forall_mem_cons.1 hend
    rw [putFirst_cons]
    by_cases htouch : a.stop = c.addr
    · have hjoin : h.joinNext a.addr c.addr =
          (h.setSize a.addr (a.size + c.size)).setNext (.block a.addr) (h.mem c.addr).pxNextFreeBlock := by
        unfold Heap.joinNext
        rw [hsize, if_pos (show a.addr + a.size = c.addr from htouch), if_pos hcend, hcsize]
        simp only [Heap.setSize, Function.update_of_ne hca]
      rw [hjoin, if_pos htouch]
      refine ⟨rfl, ⟨rfl, fun k hk => ?_⟩, rfl, ?_, ?_⟩
      · have hk : k ≠ a.addr := by simpa using hk
        simp only [Heap.setNext, Heap.setSize, Function.update_of_ne hk]
      · simp [Heap.setNext, Heap.setSize]
      · have hnext : (((h.setSize a.addr (a.size + c.size)).setNext (.block a.addr)
            (h.mem c.addr).pxNextFreeBlock).mem a.addr).pxNextFreeBlock = (h.mem c.addr).pxNextFreeBlock := by
          simp [Heap.setNext]
        rw [show (a.join c).addr = a.addr from rfl, hnext]
        refine hrest.frame fun b hb => ?_
        simp only [Heap.setNext, Heap.setSize, Function.update_of_ne (hne b hb)]
    · have hjoin : h.joinNext a.addr c.addr = h.setNext (.block a.addr) c.addr := by
        unfold Heap.joinNext
        rw [hsize]
        exact if_neg htouch
      rw [hjoin, if_neg htouch]
      refine ⟨rfl, ⟨rfl, fun k hk => ?_⟩, rfl, ?_, ?_⟩
      · exact Function.update_of_ne (by simpa using hk) ..
      · simpa [Heap.setNext] using hsize
      · have hnext : ((h.setNext (.block a.addr) c.addr).mem a.addr).pxNextFreeBlock = c.addr := by
          simp [Heap.setNext]
        rw [hnext]
        refine ⟨rfl, ?_, ?_⟩
        · simpa only [Heap.setNext, Function.update_of_ne hca] using hcsize
        · simp only [Heap.setNext, Function.update_of_ne hca]
          exact hrest.frame fun b hb => Function.update_of_ne (hne b hb) ..

/-- Behind `xStart`. -/
theorem insertFirst_spec {h : Heap} {x : Block} {post : List Block}
    (hsize : (h.mem x.addr).xBlockSize = x.size) (hchain : Chain h.mem h.xStart.pxNextFreeBlock post h.pxEnd)
    (hne : ∀ b ∈ post, b.addr ≠ x.addr) (hend : ∀ b ∈ post, b.addr ≠ h.pxEnd) :
    Touches h (h.insertAfter .xStart x.addr) [x.addr] ∧
      Chain (h.insertAfter .xStart x.addr).mem (h.insertAfter .xStart x.addr).xStart.pxNextFreeBlock
        (putFirst x post) h.pxEnd := by
  obtain ⟨-, htouch, hjoin⟩ := joinNext_spec hsize hchain hne hend
  have hins : h.insertAfter .xStart x.addr =
      (h.joinNext x.addr h.xStart.pxNextFreeBlock).setNext .xStart x.addr := by
    unfold Heap.insertAfter
    exact if_pos (by simp)
  rw [hins]
  refine ⟨⟨?_, htouch.mem⟩, hjoin⟩
  rw [Heap.setNext, htouch.rest]

/-- Behind the block `p`. -/
theorem insertBehind_spec {h : Heap} {p x : Block} {post : List Block}
    (hp : (h.mem p.addr).xBlockSize = p.size) (hx : (h.mem x.addr).xBlockSize = x.size)
    (hchain : Chain h.mem (h.mem p.addr).pxNextFreeBlock post h.pxEnd) (hpx : p.addr ≠ x.addr)
    (hnep : ∀ b ∈ post, b.addr ≠ p.addr) (hnex : ∀ b ∈ post, b.addr ≠ x.addr)
    (hend : ∀ b ∈ post, b.addr ≠ h.pxEnd) :
    (h.insertAfter (.block p.addr) x.addr).xStart = h.xStart ∧
      Touches h (h.insertAfter (.block p.addr) x.addr) [p.addr, x.addr] ∧
      Chain (h.insertAfter (.block p.addr) x.addr).mem p.addr
        (if p.stop = x.addr then putFirst (p.join x) post else p :: putFirst x post) h.pxEnd := by
  by_cases hjoin : p.stop = x.addr
  · have hins : h.insertAfter (.block p.addr) x.addr =
        (h.setSize p.addr (p.size + x.size)).joinNext p.addr (h.mem p.addr).pxNextFreeBlock := by
      unfold Heap.insertAfter
      simp only [hp, hx, if_pos (show p.addr + p.size = x.addr from hjoin), ne_eq, not_true_eq_false, if_false]
      simp [Heap.link, Heap.setSize]
    have hsize : ((h.setSize p.addr (p.size + x.size)).mem (p.join x).addr).xBlockSize = (p.join x).size := by
      simp [Heap.setSize]
    have hkeep : ∀ k, k ≠ p.addr → (h.setSize p.addr (p.size + x.size)).mem k = h.mem k := fun k hk =>
      Function.update_of_ne hk ..
    obtain ⟨hstart, htouch, hchain'⟩ := joinNext_spec (a := p.join x) hsize
      (hchain.frame fun b hb => hkeep b.addr (hnep b hb)) hnep hend
    rw [hins, if_pos hjoin]
    refine ⟨hstart, ⟨htouch.rest, fun k hk => ?_⟩, hchain'⟩
    rw [List.mem_cons, List.mem_singleton, not_or] at hk
    exact (htouch.mem k (by simpa using hk.1)).trans (hkeep k hk.1)
  · obtain ⟨hstart, htouch, hchain'⟩ := joinNext_spec hx hchain hnex hend
    have hins : h.insertAfter (.block p.addr) x.addr =
        (h.joinNext x.addr (h.mem p.addr).pxNextFreeBlock).setNext (.block p.addr) x.addr := by
      unfold Heap.insertAfter
      simp only [hp, if_neg (show ¬ p.addr + p.size = x.addr from hjoin)]
      exact if_pos (by simpa using hpx)
    rw [hins, if_neg hjoin]
    generalize h.joinNext x.addr (h.mem p.addr).pxNextFreeBlock = h2 at hstart htouch hchain'
    have hkeep : h2.mem p.addr = h.mem p.addr := htouch.mem _ (by simpa using hpx)
    refine ⟨hstart, ⟨?_, fun k hk => ?_⟩, rfl, ?_, ?_⟩
    · rw [Heap.setNext, htouch.rest]
    · rw [List.mem_cons, List.mem_singleton, not_or] at hk
      show Function.update h2.mem p.addr _ k = _
      rw [Function.update_of_ne hk.1]
      exact htouch.mem k (by simpa using hk.2)
    · simpa [Heap.setNext, hkeep] using hp
    · have hnext : ((h2.setNext (.block p.addr) x.addr).mem p.addr).pxNextFreeBlock = x.addr := by
        simp [Heap.setNext]
      rw [hnext]
      refine hchain'.frame fun b hb => ?_
      have hb : b.addr ≠ p.addr :=
        forall_putFirst (P := fun b => b.addr ≠ p.addr) (fun _ _ _ ha _ => ha) hpx.symm hnep b hb
      exact Function.update_of_ne hb ..

/-- **`prvInsertBlockIntoFreeList`** releases the block into the list. -/
theorem insert_spec {h : Heap} {x : Block} {fs : List Block}
    (hx : (h.mem x.addr).xBlockSize = x.size) (hchain : Chain h.mem h.xStart.pxNextFreeBlock fs h.pxEnd)
    (hgapped : Gapped fs) (hne : ∀ b ∈ fs, b.addr ≠ x.addr) (hend : ∀ b ∈ fs, b.addr ≠ h.pxEnd)
    (hle : x.addr ≤ h.pxEnd) (hlength : fs.length < configTotalHeapSize) :
    ∃ h', h.prvInsertBlockIntoFreeList x.addr = some h' ∧ Touches h h' (x.addr :: fs.map Block.addr) ∧
      Chain h'.mem h'.xStart.pxNextFreeBlock (release x fs) h'.pxEnd := by
  obtain ⟨pre, post, rfl, hpre, hpost, hfind⟩ := findPlace_spec (l := .xStart) hle hchain hlength
  have hins : h.prvInsertBlockIntoFreeList x.addr = some (h.insertAfter (endLink .xStart pre) x.addr) := by
    unfold Heap.prvInsertBlockIntoFreeList
    rw [hfind]
    rfl
  refine ⟨_, hins, ?_⟩
  obtain ⟨-, hnepost⟩ := List.forall_mem_append.1 hne
  obtain ⟨-, hendpost⟩ := List.forall_mem_append.1 hend
  rcases List.eq_nil_or_concat pre with rfl | ⟨pre, p, rfl⟩
  · obtain ⟨htouch, hchain'⟩ := insertFirst_spec hx hchain hnepost hendpost
    rw [List.nil_append, release_first hpost]
    refine ⟨⟨htouch.rest, fun k hk => htouch.mem k ?_⟩, ?_⟩
    · simpa using fun heq => hk (by simp [heq])
    · show Chain (h.insertAfter .xStart x.addr).mem _ _ (h.insertAfter .xStart x.addr).pxEnd
      rw [htouch.pxEnd]
      exact hchain'
  · have hlast : endLink .xStart (pre ++ [p]) = .block p.addr := by simp [endLink]
    rw [List.concat_eq_append] at *
    rw [List.append_assoc, List.singleton_append] at *
    obtain ⟨r, hfirst, rfl, hp, hrest⟩ := chain_append.1 hchain
    have hnep : ∀ b ∈ post, b.addr ≠ p.addr := fun b hb => by
      have hpb := (List.pairwise_append.1 hgapped).2.1
      have hlt := (List.pairwise_cons.1 hpb).1 b hb
      simp only [stop] at hlt
      omega
    have hpx : p.addr < x.addr := hpre p (by simp)
    obtain ⟨hstart, htouch, hchain'⟩ := insertBehind_spec hp hx hrest hpx.ne hnep hnepost hendpost
    rw [hlast, release_behind hgapped hpx hpost]
    refine ⟨⟨htouch.rest, fun k hk => htouch.mem k ?_⟩, ?_⟩
    · simp only [List.mem_cons, List.map_append, List.map_cons, List.mem_append, not_or] at hk
      simpa using ⟨hk.2.2.1, hk.1⟩
    · rw [htouch.pxEnd]
      refine chain_append.2 ⟨p.addr, ?_, hchain'⟩
      rw [hstart]
      refine hfirst.frame fun b hb => htouch.mem _ ?_
      have hbp := (List.pairwise_append.1 hgapped).2.2 b hb p List.mem_cons_self
      have hbx := hpre b (by simp [hb])
      simp only [stop] at hbp
      simp only [List.mem_cons, List.not_mem_nil, or_false, not_or]
      omega

/-! ## The invariant -/

/-- A block of the heap between `base` and `pxEnd`. -/
structure Fits (base pxEnd : ℕ) (b : Block) : Prop where
  base_le : base ≤ b.addr
  stop_le : b.stop ≤ pxEnd
  addr_dvd : portByteAlignment ∣ b.addr
  size_dvd : portByteAlignment ∣ b.size
  size_pos : 0 < b.size

theorem Fits.join {base pxEnd : ℕ} {a b : Block} (h : a.stop = b.addr) (ha : Fits base pxEnd a)
    (hb : Fits base pxEnd b) : Fits base pxEnd (a.join b) where
  base_le := ha.base_le
  stop_le := join_stop h ▸ hb.stop_le
  addr_dvd := ha.addr_dvd
  size_dvd := Nat.dvd_add ha.size_dvd hb.size_dvd
  size_pos := Nat.add_pos_left ha.size_pos _

/-- `k` is a cell of one of the blocks. -/
def InBlocks (bs : List Block) (k : ℕ) : Prop := ∃ b ∈ bs, b.addr ≤ k ∧ k < b.stop

/-- The free blocks `fs` and the live blocks `ls` of a heap that begins at `base`. -/
structure Shape (base : ℕ) (h : Heap) (fs ls : List Block) : Prop where
  chain : Chain h.mem h.xStart.pxNextFreeBlock fs h.pxEnd
  gapped : Gapped fs
  header : ∀ l ∈ ls, h.mem l.addr = ⟨0, l.size, true⟩
  apart : ls.Pairwise Apart
  free : ∀ l ∈ ls, ∀ b ∈ fs, l.Apart b
  freeFits : ∀ b ∈ fs, Fits base h.pxEnd b
  liveFits : ∀ l ∈ ls, Fits base h.pxEnd l
  endNext : (h.mem h.pxEnd).pxNextFreeBlock = 0
  base_pos : 0 < base

/-- The heap is where it was, and the cells of the blocks are as they were. -/
structure Keeps (h h' : Heap) (ls : List Block) : Prop where
  pxEnd : h'.pxEnd = h.pxEnd
  mem : ∀ k, InBlocks ls k → h'.mem k = h.mem k

/-- Together they fill the heap, and the counter is right. -/
structure Tiled (base : ℕ) (h : Heap) (fs ls : List Block) : Prop extends Shape base h fs ls where
  bytes : bytesOf fs + bytesOf ls = h.pxEnd - base
  remaining : h.xFreeBytesRemaining = bytesOf fs
  base_lt : base < h.pxEnd
  base_dvd : portByteAlignment ∣ base
  size_le : h.pxEnd - base ≤ configTotalHeapSize

section Invariant

variable {base : ℕ} {h h' : Heap} {fs ls : List Block}

theorem bytesOf_ge {pxEnd : ℕ} (hfits : ∀ b ∈ fs, Fits base pxEnd b) : 8 * fs.length ≤ bytesOf fs := by
  induction fs with
  | nil => exact Nat.zero_le _
  | cons b fs ih =>
    obtain ⟨hb, hrest⟩ := List.forall_mem_cons.1 hfits
    have hle := Nat.le_of_dvd hb.size_pos hb.size_dvd
    have hih := ih hrest
    rw [List.length_cons, bytesOf_cons]
    simp only [portByteAlignment] at hle
    omega

/-- The loops have rounds enough. -/
theorem Tiled.length_lt (ht : Tiled base h fs ls) : fs.length < configTotalHeapSize := by
  have hge := bytesOf_ge ht.freeFits
  have hbytes := ht.bytes
  have hsize := ht.size_le
  simp only [configTotalHeapSize] at hsize ⊢
  omega

theorem Fits.ne_pxEnd {pxEnd : ℕ} {b : Block} (hb : Fits base pxEnd b) : b.addr ≠ pxEnd := by
  have hstop := hb.stop_le
  have hpos := hb.size_pos
  simp only [stop] at hstop
  omega

theorem Fits.addr_pos {pxEnd : ℕ} {b : Block} (hb : Fits base pxEnd b) (hbase : 0 < base) : 0 < b.addr :=
  hbase.trans_le hb.base_le

/-- A block's header is one of its cells. -/
theorem inBlocks_addr {l : Block} (hl : l ∈ ls) (hpos : 0 < l.size) : InBlocks ls l.addr :=
  ⟨l, hl, le_rfl, Nat.lt_add_of_pos_right hpos⟩

/-- A live cell is no header of the free list and not `pxEnd`. -/
theorem Shape.live_not_free (hs : Shape base h fs ls) {k : ℕ} (hk : InBlocks ls k) :
    k ∉ fs.map Block.addr ∧ k ≠ h.pxEnd := by
  obtain ⟨l, hl, hlow, hhigh⟩ := hk
  refine ⟨fun hmem => ?_, ?_⟩
  · obtain ⟨b, hb, rfl⟩ := List.mem_map.1 hmem
    have hapart := hs.free l hl b hb
    have hpos := (hs.freeFits b hb).size_pos
    simp only [Block.Apart, stop] at hapart hhigh
    omega
  · have hstop := (hs.liveFits l hl).stop_le
    omega

/-- The headers are all there is to the shape. -/
theorem Shape.frame (hs : Shape base h fs ls) (hstart : h'.xStart = h.xStart) (hend : h'.pxEnd = h.pxEnd)
    (hmem : ∀ k, k ∈ (fs ++ ls).map Block.addr ∨ k = h.pxEnd → h'.mem k = h.mem k) : Shape base h' fs ls where
  chain := by
    rw [hstart, hend]
    exact hs.chain.frame fun b hb => hmem b.addr (.inl (List.mem_map_of_mem (List.mem_append_left _ hb)))
  gapped := hs.gapped
  header := fun l hl => by
    rw [hmem l.addr (.inl (List.mem_map_of_mem (List.mem_append_right _ hl)))]
    exact hs.header l hl
  apart := hs.apart
  free := hs.free
  freeFits := hend ▸ hs.freeFits
  liveFits := hend ▸ hs.liveFits
  endNext := by
    rw [hend, hmem h.pxEnd (.inr rfl)]
    exact hs.endNext
  base_pos := hs.base_pos

/-- **A block goes back to the free list**, if it is apart from everything and
its header has its size. -/
theorem Shape.insert (hs : Shape base h fs ls) {x : Block} (hx : (h.mem x.addr).xBlockSize = x.size)
    (hfits : Fits base h.pxEnd x) (hfree : ∀ b ∈ fs, x.Apart b) (hlive : ∀ l ∈ ls, l.Apart x)
    (hlength : fs.length < configTotalHeapSize) :
    ∃ h', h.prvInsertBlockIntoFreeList x.addr = some h' ∧ Touches h h' (x.addr :: fs.map Block.addr) ∧
      Shape base h' (release x fs) ls := by
  have hne : ∀ b ∈ fs, b.addr ≠ x.addr := fun b hb =>
    (addr_ne_of_apart (hfree b hb) hfits.size_pos (hs.freeFits b hb).size_pos).symm
  obtain ⟨h', hins, htouch, hchain⟩ := insert_spec hx hs.chain hs.gapped hne
    (fun b hb => (hs.freeFits b hb).ne_pxEnd) (by have := hfits.stop_le; simp only [stop] at this; omega) hlength
  have hkeep : ∀ l ∈ ls, h'.mem l.addr = h.mem l.addr := by
    intro l hl
    refine htouch.mem _ (List.not_mem_cons_of_ne_of_not_mem ?_ ?_)
    · exact addr_ne_of_apart (hlive l hl) (hs.liveFits l hl).size_pos hfits.size_pos
    · exact (hs.live_not_free (inBlocks_addr hl (hs.liveFits l hl).size_pos)).1
  refine ⟨h', hins, htouch, ?_⟩
  have hend := htouch.pxEnd
  refine
    { chain := hchain
      gapped := hs.gapped.release (fun b hb => (hs.freeFits b hb).size_pos) hfits.size_pos hfree
      header := fun l hl => (hkeep l hl).trans (hs.header l hl)
      apart := hs.apart
      free := fun l hl => apart_release (hs.liveFits l hl).size_pos (hlive l hl) (hs.free l hl)
      freeFits := ?_
      liveFits := hend ▸ hs.liveFits
      endNext := ?_
      base_pos := hs.base_pos }
  · rw [hend]
    exact forall_release (fun _ _ heq ha hb => ha.join heq hb) hfits hs.freeFits
  · rw [hend, htouch.mem h.pxEnd (List.not_mem_cons_of_ne_of_not_mem hfits.ne_pxEnd.symm fun hmem => ?_)]
    · exact hs.endNext
    · obtain ⟨b, hb, heq⟩ := List.mem_map.1 hmem
      exact (hs.freeFits b hb).ne_pxEnd heq

/-- Fewer live blocks. -/
theorem Shape.sublist (hs : Shape base h fs ls) {ls' : List Block} (hsub : ls'.Sublist ls) : Shape base h fs ls' where
  chain := hs.chain
  gapped := hs.gapped
  header := fun l hl => hs.header l (hsub.subset hl)
  apart := hs.apart.sublist hsub
  free := fun l hl => hs.free l (hsub.subset hl)
  freeFits := hs.freeFits
  liveFits := fun l hl => hs.liveFits l (hsub.subset hl)
  endNext := hs.endNext
  base_pos := hs.base_pos

/-! ### `vPortFree` -/

theorem Shape.live_ne (hs : Shape base h fs ls) {as bs : List Block} {l : Block} (hls : ls = as ++ l :: bs) {k : ℕ}
    (hk : InBlocks (as ++ bs) k) : ¬ (l.addr ≤ k ∧ k < l.stop) := by
  obtain ⟨l', hl', hlow, hhigh⟩ := hk
  have hapart : l.Apart l' := by
    have hall := hs.apart
    rw [hls, List.pairwise_append, List.pairwise_cons] at hall
    rcases List.mem_append.1 hl' with hl' | hl'
    · exact (hall.2.2 l' hl' l List.mem_cons_self).symm
    · exact hall.2.1.1 l' hl'
  simp only [Block.Apart, stop] at hapart hhigh ⊢
  omega

/-- **`vPortFree`** of a live block. -/
theorem free_spec {as bs : List Block} {l : Block} (ht : Tiled base h fs (as ++ l :: bs)) :
    ∃ h', h.vPortFree (l.addr + xHeapStructSize) = some h' ∧ Tiled base h' (release l fs) (as ++ bs) ∧
      Keeps h h' (as ++ bs) ∧ calls h' = ((calls h).1, (calls h).2 + 1) := by
  have hlmem : l ∈ as ++ l :: bs := by simp
  have hfits := ht.liveFits l hlmem
  have hheader := ht.header l hlmem
  have hsub : (as ++ bs).Sublist (as ++ l :: bs) :=
    List.Sublist.append_left (List.sublist_cons_self l bs) as
  have hother : ∀ k, InBlocks (as ++ bs) k → k ≠ l.addr := fun k hk heq =>
    ht.live_ne rfl hk ⟨heq.ge, heq ▸ Nat.lt_add_of_pos_right hfits.size_pos⟩
  let h1 : Heap := { h with
    mem := Function.update h.mem l.addr ⟨0, l.size, false⟩
    xFreeBytesRemaining := h.xFreeBytesRemaining + l.size }
  have hshape : Shape base h1 fs (as ++ bs) := by
    refine (ht.toShape.sublist hsub).frame rfl rfl fun k hk => Function.update_of_ne ?_ ..
    rcases hk with hk | rfl
    · obtain ⟨b, hb, rfl⟩ := List.mem_map.1 hk
      rcases List.mem_append.1 hb with hb | hb
      · exact (addr_ne_of_apart (ht.free l hlmem b hb) hfits.size_pos (ht.freeFits b hb).size_pos).symm
      · exact hother b.addr (inBlocks_addr hb (ht.liveFits b (hsub.subset hb)).size_pos)
    · exact hfits.ne_pxEnd.symm
  have hlive : ∀ l' ∈ as ++ bs, l'.Apart l := by
    have hall := ht.apart
    rw [List.pairwise_append, List.pairwise_cons] at hall
    intro l' hl'
    rcases List.mem_append.1 hl' with hl' | hl'
    · exact hall.2.2 l' hl' l List.mem_cons_self
    · exact (hall.2.1.1 l' hl').symm
  obtain ⟨h2, hins, htouch, hshape2⟩ := hshape.insert (x := l) (by simp [h1]) hfits (ht.free l hlmem) hlive
    ht.length_lt
  have hfree : h.vPortFree (l.addr + xHeapStructSize) =
      some { h2 with xNumberOfSuccessfulFrees := h2.xNumberOfSuccessfulFrees + 1 } := by
    have hlink : l.addr + xHeapStructSize - xHeapStructSize = l.addr := Nat.add_sub_cancel ..
    unfold Heap.vPortFree
    rw [if_neg (by simp [xHeapStructSize])]
    simp only [hlink, hheader, and_self, if_true, Function.update_self]
    exact congrArg (fun o : Option Heap => o.bind fun h => some { h with
      xNumberOfSuccessfulFrees := h.xNumberOfSuccessfulFrees + 1 }) hins
  have hend : h2.pxEnd = h.pxEnd := htouch.pxEnd
  have hcalls : calls h2 = calls h := htouch.calls
  refine ⟨_, hfree, ⟨hshape2.frame rfl rfl fun _ _ => rfl, ?_, ?_, ?_, ht.base_dvd, ?_⟩, ⟨hend, fun k hk => ?_⟩, ?_⟩
  · have hbytes := ht.bytes
    simp only [bytesOf_append, bytesOf_cons] at hbytes ⊢
    rw [bytesOf_release]
    show _ = h2.pxEnd - base
    rw [hend]
    omega
  · show h2.xFreeBytesRemaining = _
    rw [htouch.xFreeBytesRemaining, bytesOf_release, ← ht.remaining]
    exact Nat.add_comm ..
  · show base < h2.pxEnd
    rw [hend]
    exact ht.base_lt
  · show h2.pxEnd - base ≤ _
    rw [hend]
    exact ht.size_le
  · show h2.mem k = h.mem k
    rw [htouch.mem k (List.not_mem_cons_of_ne_of_not_mem (hother k hk) ?_)]
    · exact Function.update_of_ne (hother k hk) ..
    · exact ((ht.toShape.sublist hsub).live_not_free hk).1
  · rw [← hcalls]
    rfl

/-! ### `pvPortMalloc` -/

/-- A block leaves the list. -/
theorem Shape.unlink {pre post : List Block} {b : Block} (hs : Shape base h (pre ++ b :: post) ls) :
    (h.link (endLink .xStart pre)).pxNextFreeBlock = b.addr ∧
      Touches h (h.setNext (endLink .xStart pre) (h.mem b.addr).pxNextFreeBlock) (pre.map Block.addr) ∧
      Shape base (h.setNext (endLink .xStart pre) (h.mem b.addr).pxNextFreeBlock) (pre ++ post) ls := by
  have hsub : (pre ++ post).Sublist (pre ++ b :: post) :=
    List.Sublist.append_left (List.sublist_cons_self b post) pre
  have hlive : ∀ l ∈ ls, l.addr ∉ pre.map Block.addr := by
    intro l hl hmem
    have hnot := (hs.live_not_free (inBlocks_addr hl (hs.liveFits l hl).size_pos)).1
    rw [List.map_append] at hnot
    exact hnot (List.mem_append_left _ hmem)
  have hrest : ∀ {h1 : Heap}, Touches h h1 (pre.map Block.addr) →
      Chain h1.mem h1.xStart.pxNextFreeBlock (pre ++ post) h1.pxEnd → Shape base h1 (pre ++ post) ls := by
    intro h1 htouch hchain
    have hend := htouch.pxEnd
    refine
      { chain := hchain
        gapped := hs.gapped.sublist hsub
        header := fun l hl => (htouch.mem l.addr (hlive l hl)).trans (hs.header l hl)
        apart := hs.apart
        free := fun l hl c hc => hs.free l hl c (hsub.subset hc)
        freeFits := hend ▸ fun c hc => hs.freeFits c (hsub.subset hc)
        liveFits := hend ▸ hs.liveFits
        endNext := ?_
        base_pos := hs.base_pos }
    rw [hend, htouch.mem h.pxEnd fun hmem => ?_]
    · exact hs.endNext
    · obtain ⟨c, hc, heq⟩ := List.mem_map.1 hmem
      exact (hs.freeFits c (List.mem_append_left _ hc)).ne_pxEnd heq
  rcases List.eq_nil_or_concat pre with rfl | ⟨pre, p, rfl⟩
  · obtain ⟨hstart, -, hchain⟩ := hs.chain
    have htouch : Touches h (h.setNext .xStart (h.mem b.addr).pxNextFreeBlock) [] := ⟨rfl, fun _ _ => rfl⟩
    exact ⟨hstart, htouch, hrest htouch hchain⟩
  · have hlast : endLink .xStart (pre ++ [p]) = .block p.addr := by simp [endLink]
    rw [List.concat_eq_append] at *
    rw [hlast]
    have hchain := hs.chain
    have hgapped := hs.gapped
    rw [List.append_assoc, List.singleton_append] at hchain hgapped
    obtain ⟨r, hfirst, rfl, hp, hb, hbsize, hpost⟩ := chain_append.1 hchain
    have htouch : Touches h (h.setNext (.block p.addr) (h.mem b.addr).pxNextFreeBlock)
        ((pre ++ [p]).map Block.addr) :=
      ⟨rfl, fun k hk => Function.update_of_ne (fun heq => hk (by simp [heq])) ..⟩
    refine ⟨hb, htouch, hrest htouch ?_⟩
    have hne : ∀ c ∈ pre ++ b :: post, c.addr ≠ p.addr := fun c hc =>
      addr_ne_of_inside (hgapped.apart c hc) (hs.freeFits c (by
        rw [List.append_assoc]
        simp only [List.mem_append, List.mem_cons] at hc ⊢
        tauto)).size_pos le_rfl (Nat.lt_add_of_pos_right (hs.freeFits p (by simp)).size_pos)
    rw [List.append_assoc, List.singleton_append]
    refine chain_append.2 ⟨p.addr, ?_, rfl, ?_, ?_⟩
    · exact hfirst.frame fun c hc => Function.update_of_ne (hne c (List.mem_append_left _ hc)) ..
    · simpa [Heap.setNext] using hp
    · have hnext : ((h.setNext (.block p.addr) (h.mem b.addr).pxNextFreeBlock).mem p.addr).pxNextFreeBlock =
          (h.mem b.addr).pxNextFreeBlock := by simp [Heap.setNext]
      rw [hnext]
      exact hpost.frame fun c hc => Function.update_of_ne (hne c (by simp [hc])) ..

/-- A block that is apart from everything becomes live. -/
theorem Shape.live (hs : Shape base h fs ls) {x : Block} (hfits : Fits base h.pxEnd x)
    (hfree : ∀ b ∈ fs, x.Apart b) (hlive : ∀ l ∈ ls, x.Apart l) (hstart : h'.xStart = h.xStart)
    (hend : h'.pxEnd = h.pxEnd) (hmem : h'.mem = Function.update h.mem x.addr ⟨0, x.size, true⟩) :
    Shape base h' fs (x :: ls) := by
  have hkeep : ∀ k, k ≠ x.addr → h'.mem k = h.mem k := fun k hk => by
    rw [hmem]
    exact Function.update_of_ne hk ..
  have hne : ∀ c : Block, x.Apart c → 0 < c.size → c.addr ≠ x.addr := fun c hc hpos =>
    addr_ne_of_inside hc hpos le_rfl (Nat.lt_add_of_pos_right hfits.size_pos)
  have hframe : Shape base h' fs ls := by
    refine hs.frame hstart hend fun k hk => hkeep k ?_
    rcases hk with hk | rfl
    · obtain ⟨c, hc, rfl⟩ := List.mem_map.1 hk
      rcases List.mem_append.1 hc with hc | hc
      · exact hne c (hfree c hc) (hs.freeFits c hc).size_pos
      · exact hne c (hlive c hc) (hs.liveFits c hc).size_pos
    · exact hfits.ne_pxEnd.symm
  refine { hframe with header := ?_, apart := ?_, free := ?_, liveFits := ?_ }
  · refine List.forall_mem_cons.2 ⟨?_, hframe.header⟩
    rw [hmem]
    exact Function.update_self ..
  · exact List.pairwise_cons.2 ⟨hlive, hs.apart⟩
  · exact List.forall_mem_cons.2 ⟨hfree, hs.free⟩
  · exact List.forall_mem_cons.2 ⟨hend ▸ hfits, hframe.liveFits⟩

/-- What is left of a block behind its first `w` bytes. -/
def tail (b : Block) (w : ℕ) : Block := ⟨b.addr + w, b.size - w⟩

/-- The list without `b` and with what the split leaves of it, and what the
split has given. -/
structure Split (base : ℕ) (h h' : Heap) (rest ls : List Block) (b : Block) (w : ℕ) (fs : List Block) (s : ℕ) :
    Prop where
  shape : Shape base h' fs ls
  keeps : Keeps h h' ls
  calls : calls h' = calls h
  size : (h'.mem b.addr).xBlockSize = s
  remaining : h'.xFreeBytesRemaining = h.xFreeBytesRemaining
  bytes : bytesOf fs + s = bytesOf rest + b.size
  free : ∀ c ∈ fs, Apart ⟨b.addr, s⟩ c
  le : w ≤ s
  le_size : s ≤ b.size
  dvd : portByteAlignment ∣ s

/-- The end of `pvPortMalloc` once the list is as it should be. -/
theorem Split.take {rest : List Block} {b : Block} {w s : ℕ} {fs' : List Block}
    (hsplit : Split base h h' rest ls b w fs' s) (hb : Fits base h.pxEnd b) (hlive : ∀ l ∈ ls, l.Apart b)
    (hw : 0 < w) (hbytes : bytesOf rest + b.size + bytesOf ls = h.pxEnd - base)
    (hremaining : h.xFreeBytesRemaining = bytesOf rest + b.size) (hlt : base < h.pxEnd)
    (hdvd : portByteAlignment ∣ base) (hsize : h.pxEnd - base ≤ configTotalHeapSize) {h2 : Heap}
    (hstart : h2.xStart = h'.xStart) (hend : h2.pxEnd = h'.pxEnd)
    (hmem : h2.mem = Function.update h'.mem b.addr ⟨0, s, true⟩)
    (hfree : h2.xFreeBytesRemaining = h'.xFreeBytesRemaining - s) :
    Tiled base h2 fs' (⟨b.addr, s⟩ :: ls) ∧ Keeps h h2 ls := by
  have hle := hsplit.le_size
  have hinside : ∀ l ∈ ls, Apart ⟨b.addr, s⟩ l := fun l hl =>
    apart_of_inside (hlive l hl).symm le_rfl (Nat.add_le_add_left hle b.addr)
  have hfits : Fits base h'.pxEnd ⟨b.addr, s⟩ :=
    { base_le := hb.base_le
      stop_le := by
        have hstop := hb.stop_le
        rw [hsplit.keeps.pxEnd]
        simp only [stop] at hstop ⊢
        omega
      addr_dvd := hb.addr_dvd
      size_dvd := hsplit.dvd
      size_pos := hw.trans_le hsplit.le }
  have hshape := hsplit.shape.live hfits hsplit.free hinside hstart hend hmem
  have hpxEnd : h2.pxEnd = h.pxEnd := hend.trans hsplit.keeps.pxEnd
  have htotal := hsplit.bytes
  refine ⟨⟨hshape, ?_, ?_, hpxEnd ▸ hlt, hdvd, hpxEnd ▸ hsize⟩, hpxEnd, fun k hk => ?_⟩
  · rw [bytesOf_cons, hpxEnd]
    show bytesOf fs' + (s + bytesOf ls) = _
    omega
  · rw [hfree, hsplit.remaining, hremaining]
    omega
  · have hk' : k ≠ b.addr := by
      rintro rfl
      obtain ⟨l, hl, hlow, hhigh⟩ := hk
      have hapart := hlive l hl
      have hpos := hb.size_pos
      simp only [Block.Apart, stop] at hapart hhigh
      omega
    rw [hmem, Function.update_of_ne hk']
    exact hsplit.keeps.mem k hk

/-- A block long enough is split. -/
theorem Shape.insertTail {rest : List Block} {b : Block} {w : ℕ} (hs : Shape base h rest ls)
    (hb : Fits base h.pxEnd b) (hrest : ∀ c ∈ rest, b.Apart c) (hlive : ∀ l ∈ ls, l.Apart b) (hw : 0 < w)
    (hwb : w < b.size) (hdvd : portByteAlignment ∣ w) (hlength : rest.length < configTotalHeapSize) :
    ∃ h', ((h.setSize (b.addr + w) (b.size - w)).setSize b.addr w).prvInsertBlockIntoFreeList (b.addr + w) =
        some h' ∧ Split base h h' rest ls b w (release (tail b w) rest) w := by
  have hstop := hb.stop_le
  have hdvdNew : portByteAlignment ∣ b.size - w := Nat.dvd_sub hb.size_dvd hdvd
  -- the two headers are inside `b`
  have hkeep : ∀ k, ¬ (b.addr ≤ k ∧ k < b.stop) →
      ((h.setSize (b.addr + w) (b.size - w)).setSize b.addr w).mem k = h.mem k := by
    intro k hk
    have hk1 : k ≠ b.addr := by
      rintro rfl
      exact hk ⟨le_rfl, Nat.lt_add_of_pos_right hb.size_pos⟩
    have hk2 : k ≠ b.addr + w := by
      rintro rfl
      exact hk ⟨Nat.le_add_right _ _, Nat.add_lt_add_left hwb _⟩
    simp only [Heap.setSize, Function.update_of_ne hk1, Function.update_of_ne hk2]
  have hshape : Shape base ((h.setSize (b.addr + w) (b.size - w)).setSize b.addr w) rest ls := by
    refine hs.frame rfl rfl fun k hk => hkeep k ?_
    rintro ⟨hlow, hhigh⟩
    rcases hk with hk | rfl
    · obtain ⟨c, hc, rfl⟩ := List.mem_map.1 hk
      rcases List.mem_append.1 hc with hc | hc
      · exact addr_ne_of_inside (hrest c hc) (hs.freeFits c hc).size_pos hlow hhigh rfl
      · exact addr_ne_of_inside (hlive c hc).symm (hs.liveFits c hc).size_pos hlow hhigh rfl
    · omega
  have htail : (tail b w).stop ≤ b.stop := by
    simp only [tail, stop]
    omega
  have htailLow : b.addr ≤ (tail b w).addr := Nat.le_add_right _ _
  have htailApart : ∀ c, b.Apart c → (tail b w).Apart c := fun c hc => apart_of_inside hc htailLow htail
  have hfits : Fits base h.pxEnd (tail b w) :=
    { base_le := hb.base_le.trans htailLow
      stop_le := htail.trans hstop
      addr_dvd := Nat.dvd_add hb.addr_dvd hdvd
      size_dvd := hdvdNew
      size_pos := Nat.sub_pos_of_lt hwb }
  have hnew : (((h.setSize (b.addr + w) (b.size - w)).setSize b.addr w).mem (tail b w).addr).xBlockSize =
      (tail b w).size := by
    simp only [Heap.setSize, tail]
    rw [Function.update_of_ne (by omega), Function.update_self]
  obtain ⟨h', hins, htouch, hshape'⟩ := hshape.insert hnew hfits (fun c hc => htailApart c (hrest c hc))
    (fun l hl => (htailApart l (hlive l hl).symm).symm) hlength
  refine ⟨h', hins, hshape', ⟨htouch.pxEnd, fun k hk => ?_⟩, htouch.calls, ?_, htouch.xFreeBytesRemaining, ?_, ?_,
    le_rfl, hwb.le, hdvd⟩
  · have hout : ¬ (b.addr ≤ k ∧ k < b.stop) := by
      obtain ⟨l, hl, hlow, hhigh⟩ := hk
      have hapart := hlive l hl
      simp only [Block.Apart, stop] at hapart hhigh ⊢
      omega
    have hk1 : k ≠ (tail b w).addr := fun heq =>
      hout ⟨heq ▸ htailLow, heq ▸ (Nat.lt_add_of_pos_right hfits.size_pos).trans_le htail⟩
    rw [htouch.mem k (List.not_mem_cons_of_ne_of_not_mem hk1 (hs.live_not_free hk).1)]
    exact hkeep k hout
  · have hk1 : b.addr ∉ (tail b w).addr :: rest.map Block.addr := by
      refine List.not_mem_cons_of_ne_of_not_mem ?_ fun hmem => ?_
      · simp only [tail]
        omega
      · obtain ⟨c, hc, heq⟩ := List.mem_map.1 hmem
        exact addr_ne_of_inside (hrest c hc) (hs.freeFits c hc).size_pos le_rfl
          (Nat.lt_add_of_pos_right hb.size_pos) heq
    rw [htouch.mem _ hk1]
    simp [Heap.setSize]
  · rw [bytesOf_release]
    simp only [tail]
    omega
  · have hpos : 0 < w := hw
    refine apart_release (y := ⟨b.addr, w⟩) hpos (.inl le_rfl) fun c hc => ?_
    exact apart_of_inside (hrest c hc) le_rfl (Nat.add_le_add_left hwb.le b.addr)

/-- **A block is split** if what is left is long enough to be one. -/
theorem Shape.cut {rest : List Block} {b : Block} {w : ℕ} (hs : Shape base h rest ls)
    (hb : Fits base h.pxEnd b) (hrest : ∀ c ∈ rest, b.Apart c) (hlive : ∀ l ∈ ls, l.Apart b) (hw : 0 < w)
    (hwb : w ≤ b.size) (hdvd : portByteAlignment ∣ w) (hlength : rest.length < configTotalHeapSize)
    (hheader : (h.mem b.addr).xBlockSize = b.size) :
    ∃ h' fs s, h.cutBlock b.addr w = some h' ∧ Split base h h' rest ls b w fs s := by
  by_cases hlong : b.size - w > heapMinimumBlockSize
  · obtain ⟨h', hins, hsplit⟩ := hs.insertTail hb hrest hlive hw (by omega) hdvd hlength
    refine ⟨h', _, w, ?_, hsplit⟩
    have haligned : (b.addr + w) % portByteAlignment = 0 :=
      Nat.mod_eq_zero_of_dvd (Nat.dvd_add hb.addr_dvd hdvd)
    unfold Heap.cutBlock
    rw [hheader, if_pos hlong]
    simp only [haligned, ne_eq, not_true_eq_false, if_false]
    exact hins
  · refine ⟨h, rest, b.size, ?_, hs, ⟨rfl, fun _ _ => rfl⟩, rfl, hheader, rfl, rfl, hrest, hwb, le_rfl,
      hb.size_dvd⟩
    unfold Heap.cutBlock
    rw [hheader, if_neg hlong]

/-- The block `b` of the list goes to the application. -/
theorem takeBlock_spec {pre post : List Block} {b : Block} {w : ℕ} (ht : Tiled base h (pre ++ b :: post) ls)
    (hw : 0 < w) (hwb : w ≤ b.size) (hdvd : portByteAlignment ∣ w) :
    ∃ h' fs' s, h.takeBlock (endLink .xStart pre) b.addr w = some (h', b.addr + xHeapStructSize) ∧ w ≤ s ∧
      Tiled base h' fs' (⟨b.addr, s⟩ :: ls) ∧ Keeps h h' ls ∧ calls h' = ((calls h).1 + 1, (calls h).2) := by
  obtain ⟨hprev, htouch, hshape⟩ := ht.toShape.unlink
  have hbmem : b ∈ pre ++ b :: post := by simp
  have hfits := ht.freeFits b hbmem
  have hrest := Gapped.apart ht.gapped
  have hlive : ∀ l ∈ ls, l.Apart b := fun l hl => ht.free l hl b hbmem
  have hheader : (h.mem b.addr).xBlockSize = b.size := by
    obtain ⟨r, -, -, hsize, -⟩ := chain_append.1 ht.chain
    exact hsize
  have hbytes : bytesOf (pre ++ post) + b.size + bytesOf ls = h.pxEnd - base := by
    have hall := ht.bytes
    simp only [bytesOf_append, bytesOf_cons] at hall ⊢
    omega
  have hremaining : h.xFreeBytesRemaining = bytesOf (pre ++ post) + b.size := by
    rw [ht.remaining]
    simp only [bytesOf_append, bytesOf_cons]
    omega
  have hlength : (pre ++ post).length < configTotalHeapSize := by
    have hlt := ht.length_lt
    simp only [List.length_append, List.length_cons] at hlt ⊢
    omega
  have hbpre : b.addr ∉ pre.map Block.addr := fun hmem => by
    obtain ⟨c, hc, heq⟩ := List.mem_map.1 hmem
    exact addr_ne_of_inside (hrest c (List.mem_append_left _ hc)) (ht.freeFits c (by simp [hc])).size_pos le_rfl
      (Nat.lt_add_of_pos_right hfits.size_pos) heq
  have hkeepLive : ∀ k, InBlocks ls k →
      (h.setNext (endLink .xStart pre) (h.mem b.addr).pxNextFreeBlock).mem k = h.mem k := fun k hk =>
    htouch.mem k fun hmem => (ht.live_not_free hk).1 (by
      rw [List.map_append]
      exact List.mem_append_left _ hmem)
  generalize hunlinked : h.setNext (endLink .xStart pre) (h.mem b.addr).pxNextFreeBlock = h1
    at htouch hshape hkeepLive
  have hend := htouch.pxEnd
  obtain ⟨h2, fs', s, hcut, hsplit⟩ := hshape.cut (hend ▸ hfits) hrest hlive hw hwb hdvd hlength
    (by rw [htouch.mem _ hbpre, hheader])
  let h3 : Heap := { h2 with
    xFreeBytesRemaining := h2.xFreeBytesRemaining - s
    xMinimumEverFreeBytesRemaining :=
      if h2.xFreeBytesRemaining - s < h2.xMinimumEverFreeBytesRemaining then h2.xFreeBytesRemaining - s
      else h2.xMinimumEverFreeBytesRemaining
    mem := Function.update h2.mem b.addr ⟨0, s, true⟩
    xNumberOfSuccessfulAllocations := h2.xNumberOfSuccessfulAllocations + 1 }
  have htake : Tiled base h3 fs' (⟨b.addr, s⟩ :: ls) ∧ Keeps h1 h3 ls :=
    hsplit.take (hend ▸ hfits) hlive hw (hend ▸ hbytes) (htouch.xFreeBytesRemaining.trans hremaining)
      (hend ▸ ht.base_lt) ht.base_dvd (hend ▸ ht.size_le) rfl rfl rfl rfl
  have hcalls : calls h2 = calls h := hsplit.calls.trans htouch.calls
  refine ⟨h3, fs', s, ?_, hsplit.le, htake.1,
    ⟨htake.2.pxEnd.trans hend, fun k hk => (htake.2.mem k hk).trans (hkeepLive k hk)⟩, by rw [← hcalls]; rfl⟩
  unfold Heap.takeBlock
  rw [hprev, hunlinked]
  simp only [hcut, Option.bind_eq_bind, Option.bind_some, hsplit.size]
  rfl

/-- What `pvPortMalloc` gives: `NULL` where no free block is long enough, or a
new live block. -/
inductive MallocRes (base : ℕ) (h h' : Heap) (fs ls : List Block) (w p : ℕ) : Prop
  | null : h' = h → p = 0 → ¬ (0 < w ∧ w < 2 ^ 31 ∧ ∃ b ∈ fs, w ≤ b.size) → MallocRes base h h' fs ls w p
  | block (fs' : List Block) (l : Block) : p = l.addr + xHeapStructSize → 0 < w → w ≤ l.size →
      (w < 2 ^ 31 ∧ ∃ b ∈ fs, w ≤ b.size) → Tiled base h' fs' (l :: ls) → Keeps h h' ls →
      calls h' = ((calls h).1 + 1, (calls h).2) → MallocRes base h h' fs ls w p

theorem adjustedSize_eq (n : ℕ) : adjustedSize n =
    if 0 < n ∧ n ≤ heapSizeMax - (16 - n % 8) then n + (16 - n % 8) else 0 := by
  show (if 0 < n then (if heapSizeMax - (16 - n % 8) < n then 0 else n + (16 - n % 8)) else n) = _
  rcases Nat.eq_zero_or_pos n with rfl | hn
  · rfl
  · rw [if_pos hn]
    by_cases hle : n ≤ heapSizeMax - (16 - n % 8)
    · rw [if_neg (Nat.not_lt.2 hle), if_pos ⟨hn, hle⟩]
    · rw [if_pos (Nat.lt_of_not_le hle), if_neg fun hand => hle hand.2]

theorem adjustedSize_dvd (n : ℕ) : portByteAlignment ∣ adjustedSize n := by
  rw [adjustedSize_eq]
  simp only [portByteAlignment]
  split <;> omega

/-- It holds the header and what was asked for. -/
theorem adjustedSize_ge {n : ℕ} (h : 0 < adjustedSize n) : n + xHeapStructSize ≤ adjustedSize n := by
  rw [adjustedSize_eq] at h ⊢
  simp only [xHeapStructSize]
  split at h
  · rename_i hn
    rw [if_pos hn]
    omega
  · omega

/-- **`pvPortMalloc`** -/
theorem malloc_spec (ht : Tiled base h fs ls) (ucHeap n : ℕ) :
    ∃ h' p, h.pvPortMalloc ucHeap n = some (h', p) ∧ MallocRes base h h' fs ls (adjustedSize n) p := by
  have hinit : h.pxEnd ≠ 0 := by
    have hlt := ht.base_lt
    omega
  have hnull : ¬ (0 < adjustedSize n ∧ adjustedSize n < 2 ^ 31 ∧ ∃ b ∈ fs, adjustedSize n ≤ b.size) →
      MallocRes base h h fs ls (adjustedSize n) 0 := .null rfl rfl
  by_cases hask : adjustedSize n < 2 ^ 31 ∧ 0 < adjustedSize n ∧ adjustedSize n ≤ h.xFreeBytesRemaining
  · obtain ⟨pre, post, rfl, hpre, hpost, hfind⟩ := findFit_spec (w := adjustedSize n) ht.endNext
      (fun b hb => (ht.freeFits b hb).addr_pos ht.base_pos) (Nat.pos_of_ne_zero hinit) (l := .xStart) ht.chain
      ht.length_lt
    cases post with
    | nil =>
      refine ⟨h, 0, ?_, hnull fun hand => ?_⟩
      · unfold Heap.pvPortMalloc
        simp [hinit, hask, hfind]
      · obtain ⟨-, -, b, hb, hle⟩ := hand
        rw [List.append_nil] at hb
        exact absurd hle (Nat.not_le.2 (hpre b hb))
    | cons b post =>
      have hwb : adjustedSize n ≤ b.size := hpost b rfl
      have hb : b ∈ pre ++ b :: post := by simp
      obtain ⟨h', fs', s, htake, hle, ht', hkeep, hcalls⟩ := takeBlock_spec ht hask.2.1 hwb (adjustedSize_dvd n)
      have haligned : (b.addr + xHeapStructSize) % portByteAlignment = 0 :=
        Nat.mod_eq_zero_of_dvd (Nat.dvd_add (ht.freeFits b hb).addr_dvd ⟨1, rfl⟩)
      refine ⟨h', b.addr + xHeapStructSize, ?_, ?_⟩
      · unfold Heap.pvPortMalloc
        have hfound : b.addr ≠ h.pxEnd := (ht.freeFits b hb).ne_pxEnd
        simp only [if_neg hinit, if_pos hask, hfind, List.head?_cons, Option.map_some, Option.getD_some,
          if_pos hfound, htake, Option.bind_eq_bind, Option.bind_some, haligned, ne_eq, not_true_eq_false, if_false]
      · exact .block fs' ⟨b.addr, s⟩ rfl hask.2.1 hle ⟨hask.1, b, hb, hwb⟩ ht' hkeep hcalls
  · refine ⟨h, 0, ?_, hnull fun hand => ?_⟩
    · unfold Heap.pvPortMalloc
      simp only [if_neg hinit, if_neg hask]
      rfl
    · obtain ⟨hpos, hlt, b, hb, hle⟩ := hand
      have hsum : b.size ≤ bytesOf fs := le_bytesOf hb
      exact hask ⟨hlt, hpos, hle.trans (hsum.trans_eq ht.remaining.symm)⟩

end Invariant

/-! ### `prvHeapInit` -/

/-- Where the heap begins in the array at `ucHeap`. -/
def heapBase (ucHeap : ℕ) : ℕ := ucHeap + (portByteAlignment - ucHeap % portByteAlignment) % portByteAlignment

/-- Where `pxEnd` is put. -/
def heapEnd (ucHeap : ℕ) : ℕ :=
  ucHeap + configTotalHeapSize - xHeapStructSize -
    (ucHeap + configTotalHeapSize - xHeapStructSize) % portByteAlignment

/-- The heap lies in the array, whose last bytes hold `pxEnd`. -/
theorem heap_bounds (ucHeap : ℕ) :
    portByteAlignment ∣ heapBase ucHeap ∧ portByteAlignment ∣ heapEnd ucHeap ∧ ucHeap ≤ heapBase ucHeap ∧
      heapBase ucHeap < heapEnd ucHeap ∧ heapEnd ucHeap + xHeapStructSize ≤ ucHeap + configTotalHeapSize := by
  simp only [heapBase, heapEnd, portByteAlignment, configTotalHeapSize, xHeapStructSize]
  omega

theorem prvHeapInit_eq (ucHeap : ℕ) (h : Heap) :
    h.prvHeapInit ucHeap = { h with
      xStart := ⟨heapBase ucHeap, 0, false⟩
      pxEnd := heapEnd ucHeap
      mem := Function.update (Function.update h.mem (heapEnd ucHeap) ⟨0, 0, false⟩) (heapBase ucHeap)
        ⟨heapEnd ucHeap, heapEnd ucHeap - heapBase ucHeap, false⟩
      xMinimumEverFreeBytesRemaining := heapEnd ucHeap - heapBase ucHeap
      xFreeBytesRemaining := heapEnd ucHeap - heapBase ucHeap } := by
  by_cases hal : ucHeap % portByteAlignment = 0
  · have hbase : heapBase ucHeap = ucHeap := by
      simp only [heapBase, hal, Nat.sub_zero, Nat.mod_self, Nat.add_zero]
    simp [Heap.prvHeapInit, hal, hbase, heapEnd]
  · have hbase : ucHeap + (portByteAlignment - 1) - (ucHeap + (portByteAlignment - 1)) % portByteAlignment =
        heapBase ucHeap := by
      simp only [heapBase, portByteAlignment] at hal ⊢
      omega
    have hend : heapBase ucHeap + (configTotalHeapSize - (heapBase ucHeap - ucHeap)) - xHeapStructSize -
        (heapBase ucHeap + (configTotalHeapSize - (heapBase ucHeap - ucHeap)) - xHeapStructSize) %
          portByteAlignment = heapEnd ucHeap := by
      simp only [heapBase, heapEnd, configTotalHeapSize, xHeapStructSize, portByteAlignment]
      omega
    simp [Heap.prvHeapInit, hal, hbase, hend]

/-- The one free block of a new heap. -/
def wholeHeap (ucHeap : ℕ) : Block := ⟨heapBase ucHeap, heapEnd ucHeap - heapBase ucHeap⟩

/-- **`prvHeapInit`** -/
theorem init_spec {ucHeap : ℕ} (hpos : 0 < ucHeap) (h : Heap) :
    Tiled (heapBase ucHeap) (h.prvHeapInit ucHeap) [wholeHeap ucHeap] [] := by
  obtain ⟨hbase, hend, hle, hlt, -⟩ := heap_bounds ucHeap
  have hsize : heapEnd ucHeap - heapBase ucHeap ≤ configTotalHeapSize := by
    have hbounds := (heap_bounds ucHeap).2.2.2.2
    omega
  have hfits : Fits (heapBase ucHeap) (heapEnd ucHeap) (wholeHeap ucHeap) :=
    { base_le := le_rfl
      stop_le := (Nat.add_sub_cancel' hlt.le).le
      addr_dvd := hbase
      size_dvd := Nat.dvd_sub hend hbase
      size_pos := Nat.sub_pos_of_lt hlt }
  rw [prvHeapInit_eq]
  exact
    { chain := by simp [Chain, wholeHeap]
      gapped := List.pairwise_singleton ..
      header := nofun
      apart := List.Pairwise.nil
      free := nofun
      freeFits := List.forall_mem_singleton.2 hfits
      liveFits := nofun
      endNext := by simp [hlt.ne']
      base_pos := hpos.trans_le hle
      bytes := by simp [wholeHeap]
      remaining := by simp [wholeHeap]
      base_lt := hlt
      base_dvd := hbase
      size_le := hsize }

/-! ## The heap and its users -/

inductive HeapCall where
  | malloc (xWantedSize : ℕ)
  | free (pv : ℕ)
  | write (k : ℕ) (v : BlockLink)
  deriving DecidableEq

/-- The heap, and for every pointer handed out and not given back the bytes
that were asked for. -/
structure HeapState where
  heap : Heap
  live : List (ℕ × ℕ)

/-- The static variables at power-up; the memory is as it is. -/
def powerUp (mem : ℕ → BlockLink) : HeapState := ⟨⟨⟨0, 0, false⟩, 0, mem, 0, 0, 0, 0⟩, []⟩

/-- `none` if the call gets stuck. -/
def heapStep (ucHeap : ℕ) (s : HeapState) : HeapCall → Option HeapState
  | .malloc xWantedSize => (s.heap.pvPortMalloc ucHeap xWantedSize).map fun (h, pv) =>
      ⟨h, if pv = 0 then s.live else (pv, xWantedSize) :: s.live⟩
  | .free pv => (s.heap.vPortFree pv).map fun h => ⟨h, s.live.eraseP fun a => a.1 = pv⟩
  | .write k v => some { s with heap := { s.heap with mem := Function.update s.heap.mem k v } }

/-- What a user may do: free what it was given, and write to cells that hold
bytes of it. -/
def Allowed (s : HeapState) : HeapCall → Prop
  | .malloc _ => True
  | .free pv => pv = 0 ∨ ∃ a ∈ s.live, a.1 = pv
  | .write k _ => portByteAlignment ∣ k ∧ ∃ a ∈ s.live, a.1 ≤ k ∧ k < a.1 + a.2

instance (s : HeapState) : (c : HeapCall) → Decidable (Allowed s c)
  | .malloc _ => isTrue trivial
  | .free pv => inferInstanceAs (Decidable (pv = 0 ∨ ∃ a ∈ s.live, a.1 = pv))
  | .write k _ => inferInstanceAs (Decidable (portByteAlignment ∣ k ∧ ∃ a ∈ s.live, a.1 ≤ k ∧ k < a.1 + a.2))

/-- The block `l` holds the allocation `a`. -/
def Holds (a : ℕ × ℕ) (l : Block) : Prop := a.1 = l.addr + xHeapStructSize ∧ a.2 + xHeapStructSize ≤ l.size

structure HeapInv (ucHeap : ℕ) (s : HeapState) (fs ls : List Block) : Prop extends
    Tiled (heapBase ucHeap) s.heap fs ls where
  pxEnd : s.heap.pxEnd = heapEnd ucHeap
  holds : List.Forall₂ Holds s.live ls
  count : (calls s.heap).1 = (calls s.heap).2 + s.live.length

/-- Before and after the first `pvPortMalloc`. -/
def HeapOk (ucHeap : ℕ) (s : HeapState) : Prop :=
  (∃ mem, s = powerUp mem) ∨ ∃ fs ls, HeapInv ucHeap s fs ls

/-- The allocations that the call does not free stay, and so do their cells
unless the call writes them. -/
def Leaves (s s' : HeapState) (c : HeapCall) : Prop :=
  ∀ a ∈ s.live, c ≠ .free a.1 → a ∈ s'.live ∧
    ∀ k, a.1 ≤ k → k < a.1 + a.2 → (∀ v, c ≠ .write k v) → s'.heap.mem k = s.heap.mem k

section Users

variable {ucHeap : ℕ} {s s' : HeapState} {fs ls : List Block}

theorem forall₂_split {α β : Type*} {R : α → β → Prop} {as bs : List α} {a : α} {ls : List β}
    (h : List.Forall₂ R (as ++ a :: bs) ls) :
    ∃ as' l bs', ls = as' ++ l :: bs' ∧ R a l ∧ List.Forall₂ R (as ++ bs) (as' ++ bs') := by
  induction as generalizing ls with
  | nil =>
    obtain ⟨l, bs', hal, hbs, rfl⟩ := List.forall₂_cons_left_iff.1 h
    exact ⟨[], l, bs', rfl, hal, hbs⟩
  | cons c as ih =>
    obtain ⟨c', ls, hc, hrest, rfl⟩ := List.forall₂_cons_left_iff.1 h
    obtain ⟨as', l, bs', rfl, hal, hall⟩ := ih hrest
    exact ⟨c' :: as', l, bs', rfl, hal, List.Forall₂.cons hc hall⟩

/-- Every allocation has its block. -/
theorem HeapInv.block (hi : HeapInv ucHeap s fs ls) {a : ℕ × ℕ} (ha : a ∈ s.live) : ∃ l ∈ ls, Holds a l := by
  obtain ⟨as, bs, hlive⟩ := List.append_of_mem ha
  have hholds := hi.holds
  rw [hlive] at hholds
  obtain ⟨as', l, bs', rfl, hal, -⟩ := forall₂_split hholds
  exact ⟨l, by simp, hal⟩

theorem HeapInv.inBlocks (hi : HeapInv ucHeap s fs ls) {a : ℕ × ℕ} (ha : a ∈ s.live) {k : ℕ} (hlow : a.1 ≤ k)
    (hhigh : k < a.1 + a.2) : ∃ l ∈ ls, Holds a l ∧ l.addr < k ∧ k < l.stop := by
  obtain ⟨l, hl, hal⟩ := hi.block ha
  obtain ⟨hptr, hsize⟩ := hal
  refine ⟨l, hl, ⟨hptr, hsize⟩, ?_, ?_⟩
  · simp only [xHeapStructSize] at hptr
    omega
  · simp only [stop]
    omega

/-- What keeps the blocks keeps the allocations. -/
theorem HeapInv.leaves (hi : HeapInv ucHeap s fs ls) {h' : Heap} (hkeep : Keeps s.heap h' ls)
    {a : ℕ × ℕ} (ha : a ∈ s.live) : ∀ k, a.1 ≤ k → k < a.1 + a.2 → h'.mem k = s.heap.mem k := by
  intro k hlow hhigh
  obtain ⟨l, hl, -, hlow', hhigh'⟩ := hi.inBlocks ha hlow hhigh
  exact hkeep.mem k ⟨l, hl, hlow'.le, hhigh'⟩

theorem HeapInv.mallocStep (hi : HeapInv ucHeap s fs ls) (n : ℕ) :
    ∃ s', heapStep ucHeap s (.malloc n) = some s' ∧ (∃ fs' ls', HeapInv ucHeap s' fs' ls') ∧
      Leaves s s' (.malloc n) := by
  obtain ⟨h', p, hmalloc, hres⟩ := malloc_spec hi.toTiled ucHeap n
  have hstep : heapStep ucHeap s (.malloc n) = some ⟨h', if p = 0 then s.live else (p, n) :: s.live⟩ := by
    simp only [heapStep, hmalloc, Option.map_some]
  refine ⟨_, hstep, ?_⟩
  cases hres with
  | null hh hp _ =>
    subst hh hp
    exact ⟨⟨fs, ls, hi⟩, fun a ha _ => ⟨ha, fun _ _ _ _ => rfl⟩⟩
  | block fs' l hp hw hwl _ ht hkeep hcalls =>
    have hne : p ≠ 0 := by
      simp only [xHeapStructSize] at hp
      omega
    have hholds : Holds (p, n) l := ⟨hp, (adjustedSize_ge hw).trans hwl⟩
    rw [if_neg hne]
    refine ⟨⟨fs', l :: ls, ht, hkeep.pxEnd.trans hi.pxEnd, List.Forall₂.cons hholds hi.holds, ?_⟩, ?_⟩
    · have hcount := hi.count
      show (calls h').1 = (calls h').2 + ((p, n) :: s.live).length
      rw [hcalls, List.length_cons]
      simp only
      omega
    · exact fun a ha _ => ⟨List.mem_cons_of_mem _ ha, fun k hlow hhigh _ => hi.leaves hkeep ha k hlow hhigh⟩

theorem HeapInv.freeStep (hi : HeapInv ucHeap s fs ls) {pv : ℕ} (hpv : pv = 0 ∨ ∃ a ∈ s.live, a.1 = pv) :
    ∃ s', heapStep ucHeap s (.free pv) = some s' ∧ (∃ fs' ls', HeapInv ucHeap s' fs' ls') ∧
      Leaves s s' (.free pv) := by
  by_cases hnull : pv = 0
  · subst hnull
    have hnone : ∀ a ∈ s.live, ¬ decide (a.1 = 0) = true := by
      intro a ha
      obtain ⟨l, -, hptr, -⟩ := hi.block ha
      simp only [xHeapStructSize] at hptr
      simpa using (by omega : a.1 ≠ 0)
    have hstep : heapStep ucHeap s (.free 0) = some s := by
      simp only [heapStep, List.eraseP_of_forall_not hnone]
      rfl
    exact ⟨s, hstep, ⟨fs, ls, hi⟩, fun a ha _ => ⟨ha, fun _ _ _ _ => rfl⟩⟩
  · obtain ⟨a, ha, hap⟩ := hpv.resolve_left hnull
    obtain ⟨b, as, bs, -, hb, hlive, herase⟩ :=
      List.exists_of_eraseP (p := fun a : ℕ × ℕ => decide (a.1 = pv)) ha (by simpa using hap)
    have hbpv : b.1 = pv := by simpa using hb
    have hholds := hi.holds
    rw [hlive] at hholds
    obtain ⟨as', l, bs', rfl, ⟨hptr, -⟩, hrest⟩ := forall₂_split hholds
    obtain ⟨h', hfree, ht, hkeep, hcalls⟩ := free_spec hi.toTiled
    have hstep : heapStep ucHeap s (.free pv) = some ⟨h', as ++ bs⟩ := by
      rw [← hbpv, hptr] at herase ⊢
      simp only [heapStep, hfree, Option.map_some, herase]
    have hi' : HeapInv ucHeap ⟨h', as ++ bs⟩ (release l fs) (as' ++ bs') := by
      refine ⟨ht, hkeep.pxEnd.trans hi.pxEnd, hrest, ?_⟩
      have hcount := hi.count
      rw [hlive] at hcount
      show (calls h').1 = (calls h').2 + (as ++ bs).length
      rw [hcalls]
      simp only [List.length_append, List.length_cons] at hcount ⊢
      omega
    refine ⟨_, hstep, ⟨_, _, hi'⟩, fun c hc hother => ?_⟩
    have hcb : c ≠ b := fun heq => hother (by rw [heq, hbpv])
    have hc' : c ∈ as ++ bs := by
      rw [hlive] at hc
      simp only [List.mem_append, List.mem_cons] at hc ⊢
      tauto
    refine ⟨hc', fun k hlow hhigh _ => ?_⟩
    obtain ⟨l', hl', -, hlow', hhigh'⟩ := hi'.inBlocks hc' hlow hhigh
    exact hkeep.mem k ⟨l', hl', hlow'.le, hhigh'⟩

/-- The application writes behind a header only. -/
theorem Shape.write {base : ℕ} {h : Heap} (hs : Shape base h fs ls) {l : Block} (hl : l ∈ ls) {k : ℕ}
    (hlow : l.addr < k) (hhigh : k < l.stop) (v : BlockLink) :
    Shape base { h with mem := Function.update h.mem k v } fs ls := by
  have hk := hs.live_not_free ⟨l, hl, hlow.le, hhigh⟩
  refine hs.frame rfl rfl fun j hj => Function.update_of_ne ?_ ..
  rintro rfl
  rcases hj with hj | rfl
  · rw [List.map_append, List.mem_append] at hj
    rcases hj with hj | hj
    · exact hk.1 hj
    · obtain ⟨c, hc, rfl⟩ := List.mem_map.1 hj
      have hne : l ≠ c := by
        rintro rfl
        exact lt_irrefl _ hlow
      have hapart := hs.apart.forall hl hc hne
      exact addr_ne_of_inside hapart (hs.liveFits c hc).size_pos hlow.le hhigh rfl
  · exact hk.2 rfl

theorem HeapInv.writeStep (hi : HeapInv ucHeap s fs ls) {k : ℕ} (hk : ∃ a ∈ s.live, a.1 ≤ k ∧ k < a.1 + a.2)
    (v : BlockLink) :
    ∃ s', heapStep ucHeap s (.write k v) = some s' ∧ (∃ fs' ls', HeapInv ucHeap s' fs' ls') ∧
      Leaves s s' (.write k v) := by
  obtain ⟨a, ha, hlow, hhigh⟩ := hk
  obtain ⟨l, hl, -, hlow', hhigh'⟩ := hi.inBlocks ha hlow hhigh
  refine ⟨_, rfl, ⟨fs, ls, ?_⟩, fun b hb _ => ⟨hb, fun j _ _ hother => ?_⟩⟩
  · exact
      { toShape := hi.toShape.write hl hlow' hhigh' v
        bytes := hi.bytes
        remaining := hi.remaining
        base_lt := hi.base_lt
        base_dvd := hi.base_dvd
        size_le := hi.size_le
        pxEnd := hi.pxEnd
        holds := hi.holds
        count := hi.count }
  · refine Function.update_of_ne ?_ ..
    rintro rfl
    exact hother v rfl

/-- The first `pvPortMalloc` finds a new heap. -/
theorem malloc_powerUp (hpos : 0 < ucHeap) (mem : ℕ → BlockLink) (n : ℕ) :
    heapStep ucHeap (powerUp mem) (.malloc n) =
      heapStep ucHeap ⟨(powerUp mem).heap.prvHeapInit ucHeap, []⟩ (.malloc n) := by
  have hinit : ((powerUp mem).heap.prvHeapInit ucHeap).pxEnd ≠ 0 := by
    have hlt := (init_spec hpos (powerUp mem).heap).base_lt
    omega
  have hmalloc : (powerUp mem).heap.pvPortMalloc ucHeap n =
      ((powerUp mem).heap.prvHeapInit ucHeap).pvPortMalloc ucHeap n := by
    unfold Heap.pvPortMalloc
    rw [if_neg hinit, if_pos (show (powerUp mem).heap.pxEnd = 0 from rfl)]
  simp only [heapStep, hmalloc]
  rfl

/-- Once the heap is there, any call. -/
theorem HeapInv.step (hi : HeapInv ucHeap s fs ls) {c : HeapCall} (hc : Allowed s c) :
    ∃ s', heapStep ucHeap s c = some s' ∧ (∃ fs' ls', HeapInv ucHeap s' fs' ls') ∧ Leaves s s' c := by
  cases c with
  | malloc n => exact hi.mallocStep n
  | free pv => exact hi.freeStep hc
  | write k v => exact hi.writeStep hc.2 v

/-- After a `pvPortMalloc` the heap is there. -/
theorem HeapOk.mallocStep (hpos : 0 < ucHeap) (h : HeapOk ucHeap s) (n : ℕ) :
    ∃ s', heapStep ucHeap s (.malloc n) = some s' ∧ (∃ fs ls, HeapInv ucHeap s' fs ls) ∧
      Leaves s s' (.malloc n) := by
  rcases h with ⟨mem, rfl⟩ | ⟨fs, ls, hi⟩
  · have hnew : HeapInv ucHeap ⟨(powerUp mem).heap.prvHeapInit ucHeap, []⟩ [wholeHeap ucHeap] [] := by
      refine ⟨init_spec hpos _, ?_, List.Forall₂.nil, ?_⟩
      · rw [prvHeapInit_eq]
      · rw [prvHeapInit_eq]
        rfl
    obtain ⟨s', hs', hinv, -⟩ := hnew.mallocStep n
    exact ⟨s', (malloc_powerUp hpos mem n).trans hs', hinv, fun a ha => absurd ha List.not_mem_nil⟩
  · exact hi.mallocStep n

/-- **What one call does.** -/
theorem HeapOk.step (hpos : 0 < ucHeap) (h : HeapOk ucHeap s) {c : HeapCall} (hc : Allowed s c) :
    ∃ s', heapStep ucHeap s c = some s' ∧ HeapOk ucHeap s' ∧ Leaves s s' c := by
  cases c with
  | malloc n =>
    obtain ⟨s', hs', hinv, hleaves⟩ := h.mallocStep hpos n
    exact ⟨s', hs', .inr hinv, hleaves⟩
  | free pv =>
    rcases h with ⟨mem, rfl⟩ | ⟨fs, ls, hi⟩
    · obtain rfl : pv = 0 := hc.resolve_right fun ⟨a, ha, _⟩ => absurd ha List.not_mem_nil
      exact ⟨powerUp mem, rfl, .inl ⟨mem, rfl⟩, fun a ha => absurd ha List.not_mem_nil⟩
    · obtain ⟨s', hs', hinv, hleaves⟩ := hi.step hc
      exact ⟨s', hs', .inr hinv, hleaves⟩
  | write k v =>
    rcases h with ⟨mem, rfl⟩ | ⟨fs, ls, hi⟩
    · obtain ⟨-, a, ha, -⟩ := hc
      exact absurd ha List.not_mem_nil
    · obtain ⟨s', hs', hinv, hleaves⟩ := hi.step hc
      exact ⟨s', hs', .inr hinv, hleaves⟩

/-! ## Runs -/

theorem HeapOk.run (hpos : 0 < ucHeap) (h : HeapOk ucHeap s) {cs : List HeapCall}
    (hcs : Along (heapStep ucHeap) Allowed s cs) : ∃ s', exec (heapStep ucHeap) s cs = some s' ∧ HeapOk ucHeap s' := by
  refine exec_completes (fun s c h hc => ?_) h hcs
  obtain ⟨s', hs', hok, -⟩ := h.step hpos hc
  exact ⟨s', hs', hok⟩

/-- After a run with a `pvPortMalloc` in it the heap is there. -/
theorem heap_started (hpos : 0 < ucHeap) (h : HeapOk ucHeap s) {cs : List HeapCall}
    (hcs : Along (heapStep ucHeap) Allowed s cs) {n : ℕ} (hn : HeapCall.malloc n ∈ cs) :
    ∃ s' fs ls, exec (heapStep ucHeap) s cs = some s' ∧ HeapInv ucHeap s' fs ls := by
  obtain ⟨pre, post, rfl⟩ := List.append_of_mem hn
  obtain ⟨m, hm, hrest⟩ : ∃ m, exec (heapStep ucHeap) s pre = some m ∧ HeapOk ucHeap m ∧
      Along (heapStep ucHeap) Allowed m (.malloc n :: post) := by
    have hpre : Along (heapStep ucHeap) Allowed s pre := along_left hcs
    obtain ⟨m, hm, hok⟩ := h.run hpos hpre
    exact ⟨m, hm, hok, ((along_append hm).1 hcs).2⟩
  obtain ⟨hok, hpost⟩ := hrest
  obtain ⟨m', hm', hinv, -⟩ := hok.mallocStep hpos n
  obtain ⟨s', hs', fs, ls, hi⟩ := exec_completes
    (fun s c (h : ∃ fs ls, HeapInv ucHeap s fs ls) hc => by
      obtain ⟨fs, ls, hi⟩ := h
      obtain ⟨s', hs', hinv, -⟩ := hi.step hc
      exact ⟨s', hs', hinv⟩) hinv (hpost.2 m' hm')
  exact ⟨s', fs, ls, exec_append.2 ⟨m, hm, exec_cons.2 ⟨m', hm', hs'⟩⟩, hi⟩

/-- What is in the cell `k` after the writes among `cs`. -/
def written (k : ℕ) : BlockLink → List HeapCall → BlockLink
  | v, [] => v
  | v, .write j w :: cs => written k (if j = k then w else v) cs
  | v, .malloc _ :: cs => written k v cs
  | v, .free _ :: cs => written k v cs

/-- A live cell changes by its user's writes alone. -/
theorem HeapOk.cells (hpos : 0 < ucHeap) (h : HeapOk ucHeap s) {cs : List HeapCall}
    (hcs : Along (heapStep ucHeap) Allowed s cs) (hrun : exec (heapStep ucHeap) s cs = some s') {a : ℕ × ℕ}
    (ha : a ∈ s.live) (hfree : HeapCall.free a.1 ∉ cs) :
    a ∈ s'.live ∧ ∀ k, a.1 ≤ k → k < a.1 + a.2 → s'.heap.mem k = written k (s.heap.mem k) cs := by
  induction cs generalizing s with
  | nil =>
    obtain rfl : s = s' := Option.some.inj hrun
    exact ⟨ha, fun _ _ _ => rfl⟩
  | cons c cs ih =>
    obtain ⟨m, hm, hrun⟩ := exec_cons.1 hrun
    rw [List.mem_cons, not_or] at hfree
    obtain ⟨m', hm', hok, hleaves⟩ := h.step hpos hcs.1
    obtain rfl : m' = m := Option.some.inj (hm'.symm.trans hm)
    obtain ⟨ham, hcell⟩ := hleaves a ha (Ne.symm hfree.1)
    obtain ⟨ha', hrest⟩ := ih hok (hcs.2 m' hm) hrun ham hfree.2
    refine ⟨ha', fun k hlow hhigh => ?_⟩
    rw [hrest k hlow hhigh]
    cases c with
    | malloc n =>
      rw [hcell k hlow hhigh (fun v => by simp)]
      rfl
    | free pv =>
      rw [hcell k hlow hhigh (fun v => by simp)]
      rfl
    | write j w =>
      by_cases hj : j = k
      · subst hj
        have hmem : m'.heap.mem j = w := by
          obtain rfl := Option.some.inj hm
          exact Function.update_self ..
        rw [hmem, written, if_pos rfl]
      · rw [hcell k hlow hhigh (fun v heq => hj (HeapCall.write.inj heq).1), written, if_neg hj]

/-! ### `vPortGetHeapStats` -/

theorem walkStats_spec {h : Heap} {bs : List Block} (hend : ∀ b ∈ bs, b.addr ≠ h.pxEnd) {p c mx mn fuel : ℕ}
    (hchain : Chain h.mem p bs h.pxEnd) (hfuel : bs.length < fuel) :
    ∃ mx' mn', h.walkStats fuel p (c, mx, mn) = some (c + bs.length, mx', mn') ∧
      (∀ w, w ≤ mx' ↔ w ≤ mx ∨ ∃ b ∈ bs, w ≤ b.size) ∧ ∀ w, mn' ≤ w ↔ mn ≤ w ∨ ∃ b ∈ bs, b.size ≤ w := by
  induction bs generalizing p c mx mn fuel with
  | nil =>
    obtain ⟨fuel, rfl⟩ := Nat.exists_eq_succ_of_ne_zero (by omega : fuel ≠ 0)
    obtain rfl : p = h.pxEnd := hchain
    refine ⟨mx, mn, ?_, by simp, by simp⟩
    exact if_neg (by simp)
  | cons b bs ih =>
    obtain ⟨fuel, rfl⟩ := Nat.exists_eq_succ_of_ne_zero (by omega : fuel ≠ 0)
    obtain ⟨rfl, hsize, hrest⟩ := hchain
    obtain ⟨hb, hend⟩ := List.forall_mem_cons.1 hend
    rw [List.length_cons] at hfuel
    obtain ⟨mx', mn', hwalk, hmax, hmin⟩ := @ih hend _ (c + 1) (if b.size > mx then b.size else mx)
      (if b.size < mn then b.size else mn) fuel hrest (by omega)
    refine ⟨mx', mn', ?_, fun w => ?_, fun w => ?_⟩
    · rw [List.length_cons, Nat.add_comm bs.length, ← Nat.add_assoc, ← hwalk, ← hsize]
      exact if_pos hb
    · rw [hmax, List.exists_mem_cons_iff, ← or_assoc]
      apply or_congr_left
      split <;> omega
    · rw [hmin, List.exists_mem_cons_iff, ← or_assoc]
      apply or_congr_left
      split <;> omega

/-- What the statistics say of the free blocks. -/
structure StatsOf (h : Heap) (fs : List Block) (st : Heap.Stats) : Prop where
  available : st.xAvailableHeapSpaceInBytes = bytesOf fs
  blocks : st.xNumberOfFreeBlocks = fs.length
  largest : ∀ w, w ≤ st.xSizeOfLargestFreeBlockInBytes ↔ w = 0 ∨ ∃ b ∈ fs, w ≤ b.size
  smallest : ∀ w, st.xSizeOfSmallestFreeBlockInBytes ≤ w ↔ heapSizeMax ≤ w ∨ ∃ b ∈ fs, b.size ≤ w
  calls : (st.xNumberOfSuccessfulAllocations, st.xNumberOfSuccessfulFrees) = calls h

theorem stats_spec {base : ℕ} {h : Heap} (ht : Tiled base h fs ls) :
    ∃ st, h.vPortGetHeapStats = some st ∧ StatsOf h fs st := by
  obtain ⟨mx, mn, hwalk, hmax, hmin⟩ := @walkStats_spec h fs (fun b hb => (ht.freeFits b hb).ne_pxEnd)
    h.xStart.pxNextFreeBlock 0 0 heapSizeMax configTotalHeapSize ht.chain ht.length_lt
  have hstart : h.xStart.pxNextFreeBlock ≠ 0 := by
    have hchain := ht.chain
    cases fs with
    | nil =>
      rw [show h.xStart.pxNextFreeBlock = h.pxEnd from hchain]
      have hlt := ht.base_lt
      omega
    | cons b bs =>
      rw [hchain.1]
      exact ((ht.freeFits b List.mem_cons_self).addr_pos ht.base_pos).ne'
  let st : Heap.Stats := ⟨h.xFreeBytesRemaining, mx, mn, 0 + fs.length, h.xMinimumEverFreeBytesRemaining,
    h.xNumberOfSuccessfulAllocations, h.xNumberOfSuccessfulFrees⟩
  refine ⟨st, ?_, ht.remaining, Nat.zero_add _, fun w => ?_, hmin, rfl⟩
  · unfold Heap.vPortGetHeapStats
    rw [if_pos hstart, hwalk]
    rfl
  · rw [← Nat.le_zero]
    exact hmax w

/-! ## The heap's users -/

/-- The allocations lie in the array, and a header is between any two. -/
theorem HeapInv.live_apart (hi : HeapInv ucHeap s fs ls) :
    (∀ a ∈ s.live, portByteAlignment ∣ a.1 ∧ ucHeap + xHeapStructSize ≤ a.1 ∧
      a.1 + a.2 ≤ ucHeap + configTotalHeapSize) ∧
      s.live.Pairwise fun a b => a.1 + a.2 + xHeapStructSize ≤ b.1 ∨ b.1 + b.2 + xHeapStructSize ≤ a.1 := by
  obtain ⟨hbase, -, hle, -, hend⟩ := heap_bounds ucHeap
  refine ⟨fun a ha => ?_, ?_⟩
  · obtain ⟨l, hl, hptr, hsize⟩ := hi.block ha
    obtain ⟨hlow, hstop, hdvd, -, -⟩ := hi.liveFits l hl
    rw [hi.pxEnd] at hstop
    simp only [stop] at hstop
    refine ⟨?_, ?_, ?_⟩
    · rw [hptr]
      exact Nat.dvd_add hdvd ⟨1, rfl⟩
    · omega
    · omega
  · have hapart := hi.apart
    have hholds := hi.holds
    revert hapart
    generalize s.live = as at hholds
    clear hi
    induction hholds with
    | nil => exact fun _ => List.Pairwise.nil
    | @cons a l as ls hal hrest ih =>
      intro hapart
      obtain ⟨hl, hapart⟩ := List.pairwise_cons.1 hapart
      refine List.pairwise_cons.2 ⟨fun b hb => ?_, ih hapart⟩
      obtain ⟨pre, post, rfl⟩ := List.append_of_mem hb
      obtain ⟨as', l', bs', rfl, ⟨hptr', hsize'⟩, -⟩ := forall₂_split hrest
      obtain ⟨hptr, hsize⟩ := hal
      have hll := hl l' (by simp)
      simp only [Block.Apart, stop] at hll
      omega

end Users

/-- **The heap**: from power-up on, whatever its users allocate, free and write
in whatever order, every call ends without a failed assertion, and what is live
is aligned, lies in the array and is apart. -/
theorem heap_run {ucHeap : ℕ} (hpos : 0 < ucHeap) (mem : ℕ → BlockLink) {cs : List HeapCall}
    (hcs : Along (heapStep ucHeap) Allowed (powerUp mem) cs) :
    ∃ s', exec (heapStep ucHeap) (powerUp mem) cs = some s' ∧
      (∀ a ∈ s'.live, portByteAlignment ∣ a.1 ∧ ucHeap + xHeapStructSize ≤ a.1 ∧
        a.1 + a.2 ≤ ucHeap + configTotalHeapSize) ∧
      s'.live.Pairwise fun a b => a.1 + a.2 + xHeapStructSize ≤ b.1 ∨ b.1 + b.2 + xHeapStructSize ≤ a.1 := by
  obtain ⟨s', hrun, hok⟩ := HeapOk.run hpos (.inl ⟨mem, rfl⟩) hcs
  refine ⟨s', hrun, ?_⟩
  rcases hok with ⟨mem', rfl⟩ | ⟨fs, ls, hi⟩
  · exact ⟨nofun, List.Pairwise.nil⟩
  · exact hi.live_apart

theorem heap_run_unaligned : ∃ s', exec (heapStep 536870916) (powerUp fun _ => ⟨0, 0, false⟩)
    [.malloc 5, .malloc 100, .write 536870928 ⟨1, 2, true⟩, .free 536870928, .malloc 3, .free 0] = some s' ∧
      (∀ a ∈ s'.live, portByteAlignment ∣ a.1 ∧ 536870916 + xHeapStructSize ≤ a.1 ∧
        a.1 + a.2 ≤ 536870916 + configTotalHeapSize) ∧
      s'.live.Pairwise fun a b => a.1 + a.2 + xHeapStructSize ≤ b.1 ∨ b.1 + b.2 + xHeapStructSize ≤ a.1 :=
  heap_run (by decide) _ (by decide +kernel)

/-- **Memory is its user's**: what was allocated stays allocated until it is
freed, and every cell of it holds what its user has last written there, whatever
is allocated, freed and written besides. -/
theorem heap_keeps_data {ucHeap : ℕ} (hpos : 0 < ucHeap) (mem : ℕ → BlockLink) {pre post : List HeapCall}
    {s s' : HeapState} (hcs : Along (heapStep ucHeap) Allowed (powerUp mem) (pre ++ post))
    (hpre : exec (heapStep ucHeap) (powerUp mem) pre = some s) (hpost : exec (heapStep ucHeap) s post = some s')
    {a : ℕ × ℕ} (ha : a ∈ s.live) (hfree : HeapCall.free a.1 ∉ post) :
    a ∈ s'.live ∧ ∀ k, a.1 ≤ k → k < a.1 + a.2 → s'.heap.mem k = written k (s.heap.mem k) post := by
  have hok : HeapOk ucHeap s := by
    obtain ⟨s1, hrun, hok⟩ := HeapOk.run hpos (.inl ⟨mem, rfl⟩) (along_left hcs)
    obtain rfl : s1 = s := Option.some.inj (hrun.symm.trans hpre)
    exact hok
  exact hok.cells hpos ((along_append hpre).1 hcs).2 hpost ha hfree

theorem heap_keeps_data_freed : ∃ s s',
    exec (heapStep 536870916) (powerUp fun _ => ⟨0, 0, false⟩)
      [.malloc 16, .malloc 4, .write 536870936 ⟨1, 2, true⟩] = some s ∧
    exec (heapStep 536870916) s [.free 536870960, .malloc 300] = some s' ∧ (536870928, 16) ∈ s'.live ∧
      ∀ k, 536870928 ≤ k → k < 536870928 + 16 →
        s'.heap.mem k = written k (s.heap.mem k) [.free 536870960, .malloc 300] := by
  have hcs : Along (heapStep 536870916) Allowed (powerUp fun _ => ⟨0, 0, false⟩)
      ([.malloc 16, .malloc 4, .write 536870936 ⟨1, 2, true⟩] ++ [.free 536870960, .malloc 300]) := by
    decide +kernel
  have hlive : (exec (heapStep 536870916) (powerUp fun _ => ⟨0, 0, false⟩)
      [.malloc 16, .malloc 4, .write 536870936 ⟨1, 2, true⟩]).map HeapState.live =
        some [(536870960, 4), (536870928, 16)] := by decide +kernel
  obtain ⟨s', hrun, -⟩ := HeapOk.run (by decide) (.inl ⟨_, rfl⟩) hcs
  obtain ⟨s, hpre, hpost⟩ := exec_append.1 hrun
  rw [hpre, Option.map_some, Option.some.injEq] at hlive
  exact ⟨s, s', hpre, hpost, heap_keeps_data (by decide) _ hcs hpre hpost (by simp [hlive]) (by decide)⟩

/-- **What is freed comes together again**: once everything is given back, the
free list is one block, the whole heap. -/
theorem heap_comes_together {ucHeap : ℕ} (hpos : 0 < ucHeap) (mem : ℕ → BlockLink) {cs : List HeapCall}
    (hcs : Along (heapStep ucHeap) Allowed (powerUp mem) cs) {n : ℕ} (hn : HeapCall.malloc n ∈ cs) {s' : HeapState}
    (hrun : exec (heapStep ucHeap) (powerUp mem) cs = some s') (hnone : s'.live = []) :
    ∃ st, s'.heap.vPortGetHeapStats = some st ∧ st.xNumberOfFreeBlocks = 1 ∧
      st.xAvailableHeapSpaceInBytes = heapEnd ucHeap - heapBase ucHeap ∧
      st.xSizeOfLargestFreeBlockInBytes = heapEnd ucHeap - heapBase ucHeap ∧
      st.xSizeOfSmallestFreeBlockInBytes = heapEnd ucHeap - heapBase ucHeap ∧
      st.xNumberOfSuccessfulAllocations = st.xNumberOfSuccessfulFrees := by
  obtain ⟨s1, fs, ls, hrun', hi⟩ := heap_started hpos (.inl ⟨mem, rfl⟩) hcs hn
  obtain rfl : s1 = s' := Option.some.inj (hrun'.symm.trans hrun)
  obtain ⟨st, hst, hof⟩ := stats_spec hi.toTiled
  have hls : ls = [] := by
    have hholds := hi.holds
    rw [hnone] at hholds
    exact List.forall₂_nil_left_iff.1 hholds
  subst hls
  have hfs : fs = [wholeHeap ucHeap] := by
    refine hi.gapped.eq_singleton (fun b hb => ?_) (hi.pxEnd ▸ hi.base_lt) ?_
    · obtain ⟨hlow, hstop, -, -, -⟩ := hi.freeFits b hb
      exact ⟨hlow, hi.pxEnd ▸ hstop⟩
    · rw [← hi.pxEnd, ← hi.bytes, bytesOf_nil, Nat.add_zero]
  have hsize : (wholeHeap ucHeap).size = heapEnd ucHeap - heapBase ucHeap := rfl
  have hmax : heapEnd ucHeap - heapBase ucHeap ≤ heapSizeMax := by
    have hle := hi.size_le
    rw [hi.pxEnd] at hle
    exact hle.trans (by decide)
  subst hfs
  refine ⟨st, hst, hof.blocks, ?_, ?_, ?_, ?_⟩
  · rw [hof.available]
    rfl
  · refine eq_of_forall_le_iff fun w => ?_
    simp only [hof.largest, List.mem_singleton, exists_eq_left, hsize]
    omega
  · refine eq_of_forall_ge_iff fun w => ?_
    simp only [hof.smallest, List.mem_singleton, exists_eq_left, hsize]
    omega
  · have hcount := hi.count
    rw [hnone, ← hof.calls] at hcount
    exact hcount

theorem heap_comes_together_two : ∃ s', exec (heapStep 536870916) (powerUp fun _ => ⟨0, 0, false⟩)
    [.malloc 16, .malloc 4, .free 536870928, .free 536870960] = some s' ∧
      ∃ st, s'.heap.vPortGetHeapStats = some st ∧ st.xNumberOfFreeBlocks = 1 ∧
        st.xAvailableHeapSpaceInBytes = heapEnd 536870916 - heapBase 536870916 ∧
        st.xSizeOfLargestFreeBlockInBytes = heapEnd 536870916 - heapBase 536870916 ∧
        st.xSizeOfSmallestFreeBlockInBytes = heapEnd 536870916 - heapBase 536870916 ∧
        st.xNumberOfSuccessfulAllocations = st.xNumberOfSuccessfulFrees := by
  have hcs : Along (heapStep 536870916) Allowed (powerUp fun _ => ⟨0, 0, false⟩)
      [.malloc 16, .malloc 4, .free 536870928, .free 536870960] := by decide +kernel
  have hlive : (exec (heapStep 536870916) (powerUp fun _ => ⟨0, 0, false⟩)
      [.malloc 16, .malloc 4, .free 536870928, .free 536870960]).map HeapState.live = some [] := by
    decide +kernel
  obtain ⟨s', hrun, -⟩ := HeapOk.run (by decide) (.inl ⟨_, rfl⟩) hcs
  rw [hrun, Option.map_some, Option.some.injEq] at hlive
  exact ⟨s', hrun, heap_comes_together (by decide) _ hcs List.mem_cons_self hrun hlive⟩

/-- **`pvPortMalloc` fails only for want of a block**: it returns `NULL` just
where the size is invalid or `vPortGetHeapStats` shows no free block as long as
it, header and alignment included. -/
theorem malloc_null_iff {ucHeap : ℕ} (hpos : 0 < ucHeap) (mem : ℕ → BlockLink) {cs : List HeapCall}
    (hcs : Along (heapStep ucHeap) Allowed (powerUp mem) cs) {n : ℕ} (hn : HeapCall.malloc n ∈ cs) {s' : HeapState}
    (hrun : exec (heapStep ucHeap) (powerUp mem) cs = some s') (xWantedSize : ℕ) :
    ∃ st h pv, s'.heap.vPortGetHeapStats = some st ∧ s'.heap.pvPortMalloc ucHeap xWantedSize = some (h, pv) ∧
      (pv = 0 ↔ adjustedSize xWantedSize = 0 ∨ st.xSizeOfLargestFreeBlockInBytes < adjustedSize xWantedSize) := by
  obtain ⟨s1, fs, ls, hrun', hi⟩ := heap_started hpos (.inl ⟨mem, rfl⟩) hcs hn
  obtain rfl : s1 = s' := Option.some.inj (hrun'.symm.trans hrun)
  obtain ⟨st, hst, hof⟩ := stats_spec hi.toTiled
  obtain ⟨h', p, hmalloc, hres⟩ := malloc_spec hi.toTiled ucHeap xWantedSize
  refine ⟨st, h', p, hst, hmalloc, ?_⟩
  have hlargest := hof.largest (adjustedSize xWantedSize)
  cases hres with
  | null _ hp hnone =>
    refine iff_of_true hp ?_
    by_cases hw : adjustedSize xWantedSize = 0
    · exact .inl hw
    · refine .inr (Nat.lt_of_not_le fun hle => ?_)
      obtain ⟨b, hb, hwb⟩ := (hlargest.1 hle).resolve_left hw
      have hsum := le_bytesOf hb
      have hbytes := hi.bytes
      have hsize := hi.size_le
      simp only [configTotalHeapSize] at hsize
      exact hnone ⟨Nat.pos_of_ne_zero hw, by omega, b, hb, hwb⟩
  | block fs' l hp hw _ hb _ _ _ =>
    refine iff_of_false ?_ ?_
    · rw [hp]
      simp [xHeapStructSize]
    · rintro (hzero | hlt)
      · exact hw.ne' hzero
      · exact absurd (hlargest.2 (.inr hb.2)) (Nat.not_le.2 hlt)

theorem malloc_null_iff_full : ∃ s', exec (heapStep 536870916) (powerUp fun _ => ⟨0, 0, false⟩)
    [.malloc 60000, .malloc 4] = some s' ∧
      ∃ st h pv, s'.heap.vPortGetHeapStats = some st ∧ s'.heap.pvPortMalloc 536870916 6000 = some (h, pv) ∧
        (pv = 0 ↔ adjustedSize 6000 = 0 ∨ st.xSizeOfLargestFreeBlockInBytes < adjustedSize 6000) := by
  have hcs : Along (heapStep 536870916) Allowed (powerUp fun _ => ⟨0, 0, false⟩) [.malloc 60000, .malloc 4] := by
    decide +kernel
  obtain ⟨s', hrun, -⟩ := HeapOk.run (by decide) (.inl ⟨_, rfl⟩) hcs
  exact ⟨s', hrun, malloc_null_iff (by decide) _ hcs List.mem_cons_self hrun 6000⟩

end Stm32Handler.Rtos
